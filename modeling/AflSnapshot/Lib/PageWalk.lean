import Mathlib.Data.List.Basic
import Mathlib.Algebra.Order.Ring.Nat
import Mathlib.Tactic.Ring

/-! A walk over the address range of a multi-level table.

Every level cuts the range at the multiples of the size its entries span. For a populated entry the
walk calls the level's callback, which may have the walk skip the entry's subtree, and goes on with the
levels below; below the last level it calls the leaf callback unit by unit. A non-zero result of the
leaf callback ends the walk.

`walk_inv` is the induction rule: an invariant indexed by the position that the walk has reached. -/

namespace PageWalk

/-- What a callback asks the walk to do with the subtree of its entry. -/
inductive Action where
  | subtree
  | skip
deriving DecidableEq, Repr

/-- A table level: the size its entries span, in whole units, and which entries are populated. -/
structure Level (unit : Nat) where
  size : Nat
  populated : Nat → Bool
  pos : 0 < size
  dvd : unit ∣ size

/-- A level with the callback for its populated entries. -/
structure Stage (unit : Nat) (σ : Type) extends Level unit where
  entry : Nat → Nat → σ → σ × Action

/-- The end of the part of `[a, b)` that one entry of size `size` spans. -/
def entryEnd (size a b : Nat) : Nat := min b ((a / size + 1) * size)

/-- The parts of `[a, b)` that the entries of size `size` span, at most `n`. -/
def pieces (size b : Nat) : Nat → Nat → List (Nat × Nat)
  | 0, _ => []
  | n + 1, a => if a < b then (a, entryEnd size a b) :: pieces size b n (entryEnd size a b) else []

variable {unit : Nat} {σ α : Type}

/-- Go through `l` up to the first non-zero result. -/
def loop (f : α → σ → σ × Int) : List α → σ → σ × Int
  | [], s => (s, 0)
  | x :: l, s => if (f x s).2 = 0 then loop f l (f x s).1 else f x s

/-- Walk `[a, b)` below the given stages. -/
def walk (leaf : Nat → Nat → σ → σ × Int) : List (Stage unit σ) → Nat → Nat → σ → σ × Int
  | [], a, b, s => loop (fun c s => leaf c.1 c.2 s) (pieces unit b (b - a) a) s
  | g :: gs, a, b, s =>
    loop (fun c s =>
      if g.populated (c.1 / g.size) then
        match g.entry c.1 c.2 s with
        | (s, .skip) => (s, 0)
        | (s, .subtree) => walk leaf gs c.1 c.2 s
      else (s, 0)) (pieces g.size b (b - a) a) s

/-- All levels have a populated entry for address `p`. -/
def Populated (gs : List (Stage unit σ)) (p : Nat) : Prop := ∀ g ∈ gs, g.populated (p / g.size) = true

/-! ### Pieces -/

theorem lt_entryEnd {size a b : Nat} (hs : 0 < size) (hab : a < b) : a < entryEnd size a b := by
  have h : a < (a / size + 1) * size := by
    rw [Nat.mul_comm]
    exact Nat.lt_mul_div_succ a hs
  exact lt_min hab h

theorem entryEnd_le {size a b : Nat} : entryEnd size a b ≤ b := min_le_left _ _

/-- A piece lies within one entry. -/
theorem div_eq_of_lt_entryEnd {size a b p : Nat} (hs : 0 < size) (hap : a ≤ p) (hp : p < entryEnd size a b) :
    p / size = a / size := by
  have h1 : p < (a / size + 1) * size := lt_of_lt_of_le hp (min_le_right _ _)
  have h2 : p / size < a / size + 1 := (Nat.div_lt_iff_lt_mul hs).mpr h1
  have h3 : a / size ≤ p / size := Nat.div_le_div_right hap
  omega

theorem dvd_entryEnd {size a b : Nat} (hd : unit ∣ size) (hb : unit ∣ b) : unit ∣ entryEnd size a b := by
  unfold entryEnd
  rcases min_choice b ((a / size + 1) * size) with h | h <;> rw [h]
  · exact hb
  · exact hd.mul_left _

theorem entryEnd_unit {a b : Nat} (hu : 0 < unit) (ha : unit ∣ a) (hb : unit ∣ b) (hab : a < b) :
    entryEnd unit a b = a + unit := by
  obtain ⟨i, rfl⟩ := ha
  obtain ⟨j, rfl⟩ := hb
  have hij : i < j := Nat.lt_of_mul_lt_mul_left hab
  have h1 : (unit * i / unit + 1) * unit = unit * i + unit := by
    rw [Nat.mul_div_cancel_left i hu]
    ring
  rw [entryEnd, h1, min_eq_right]
  calc unit * i + unit = unit * (i + 1) := by ring
    _ ≤ unit * j := Nat.mul_le_mul_left _ hij

theorem mem_pieces {size b n a : Nat} {c : Nat × Nat} (hs : 0 < size) (hc : c ∈ pieces size b n a) :
    a ≤ c.1 ∧ c.2 ≤ b := by
  induction n generalizing a with
  | zero => cases hc
  | succ n ih =>
    rw [pieces] at hc
    split at hc
    · rename_i hab
      rcases List.mem_cons.mp hc with rfl | hc
      · exact ⟨le_rfl, entryEnd_le⟩
      · obtain ⟨h1, h2⟩ := ih hc
        exact ⟨le_trans (lt_entryEnd hs hab).le h1, h2⟩
    · cases hc

/-- Each address lies in a piece, and the pieces start at whole units. -/
theorem exists_piece {size b n a p : Nat} (hs : 0 < size) (hd : unit ∣ size) (ha : unit ∣ a) (hap : a ≤ p) (hpb : p < b)
    (hn : b - a ≤ n) : ∃ c ∈ pieces size b n a, c.1 ≤ p ∧ p < c.2 ∧ unit ∣ c.1 := by
  induction n generalizing a with
  | zero => omega
  | succ n ih =>
    have hab : a < b := lt_of_le_of_lt hap hpb
    have hend := lt_entryEnd hs hab
    rw [pieces, if_pos hab]
    by_cases hp : p < entryEnd size a b
    · exact ⟨_, List.mem_cons_self, hap, hp, ha⟩
    · have hdvd : unit ∣ entryEnd size a b := by
        unfold entryEnd at hp ⊢
        rcases min_choice b ((a / size + 1) * size) with h | h <;> rw [h] at hp ⊢
        · exact absurd hpb hp
        · exact hd.mul_left _
      obtain ⟨c, hc, hrest⟩ := ih hdvd (Nat.le_of_not_lt hp) (by omega)
      exact ⟨c, List.mem_cons_of_mem _ hc, hrest⟩

/-! ### The induction rule -/

section Rule
variable {I : Nat → σ → Prop} {leaf : Nat → Nat → σ → σ × Int} {lo hi : Nat}

/-- Where a walk that started at `a` ends: at `b` if it got through, else somewhere in between. -/
def Reached (I : Nat → σ → Prop) (a b : Nat) (r : σ × Int) : Prop :=
  (r.2 = 0 → I b r.1) ∧ ∃ x, a ≤ x ∧ x ≤ b ∧ I x r.1

/-- Where a callback leaves the walk: after the entry if it skips, else still before. -/
structure Entered (I : Nat → σ → Prop) (a e : Nat) (r : σ × Action) : Prop where
  skip : r.2 = .skip → I e r.1
  subtree : r.2 = .subtree → I a r.1

theorem Reached.of_inv {a b : Nat} {s : σ} (hab : a ≤ b) (h : I b s) : Reached I a b (s, 0) :=
  ⟨fun _ => h, b, hab, le_rfl, h⟩

theorem loop_pieces_inv {size : Nat} {f : Nat × Nat → σ → σ × Int} (hs : 0 < size) {b : Nat}
    (step : ∀ a s, lo ≤ a → a < b → unit ∣ a → I a s →
      Reached I a (entryEnd size a b) (f (a, entryEnd size a b) s))
    (hd : unit ∣ size) (hb : unit ∣ b) {n a : Nat} {s : σ} (hn : b - a ≤ n) (hla : lo ≤ a) (hab : a ≤ b)
    (ha : unit ∣ a) (h : I a s) : Reached I a b (loop f (pieces size b n a) s) := by
  induction n generalizing a s with
  | zero =>
    obtain rfl : a = b := by omega
    exact Reached.of_inv le_rfl h
  | succ n ih =>
    by_cases hlt : a < b
    · have hend := lt_entryEnd hs hlt
      have hle : entryEnd size a b ≤ b := entryEnd_le
      obtain ⟨h1, x, hax, hxe, hx⟩ := step a s hla hlt ha h
      simp only [pieces, hlt, ↓reduceIte, loop]
      by_cases hr : (f (a, entryEnd size a b) s).2 = 0
      · rw [if_pos hr]
        obtain ⟨h2, y, hay, hyb, hy⟩ :=
          ih (by omega) (le_trans hla hend.le) hle (dvd_entryEnd hd hb) (h1 hr)
        exact ⟨h2, y, le_trans hend.le hay, hyb, hy⟩
      · rw [if_neg hr]
        exact ⟨fun h0 => absurd h0 hr, x, hax, le_trans hxe hle, hx⟩
    · obtain rfl : a = b := by omega
      have : pieces size a (n + 1) a = [] := by simp [pieces]
      rw [this]
      exact Reached.of_inv le_rfl h

/-- `[a, e)` lies within one entry of size `size`. -/
def SameEntry (size a e : Nat) : Prop := ∀ p, a ≤ p → p < e → p / size = a / size

theorem SameEntry.sub {size a e a' e' : Nat} (h : SameEntry size a e) (ha : a ≤ a') (hlt : a' < e') (he : e' ≤ e) :
    SameEntry size a' e' := fun p hap hp =>
  (h p (le_trans ha hap) (lt_of_lt_of_le hp he)).trans (h a' ha (lt_of_lt_of_le hlt he)).symm

/-- An invariant of the position that holes, callbacks and leaves carry forward holds where the walk ends.
    Callbacks are called for ranges within one entry of the top level, leaves only for addresses whose
    entries are populated at every level. -/
theorem walk_inv (hu : 0 < unit) {top : Stage unit σ} {rest : List (Stage unit σ)}
    (hole : ∀ g ∈ top :: rest, ∀ a e s, lo ≤ a → a < e → e ≤ hi → unit ∣ a → unit ∣ e →
      (∀ p, a ≤ p → p < e → g.populated (p / g.size) = false) → I a s → I e s)
    (entry : ∀ g ∈ top :: rest, ∀ a e s, lo ≤ a → a < e → e ≤ hi → unit ∣ a → unit ∣ e →
      SameEntry top.size a e → I a s → Entered I a e (g.entry a e s))
    (page : ∀ a s, lo ≤ a → a + unit ≤ hi → unit ∣ a → Populated (top :: rest) a → I a s →
      Reached I a (a + unit) (leaf a (a + unit) s))
    {a b : Nat} {s : σ} (hlo : lo ≤ a) (hab : a ≤ b) (hhi : b ≤ hi) (ha : unit ∣ a) (hb : unit ∣ b) (h : I a s) :
    Reached I a b (walk leaf (top :: rest) a b s) := by
  -- `done` are the levels above, all populated over the range at hand.
  suffices below : ∀ (gs done : List (Stage unit σ)), top :: rest = done ++ gs → ∀ {a b : Nat} {s : σ}, lo ≤ a →
      a ≤ b → b ≤ hi → unit ∣ a → unit ∣ b → (∀ p, a ≤ p → p < b → Populated done p) →
      (done = [] ∨ SameEntry top.size a b) → I a s → Reached I a b (walk leaf gs a b s) from
    below (top :: rest) [] rfl hlo hab hhi ha hb (fun _ _ _ _ hg => absurd hg (by simp)) (Or.inl rfl) h
  intro gs
  induction gs with
  | nil =>
    intro done hdone a b s hlo hab hhi ha hb hpop _ h
    rw [List.append_nil] at hdone
    subst hdone
    refine loop_pieces_inv hu (fun c s (hac : a ≤ c) hcb hc hI => ?_) dvd_rfl hb le_rfl le_rfl hab ha h
    rw [entryEnd_unit hu hc hb hcb]
    have hcu : c + unit ≤ b := by
      rw [← entryEnd_unit hu hc hb hcb]
      exact entryEnd_le
    exact page c s (le_trans hlo hac) (le_trans hcu hhi) hc (hpop c hac hcb) hI
  | cons g gs ih =>
    intro done hdone a b s hlo hab hhi ha hb hpop hsame h
    have hg : g ∈ top :: rest := by simp [hdone]
    refine loop_pieces_inv g.pos (fun c s (hac : a ≤ c) hcb hc hI => ?_) g.dvd hb le_rfl le_rfl hab ha h
    have hce := lt_entryEnd g.pos hcb
    have heb : entryEnd g.size c b ≤ b := entryEnd_le
    have hed : unit ∣ entryEnd g.size c b := dvd_entryEnd g.dvd hb
    -- The levels do not change within a piece, and the top level not within a piece of a lower one.
    have hidx : SameEntry g.size c (entryEnd g.size c b) := fun p hcp hp => div_eq_of_lt_entryEnd g.pos hcp hp
    have htop : SameEntry top.size c (entryEnd g.size c b) := by
      rcases hsame with rfl | hsame
      · obtain rfl : top = g := by simpa using (List.cons.inj hdone).1
        exact hidx
      · exact hsame.sub hac hce heb
    by_cases hpg : g.populated (c / g.size) = true
    · simp only [hpg, ↓reduceIte]
      have hent := entry g hg c _ s (le_trans hlo hac) hce (le_trans heb hhi) hc hed htop hI
      rcases hr : g.entry c (entryEnd g.size c b) s with ⟨s', act⟩
      rw [hr] at hent
      cases act with
      | skip => exact Reached.of_inv hce.le (hent.skip rfl)
      | subtree =>
        refine ih (done ++ [g]) (by simp [hdone]) (le_trans hlo hac) hce.le (le_trans heb hhi) hc hed
          (fun p hcp hp g' hg' => ?_) (Or.inr htop) (hent.subtree rfl)
        rcases List.mem_append.mp hg' with hg' | hg'
        · exact hpop p (le_trans hac hcp) (lt_of_lt_of_le hp heb) g' hg'
        · obtain rfl := List.mem_singleton.mp hg'
          rw [hidx p hcp hp]
          exact hpg
    · simp only [hpg, Bool.false_eq_true, ↓reduceIte]
      refine Reached.of_inv hce.le (hole g hg c _ s (le_trans hlo hac) hce (le_trans heb hhi) hc hed
        (fun p hcp hp => ?_) hI)
      rw [hidx p hcp hp]
      simpa using hpg

/-- A walk whose leaf callback gives zero gets through. -/
theorem walk_result (hleaf : ∀ a e s, (leaf a e s).2 = 0) (gs : List (Stage unit σ)) (a b : Nat) (s : σ) :
    (walk leaf gs a b s).2 = 0 := by
  have loop_result : ∀ {f : Nat × Nat → σ → σ × Int}, (∀ c s, (f c s).2 = 0) → ∀ (l : List (Nat × Nat)) (s : σ),
      (loop f l s).2 = 0 := by
    intro f hf l
    induction l with
    | nil => exact fun _ => rfl
    | cons c l ih =>
      intro s
      rw [loop, if_pos (hf c s)]
      exact ih _
  induction gs generalizing a b s with
  | nil => exact loop_result (fun c s => hleaf _ _ s) _ s
  | cons g gs ih =>
    refine loop_result (fun c s => ?_) _ s
    split
    · split
      · rfl
      · exact ih _ _ _
    · rfl

/-! ### Walks without a position -/

section
variable {P Q : σ → Prop} {leaf' : Nat → Nat → σ → σ × Int} {f f' : α → σ → σ × Int}

theorem loop_keeps (hf : ∀ x s, P s → P (f x s).1) (l : List α) {s : σ} (h : P s) : P (loop f l s).1 := by
  induction l generalizing s with
  | nil => exact h
  | cons x l ih =>
    rw [loop]
    split
    · exact ih (hf x s h)
    · exact hf x s h

/-- What the callbacks keep, the walk keeps, however far it gets. -/
theorem walk_keeps {gs : List (Stage unit σ)} (hentry : ∀ g ∈ gs, ∀ a e s, P s → P (g.entry a e s).1)
    (hleaf : ∀ a e s, P s → P (leaf a e s).1) (a b : Nat) {s : σ} (h : P s) : P (walk leaf gs a b s).1 := by
  induction gs generalizing a b s with
  | nil => exact loop_keeps (fun (c : Nat × Nat) s => hleaf c.1 c.2 s) _ h
  | cons g gs ih =>
    refine loop_keeps (fun c s hs => ?_) _ h
    split
    · have hg := hentry g List.mem_cons_self c.1 c.2 s hs
      rcases hr : g.entry c.1 c.2 s with ⟨s', act⟩
      rw [hr] at hg
      cases act with
      | skip => exact hg
      | subtree => exact ih (fun g' hg' => hentry g' (List.mem_cons_of_mem _ hg')) c.1 c.2 hg
    · exact hs

theorem loop_agrees (hkeep : ∀ x s, Q s → Q (f' x s).1)
    (hf : ∀ x s, f x s = f' x s ∨ (f x s).2 ≠ 0 ∧ (f' x s).2 = 0 ∧ Q (f' x s).1) (l : List α) (s : σ) :
    loop f l s = loop f' l s ∨ (loop f l s).2 ≠ 0 ∧ Q (loop f' l s).1 := by
  induction l generalizing s with
  | nil => exact Or.inl rfl
  | cons x l ih =>
    rw [loop, loop]
    rcases hf x s with heq | ⟨hne, hzero, hq⟩
    · rw [heq]
      split
      · exact ih _
      · exact Or.inl rfl
    · rw [if_neg hne, if_pos hzero]
      exact Or.inr ⟨hne, loop_keeps hkeep l hq⟩

/-- Two leaf callbacks that agree but where the first one fails: the walks agree, or the first one fails and the second
    one has come through the place where it did. -/
theorem walk_agrees {gs : List (Stage unit σ)} (hentry : ∀ g ∈ gs, ∀ a e s, Q s → Q (g.entry a e s).1)
    (hkeep : ∀ a e s, Q s → Q (leaf' a e s).1) (hzero : ∀ a e s, (leaf' a e s).2 = 0)
    (hleaf : ∀ a e s, leaf a e s = leaf' a e s ∨ (leaf a e s).2 ≠ 0 ∧ Q (leaf' a e s).1) (a b : Nat) (s : σ) :
    walk leaf gs a b s = walk leaf' gs a b s ∨ (walk leaf gs a b s).2 ≠ 0 ∧ Q (walk leaf' gs a b s).1 := by
  induction gs generalizing a b s with
  | nil =>
    refine loop_agrees (fun (c : Nat × Nat) s => hkeep c.1 c.2 s) (fun c s => ?_) _ s
    rcases hleaf c.1 c.2 s with heq | ⟨hne, hq⟩
    · exact Or.inl heq
    · exact Or.inr ⟨hne, hzero _ _ _, hq⟩
  | cons g gs ih =>
    have htail : ∀ g' ∈ gs, ∀ a e s, Q s → Q (g'.entry a e s).1 := fun g' hg' => hentry g' (List.mem_cons_of_mem _ hg')
    refine loop_agrees (fun c s hs => ?_) (fun c s => ?_) _ s
    · split
      · have hg := hentry g List.mem_cons_self c.1 c.2 s hs
        rcases hr : g.entry c.1 c.2 s with ⟨s', act⟩
        rw [hr] at hg
        cases act with
        | skip => exact hg
        | subtree => exact walk_keeps htail hkeep c.1 c.2 hg
      · exact hs
    · split
      · rcases g.entry c.1 c.2 s with ⟨s', act⟩
        cases act with
        | skip => exact Or.inl rfl
        | subtree =>
          rcases ih htail c.1 c.2 s' with heq | ⟨hne, hq⟩
          · exact Or.inl heq
          · exact Or.inr ⟨hne, walk_result hzero _ _ _ _, hq⟩
      · exact Or.inl rfl

end

/-! ### Two walks over the same tables -/

section
variable {τ : Type} {R : σ → τ → Prop} {leaf : Nat → Nat → σ → σ × Int} {leaf' : Nat → Nat → τ → τ × Int}

/-- Two callbacks for one level that do the same to related states. -/
structure Stage.Simulates (R : σ → τ → Prop) (g : Stage unit σ) (g' : Stage unit τ) : Prop where
  level : g'.toLevel = g.toLevel
  entry : ∀ a e s s', R s s' → (g'.entry a e s').2 = (g.entry a e s).2 ∧ R (g.entry a e s).1 (g'.entry a e s').1

theorem loop_simulates {f : α → σ → σ × Int} {f' : α → τ → τ × Int}
    (hf : ∀ x s s', R s s' → (f' x s').2 = (f x s).2 ∧ R (f x s).1 (f' x s').1) (l : List α) {s : σ} {s' : τ} (h : R s s') :
    (loop f' l s').2 = (loop f l s).2 ∧ R (loop f l s).1 (loop f' l s').1 := by
  induction l generalizing s s' with
  | nil => exact ⟨rfl, h⟩
  | cons x l ih =>
    obtain ⟨hres, hrel⟩ := hf x s s' h
    rw [loop, loop, hres]
    split
    · exact ih hrel
    · exact ⟨hres, hrel⟩

/-- Callbacks that keep two states related keep them so over the walk, and the walks have one result. -/
theorem walk_simulates {gs : List (Stage unit σ)} {gs' : List (Stage unit τ)} (hstages : List.Forall₂ (Stage.Simulates R) gs gs')
    (hleaf : ∀ a e s s', R s s' → (leaf' a e s').2 = (leaf a e s).2 ∧ R (leaf a e s).1 (leaf' a e s').1) (a b : Nat) {s : σ} {s' : τ}
    (h : R s s') : (walk leaf' gs' a b s').2 = (walk leaf gs a b s).2 ∧ R (walk leaf gs a b s).1 (walk leaf' gs' a b s').1 := by
  induction hstages generalizing a b s s' with
  | nil => exact loop_simulates (fun (c : Nat × Nat) s s' => hleaf c.1 c.2 s s') _ h
  | @cons g g' gs gs' hg _ ih =>
    rw [walk, walk, hg.level]
    refine loop_simulates (fun c s s' hs => ?_) _ h
    split
    · obtain ⟨hact, hrel⟩ := hg.entry c.1 c.2 s s' hs
      rcases hr : g.entry c.1 c.2 s with ⟨s₁, act⟩
      rcases hr' : g'.entry c.1 c.2 s' with ⟨s₁', act'⟩
      rw [hr, hr'] at hact hrel
      obtain rfl : act' = act := hact
      cases act' with
      | skip => exact ⟨rfl, hrel⟩
      | subtree => exact ih c.1 c.2 hrel
    · exact ⟨rfl, hs⟩

end

/-- Within one entry of the top level the walk makes one call there. -/
theorem walk_of_sameEntry {g : Stage unit σ} {gs : List (Stage unit σ)} {a b : Nat} {s : σ} (hab : a < b)
    (h : SameEntry g.size a b) (hp : g.populated (a / g.size) = true) :
    walk leaf (g :: gs) a b s =
      match g.entry a b s with
      | (s, .skip) => (s, 0)
      | (s, .subtree) => walk leaf gs a b s := by
  have hend : entryEnd g.size a b = b := by
    refine min_eq_left ?_
    have h1 : (b - 1) / g.size = a / g.size := h _ (by omega) (by omega)
    have h2 : b - 1 < ((b - 1) / g.size + 1) * g.size := by
      rw [Nat.mul_comm]
      exact Nat.lt_mul_div_succ _ g.pos
    rw [h1] at h2
    omega
  obtain ⟨n, hn⟩ : ∃ n, b - a = n + 1 := ⟨b - a - 1, by omega⟩
  have hpieces : pieces g.size b (b - a) a = [(a, b)] := by
    rw [hn, pieces, if_pos hab, hend]
    cases n <;> simp [pieces]
  rw [walk, hpieces]
  simp only [loop, hp, ↓reduceIte]
  rcases g.entry a b s with ⟨s', act⟩
  cases act with
  | skip => rfl
  | subtree =>
    simp only
    split
    · rename_i h0
      exact Prod.ext rfl h0.symm
    · rfl

end Rule
end PageWalk
