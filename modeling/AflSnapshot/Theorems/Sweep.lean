import AflSnapshot.Sweep

/-! # The sweep over the VMAs

`restore_vmas` walks the list of VMAs and the snapshot's list together while its own calls edit the former.
`Swept` holds whenever it is at an end of a VMA of either list: the VMAs `L` and `P` are behind it, `R` and `Q`
ahead, and below the cursor what is mapped is what `Target` says. A round keeps it (`Swept.round`), but for the
round that cuts a VMA in two: there the loop goes back to the end of the lower part, and needs two more rounds to
come to where it was. On the way it maps the gap that it just unmapped if the next snapshot VMA is anonymous and
private (`RefilledGap`). -/

namespace AflSnapshot
open Spans

/-- A gap between neighbouring snapshot VMAs, the upper one anonymous and private, that one VMA covers together
    with memory on both sides. -/
def RefilledGap (vmas : List VmArea) (allVmas : List SnapshotVma) (a : Nat) : Prop :=
  ∃ v ∈ vmas, ∃ prev ∈ allVmas, ∃ next ∈ allVmas,
    (∀ x ∈ allVmas, x.vmEnd ≤ prev.vmEnd ∨ next.vmStart ≤ x.vmStart) ∧ next.isAnonymousPrivate = true ∧
    v.vmStart < prev.vmEnd ∧ next.vmStart < v.vmEnd ∧ prev.vmEnd ≤ a ∧ a < next.vmStart

/-- What is mapped when `restore_vmas` is done. -/
def Target (vmas : List VmArea) (allVmas : List SnapshotVma) (a : Nat) : Prop :=
  (∃ x ∈ allVmas, In a x ∧ (Covers vmas a ∨ x.isAnonymousPrivate = true)) ∨ RefilledGap vmas allVmas a

/-- The snapshot's list: in order, at page boundaries and in the 64-bit address space. -/
structure SnapshotVmasOk (l : List SnapshotVma) : Prop where
  ordered : Ordered l
  aligned : ∀ x ∈ l, pageSize ∣ x.vmStart ∧ pageSize ∣ x.vmEnd
  top : ∀ x ∈ l, x.vmEnd < ulongMax

/-- The calls that the sweep makes succeed, edit the list of VMAs as they should and keep `J`. -/
structure VmLaws {σ : Type} (ops : VmOps σ) (fresh : σ → Nat) (J : σ → Prop) (vmas : List VmArea)
    (allVmas : List SnapshotVma) : Prop where
  munmap : ∀ vm start end_, J vm → pageSize ∣ start → pageSize ∣ end_ → start < end_ →
    (∀ x, start ≤ x → x < end_ → Covers (ops.vmas vm) x ∧ ¬Covers allVmas x) →
    (ops.munmap start (end_ - start) vm).2 = 0 ∧ J (ops.munmap start (end_ - start) vm).1 ∧
    ops.vmas (ops.munmap start (end_ - start) vm).1 = unmapVmas start end_ (fresh vm) (ops.vmas vm) ∧
    fresh (ops.munmap start (end_ - start) vm).1 = fresh vm + 1
  mmap : ∀ vm start end_ ss, J vm → pageSize ∣ start → pageSize ∣ end_ → start < end_ → ss ∈ allVmas →
    ss.isAnonymousPrivate = true →
    (∀ x, start ≤ x → x < end_ → ¬Covers (ops.vmas vm) x ∧ (In x ss ∨ RefilledGap vmas allVmas x)) →
    (ops.mmap start (end_ - start) ss.prot vm).2 = some start ∧ J (ops.mmap start (end_ - start) ss.prot vm).1 ∧
    (∃ v : VmArea, v.id = fresh vm ∧ v.vmStart = start ∧ v.vmEnd = end_ ∧
      ops.vmas (ops.mmap start (end_ - start) ss.prot vm).1 = insertVma v (ops.vmas vm)) ∧
    fresh (ops.mmap start (end_ - start) ss.prot vm).1 = fresh vm + 1

/-- What is ahead is what was there at the start, but that the first VMA may have lost what lay before a
    snapshot VMA. -/
def Origin (vmas : List VmArea) (allVmas : List SnapshotVma) (c : Nat) (R : List VmArea) : Prop :=
  ∃ L₀ R₀, vmas = L₀ ++ R₀ ∧ (∀ w ∈ L₀, w.vmEnd ≤ c) ∧
    (R = R₀ ∨ ∃ v₀ v R₁, R₀ = v₀ :: R₁ ∧ R = v :: R₁ ∧ v.vmEnd = v₀.vmEnd ∧ v₀.vmStart ≤ v.vmStart ∧
      v.vmStart ≤ c ∧ ∃ x ∈ allVmas, v.vmStart = x.vmStart)

section
variable {vmas : List VmArea} {allVmas : List SnapshotVma} {a c n : Nat} {R : List VmArea}

theorem RefilledGap.covers (h : RefilledGap vmas allVmas a) : Covers vmas a := by
  obtain ⟨v, hv, prev, -, next, -, -, -, h1, h2, h3, h4⟩ := h
  exact ⟨v, hv, by show v.vmStart ≤ a; omega, by show a < v.vmEnd; omega⟩

theorem RefilledGap.not_covers (h : RefilledGap vmas allVmas a) : ¬Covers allVmas a := by
  obtain ⟨-, -, prev, -, next, -, hbetween, -, -, -, h3, h4⟩ := h
  rintro ⟨x, hx, h1, h2⟩
  have h1 : x.vmStart ≤ a := h1
  have h2 : a < x.vmEnd := h2
  rcases hbetween x hx with h | h <;> omega

theorem Origin.covers (h : Origin vmas allVmas c R) (hc : c ≤ a) : Covers vmas a ↔ Covers R a := by
  obtain ⟨L₀, R₀, rfl, hL, hR⟩ := h
  rw [covers_append_of_le hL hc]
  rcases hR with rfl | ⟨v₀, v, R₁, rfl, rfl, hend, hstart, hvc, -⟩
  · rfl
  · rw [covers_cons, covers_cons]
    refine or_congr_left ?_
    show v₀.vmStart ≤ a ∧ a < v₀.vmEnd ↔ v.vmStart ≤ a ∧ a < v.vmEnd
    omega

theorem Origin.mono (h : Origin vmas allVmas c R) (hcn : c ≤ n) : Origin vmas allVmas n R := by
  obtain ⟨L₀, R₀, hV, hL, hR⟩ := h
  refine ⟨L₀, R₀, hV, fun w hw => le_trans (hL w hw) hcn, ?_⟩
  rcases hR with rfl | ⟨v₀, v, R₁, h1, h2, h3, h4, h5, h6⟩
  · exact Or.inl rfl
  · exact Or.inr ⟨v₀, v, R₁, h1, h2, h3, h4, le_trans h5 hcn, h6⟩

/-- The first VMA ahead falls behind. -/
theorem Origin.tail {v : VmArea} (h : Origin vmas allVmas c (v :: R)) (hcn : c ≤ n) (hv : v.vmEnd ≤ n) :
    Origin vmas allVmas n R := by
  obtain ⟨L₀, R₀, rfl, hL, hR⟩ := h
  obtain ⟨v₀, R₁, rfl, hend, hR⟩ : ∃ v₀ R₁, R₀ = v₀ :: R₁ ∧ v.vmEnd = v₀.vmEnd ∧ R = R₁ := by
    rcases hR with hR | ⟨v₀, v', R₁, h1, h2, h3, -⟩
    · exact ⟨v, R, hR.symm, rfl, rfl⟩
    · obtain ⟨rfl, rfl⟩ := List.cons.inj h2
      exact ⟨v₀, R, h1, h3, rfl⟩
  refine ⟨L₀ ++ [v₀], R₁, by simp, fun w hw => ?_, Or.inl hR⟩
  rcases List.mem_append.mp hw with hw | hw
  · exact le_trans (hL w hw) hcn
  · rw [List.mem_singleton.mp hw, ← hend]
    exact hv

end

/-! ### The invariant -/

section
variable {σ : Type} (ops : VmOps σ) (fresh : σ → Nat) (J : σ → Prop) (vmas : List VmArea)
  (allVmas : List SnapshotVma)

/-- The places of the loop in the two lists. -/
structure Placed (L R : List VmArea) (P Q : List SnapshotVma) (s : SweepState σ) : Prop where
  list : ops.vmas s.vm = L ++ R
  ok : VmasOk (fresh s.vm) (L ++ R)
  iter : s.vmaIter = R.head?.map VmArea.id
  ssIter : s.ssVmaIter = Q
  split : allVmas = P ++ Q
  dvd : pageSize ∣ s.cursor
  below : ∀ v ∈ L, v.vmEnd ≤ s.cursor
  ssBelow : ∀ x ∈ P, x.vmEnd ≤ s.cursor
  inV : At s.inVmas s.cursor R
  inS : At s.inSsVmas s.cursor Q

structure Swept (L R : List VmArea) (P Q : List SnapshotVma) (s : SweepState σ) : Prop where
  list : ops.vmas s.vm = L ++ R
  ok : VmasOk (fresh s.vm) (L ++ R)
  iter : s.vmaIter = R.head?.map VmArea.id
  ssIter : s.ssVmaIter = Q
  split : allVmas = P ++ Q
  dvd : pageSize ∣ s.cursor
  below : ∀ v ∈ L, v.vmEnd ≤ s.cursor
  ssBelow : ∀ x ∈ P, x.vmEnd ≤ s.cursor
  inV : At s.inVmas s.cursor R
  inS : At s.inSsVmas s.cursor Q
  origin : Origin vmas allVmas s.cursor R
  /-- Where a VMA reaches from below the cursor into a gap, the gap starts at the cursor. -/
  lower : s.inVmas = true → s.inSsVmas = false → ∀ v, R.head? = some v → v.vmStart < s.cursor →
    ∃ x ∈ P, x.vmEnd = s.cursor
  done : ∀ a < s.cursor, Covers (L ++ R) a ↔ Target vmas allVmas a
  inv : J s.vm

end

/-- The ends of the spans of `l` that are ahead of the cursor. -/
def endsOf {α : Type} (l : List α) (inside : Bool) : Nat := 2 * l.length - inside.toNat

/-- The ends of VMAs of either list that are still ahead. -/
def endsAhead (R : List VmArea) (Q : List SnapshotVma) (inVmas inSsVmas : Bool) : Nat :=
  endsOf R inVmas + endsOf Q inSsVmas

section
variable {σ : Type} {ops : VmOps σ} {fresh : σ → Nat} {J : σ → Prop} {vmas : List VmArea}
  {allVmas : List SnapshotVma}
variable {L R L' : List VmArea} {P Q : List SnapshotVma} {s : SweepState σ} {a x y n : Nat}

theorem Swept.placed (h : Swept ops fresh J vmas allVmas L R P Q s) : Placed ops fresh allVmas L R P Q s :=
  ⟨h.list, h.ok, h.iter, h.ssIter, h.split, h.dvd, h.below, h.ssBelow, h.inV, h.inS⟩

theorem Placed.orderedV (h : Placed ops fresh allVmas L R P Q s) : Ordered R :=
  (Ordered.append_iff.mp h.ok.ordered).2.1

theorem Placed.orderedS (h : Placed ops fresh allVmas L R P Q s) (hS : SnapshotVmasOk allVmas) : Ordered Q :=
  (Ordered.append_iff.mp (h.split ▸ hS.ordered)).2.1

theorem Placed.coversS (h : Placed ops fresh allVmas L R P Q s) (ha : s.cursor ≤ a) :
    Covers allVmas a ↔ Covers Q a := by
  rw [h.split]
  exact covers_append_of_le h.ssBelow ha

/-- The next end of a VMA, the next end of a snapshot VMA, and the next cursor. -/
structure Ends (s : SweepState σ) (R : List VmArea) (Q : List SnapshotVma) (x y n : Nat) : Prop where
  vma : x = nextPos ulongMax s.inVmas R
  ssVma : y = nextPos ulongMax s.inSsVmas Q
  next : n = min x y

theorem ends_exist (s : SweepState σ) (R : List VmArea) (Q : List SnapshotVma) : ∃ x y n, Ends s R Q x y n :=
  ⟨_, _, _, rfl, rfl, rfl⟩

theorem Ends.choice {R : List VmArea} {Q : List SnapshotVma} (e : Ends s R Q x y n) : n = x ∨ n = y := by
  rw [e.next]
  exact min_choice x y

theorem Placed.topQ (h : Placed ops fresh allVmas L R P Q s) (hS : SnapshotVmasOk allVmas) :
    ∀ v ∈ Q, v.vmEnd < ulongMax := fun v hv => hS.top v (by
  rw [h.split]
  exact List.mem_append_right _ hv)

theorem Placed.topR (h : Placed ops fresh allVmas L R P Q s) : ∀ v ∈ R, v.vmEnd < ulongMax := fun v hv =>
  h.ok.top v (List.mem_append_right _ hv)

theorem Placed.cursor_le (h : Placed ops fresh allVmas L R P Q s) (hS : SnapshotVmasOk allVmas)
    (hc : s.cursor ≤ ulongMax) (e : Ends s R Q x y n) : s.cursor ≤ n := by
  rw [e.next, e.vma, e.ssVma]
  exact le_min (h.inV.le_nextPos h.topR hc) (h.inS.le_nextPos (h.topQ hS) hc)

/-- What a round does, by the ends ahead. -/
theorem Placed.step_eq (h : Placed ops fresh allVmas L R P Q s) (hne : R ≠ [] ∨ Q ≠ [])
    (e : Ends s R Q x y n) : sweepStep ops s =
      match sweepRegion ops s n with
      | (vm, some res) => .ret vm res
      | (vm, none) => .next {
          vm
          vmaIter := if n = x ∧ s.inVmas then R.tail.head?.map VmArea.id else R.head?.map VmArea.id
          ssVmaIter := if n = y then rest s.inSsVmas Q else Q
          cursor := n
          inVmas := if n = x then !s.inVmas else s.inVmas
          inSsVmas := if n = y then !s.inSsVmas else s.inSsVmas } := by
  obtain ⟨rfl, rfl, rfl⟩ := e
  obtain ⟨vm, vmaIter, ssVmaIter, cursor, inVmas, inSsVmas⟩ := s
  obtain rfl : ssVmaIter = Q := h.ssIter
  have hiter : vmaIter = R.head?.map VmArea.id := h.iter
  have hlist : ops.vmas vm = L ++ R := h.list
  have hids := h.ok.ids
  cases R with
  | nil =>
    obtain rfl : vmaIter = none := hiter
    have hQ : ssVmaIter ≠ [] := hne.resolve_left (by simp)
    simp only [sweepStep, hQ, and_false, ↓reduceIte, Option.map_none, Option.join_none, Option.bind_none]
    rfl
  | cons v R =>
    obtain rfl : vmaIter = some v.id := hiter
    have hlookup : lookupVma (ops.vmas vm) v.id = some (v, R.head?.map VmArea.id) := by
      rw [hlist]
      exact lookupVma_append hids
    simp only [sweepStep, reduceCtorEq, false_and, ↓reduceIte, Option.map_some, hlookup]
    rfl

theorem nextPos_lt {α : Type} [Ranged α] {l : List α} {inside : Bool} {top : Nat} (hne : l ≠ [])
    (hl : ∀ v ∈ l, Ranged.lo v < Ranged.hi v ∧ Ranged.hi v < top) : nextPos top inside l < top := by
  cases l with
  | nil => exact absurd rfl hne
  | cons v l =>
    obtain ⟨h1, h2⟩ := hl v List.mem_cons_self
    cases inside with
    | false => exact lt_trans h1 h2
    | true => exact h2

/-- The next cursor is an end of a VMA, not the end of the address space. -/
theorem Placed.next_lt (h : Placed ops fresh allVmas L R P Q s) (hS : SnapshotVmasOk allVmas)
    (hne : R ≠ [] ∨ Q ≠ []) (e : Ends s R Q x y n) :
    n < ulongMax ∧ (n = x → R ≠ []) ∧ (n = y → Q ≠ []) := by
  have hlt : n < ulongMax := by
    rw [e.next, e.vma, e.ssVma]
    rcases hne with hne | hne
    · exact lt_of_le_of_lt (min_le_left _ _)
        (nextPos_lt hne fun v hv => ⟨h.orderedV.pos v hv, h.topR v hv⟩)
    · exact lt_of_le_of_lt (min_le_right _ _)
        (nextPos_lt hne fun v hv => ⟨(h.orderedS hS).pos v hv, h.topQ hS v hv⟩)
  refine ⟨hlt, fun hx hR => ?_, fun hy hQ => ?_⟩
  · rw [hx, e.vma, hR] at hlt
    exact absurd hlt (lt_irrefl _)
  · rw [hy, e.ssVma, hQ] at hlt
    exact absurd hlt (lt_irrefl _)

theorem nextPos_dvd {α : Type} [Ranged α] {l : List α} {inside : Bool} {top : Nat} (hne : l ≠ [])
    (hl : ∀ v ∈ l, pageSize ∣ Ranged.lo v ∧ pageSize ∣ Ranged.hi v) : pageSize ∣ nextPos top inside l := by
  cases l with
  | nil => exact absurd rfl hne
  | cons v l =>
    obtain ⟨h1, h2⟩ := hl v List.mem_cons_self
    cases inside with
    | false => exact h1
    | true => exact h2

theorem Placed.next_dvd (h : Placed ops fresh allVmas L R P Q s) (hS : SnapshotVmasOk allVmas)
    (hne : R ≠ [] ∨ Q ≠ []) (e : Ends s R Q x y n) : pageSize ∣ n := by
  obtain ⟨-, hx, hy⟩ := h.next_lt hS hne e
  rcases e.choice with hnx | hny
  · rw [hnx, e.vma]
    exact nextPos_dvd (hx hnx) fun v hv => h.ok.aligned v (List.mem_append_right _ hv)
  · rw [hny, e.ssVma]
    refine nextPos_dvd (hy hny) fun v hv => hS.aligned v ?_
    rw [h.split]
    exact List.mem_append_right _ hv

theorem Origin.next {inside : Bool} {c : Nat} (h : Origin vmas allVmas c R) (hcn : c ≤ n)
    (hn : n = nextPos ulongMax inside R) : Origin vmas allVmas n (rest inside R) := by
  cases inside with
  | false => exact h.mono hcn
  | true =>
    cases R with
    | nil => exact h.mono hcn
    | cons v R => exact h.tail hcn (le_of_eq hn.symm)

/-- The cursor at the next end. -/
theorem Placed.inV_next (h : Placed ops fresh allVmas L R P Q s) (hS : SnapshotVmasOk allVmas)
    (hne : R ≠ [] ∨ Q ≠ []) (e : Ends s R Q x y n) (hcn : s.cursor ≤ n) :
    At (if n = x then !s.inVmas else s.inVmas) n (if n = x then rest s.inVmas R else R) := by
  have hmove := h.inV.move h.orderedV hcn (e.vma ▸ e.next ▸ min_le_left _ _) (e.vma ▸ (h.next_lt hS hne e).2.1)
  rw [← e.vma] at hmove
  exact hmove

/-- The places after a round that leaves `L'` below the next cursor and `R'` ahead of it. -/
theorem Placed.next (h : Placed ops fresh allVmas L R P Q s) (hS : SnapshotVmasOk allVmas)
    (hne : R ≠ [] ∨ Q ≠ []) (e : Ends s R Q x y n) (hcn : s.cursor ≤ n) {vm : σ} {R' : List VmArea}
    (hlist : ops.vmas vm = L' ++ R') (hok : VmasOk (fresh vm) (L' ++ R')) (hbelow : ∀ v ∈ L', v.vmEnd ≤ n)
    (hinV : At (if n = x then !s.inVmas else s.inVmas) n R') {iter : Option Nat}
    (hiter : iter = R'.head?.map VmArea.id) :
    ∃ P', Placed ops fresh allVmas L' R' P' (if n = y then rest s.inSsVmas Q else Q)
      { vm
        vmaIter := iter
        ssVmaIter := if n = y then rest s.inSsVmas Q else Q
        cursor := n
        inVmas := if n = x then !s.inVmas else s.inVmas
        inSsVmas := if n = y then !s.inSsVmas else s.inSsVmas } ∧
      (n = y → s.inSsVmas = true → ∃ v ∈ P', v.vmEnd = n) := by
  obtain ⟨-, -, hy⟩ := h.next_lt hS hne e
  have hny : n ≤ y := e.next ▸ min_le_right _ _
  -- The snapshot VMAs that fall behind.
  obtain ⟨P', hsplit, hPbelow, hPlast⟩ : ∃ P', allVmas = P' ++ (if n = y then rest s.inSsVmas Q else Q) ∧
      (∀ v ∈ P', v.vmEnd ≤ n) ∧ (n = y → s.inSsVmas = true → ∃ v ∈ P', v.vmEnd = n) := by
    have hold : ∀ v ∈ P, v.vmEnd ≤ n := fun v hv => le_trans (h.ssBelow v hv) hcn
    by_cases hend : n = y ∧ s.inSsVmas = true
    · obtain ⟨hend, hin⟩ := hend
      cases hq : Q with
      | nil => exact absurd hq (hy hend)
      | cons q Q' =>
        have hqn : q.vmEnd = n := by
          rw [hend, e.ssVma, hin, hq]
          rfl
        refine ⟨P ++ [q], ?_, fun v hv => ?_, fun _ _ => ⟨q, by simp, hqn⟩⟩
        · rw [if_pos hend, hin, h.split, hq]
          simp [rest]
        · rcases List.mem_append.mp hv with hv | hv
          · exact hold v hv
          · rw [List.mem_singleton.mp hv, hqn]
    · refine ⟨P, ?_, hold, fun h1 h2 => absurd ⟨h1, h2⟩ hend⟩
      have hrest : (if n = y then rest s.inSsVmas Q else Q) = Q := by
        split
        · rename_i hny'
          have hfalse : s.inSsVmas = false := by simpa using fun h2 => hend ⟨hny', h2⟩
          rw [hfalse]
          rfl
        · rfl
      rw [hrest]
      exact h.split
  have hmove := h.inS.move (h.orderedS hS) hcn (e.ssVma ▸ hny) (e.ssVma ▸ hy)
  rw [← e.ssVma] at hmove
  exact ⟨P', ⟨hlist, hok, hiter, rfl, hsplit, h.next_dvd hS hne e, hbelow, hPbelow, hinV, hmove⟩, hPlast⟩

/-- The invariant after a round that left what is ahead of the next cursor as it was. -/
theorem Swept.next (h : Swept ops fresh J vmas allVmas L R P Q s) (hS : SnapshotVmasOk allVmas)
    (hne : R ≠ [] ∨ Q ≠ []) (e : Ends s R Q x y n) (hcn : s.cursor ≤ n) {vm : σ}
    (hlist : ops.vmas vm = L' ++ if n = x then rest s.inVmas R else R)
    (hok : VmasOk (fresh vm) (L' ++ if n = x then rest s.inVmas R else R)) (hbelow : ∀ v ∈ L', v.vmEnd ≤ n)
    (hdone : ∀ a < n, Covers (L' ++ if n = x then rest s.inVmas R else R) a ↔ Target vmas allVmas a)
    (hinv : J vm) {iter : Option Nat} (hiter : iter = (if n = x then rest s.inVmas R else R).head?.map VmArea.id) :
    ∃ P', Swept ops fresh J vmas allVmas L' (if n = x then rest s.inVmas R else R) P'
      (if n = y then rest s.inSsVmas Q else Q)
      { vm
        vmaIter := iter
        ssVmaIter := if n = y then rest s.inSsVmas Q else Q
        cursor := n
        inVmas := if n = x then !s.inVmas else s.inVmas
        inSsVmas := if n = y then !s.inSsVmas else s.inSsVmas } := by
  obtain ⟨P', hplaced, hPlast⟩ := h.placed.next hS hne e hcn hlist hok hbelow (h.placed.inV_next hS hne e hcn) hiter
  refine ⟨P', ?_⟩
  refine {
    list := hlist
    ok := hok
    iter := hiter
    ssIter := rfl
    split := hplaced.split
    dvd := hplaced.dvd
    below := hbelow
    ssBelow := hplaced.ssBelow
    inV := hplaced.inV
    inS := hplaced.inS
    origin := ?_
    lower := ?_
    done := hdone
    inv := hinv }
  · show Origin vmas allVmas n _
    split
    · rename_i hnx'
      exact h.origin.next hcn (hnx'.trans e.vma)
    · exact h.origin.mono hcn
  · intro hin hout v hv hvn
    have hout : (if n = y then !s.inSsVmas else s.inSsVmas) = false := hout
    have hin : (if n = x then !s.inVmas else s.inVmas) = true := hin
    have hvn : v.vmStart < n := hvn
    by_cases hend : n = y
    · rw [if_pos hend] at hout
      exact hPlast hend (by simpa using hout)
    · -- The next end is that of a VMA, which the cursor has just entered.
      have hnx' : n = x := e.choice.resolve_right hend
      rw [if_pos hnx'] at hin hv
      have hfalse : s.inVmas = false := by simpa using hin
      rw [hfalse] at hv
      have hv : R.head? = some v := hv
      obtain ⟨R', rfl⟩ := List.head?_eq_some_iff.mp hv
      have hstart : n = v.vmStart := by
        rw [hnx', e.vma, hfalse]
        rfl
      omega

/-! ### One round -/

theorem endsOf_rest {α : Type} {l : List α} (inside : Bool) (hne : l ≠ []) :
    endsOf (rest inside l) (!inside) < endsOf l inside := by
  cases l with
  | nil => exact absurd rfl hne
  | cons v l =>
    cases inside with
    | false => simp [endsOf, rest]
    | true =>
      simp only [endsOf, rest, ↓reduceIte, List.tail_cons, List.length_cons, Bool.not_true, Bool.toNat_false,
        Bool.toNat_true]
      omega

theorem endsOf_next {α : Type} {l : List α} {inside : Bool} (hl : n = x → l ≠ []) :
    endsOf (if n = x then rest inside l else l) (if n = x then !inside else inside) ≤ endsOf l inside ∧
      (n = x → endsOf (if n = x then rest inside l else l) (if n = x then !inside else inside) < endsOf l inside) := by
  by_cases hx : n = x
  · have hless := endsOf_rest inside (hl hx)
    rw [if_pos hx, if_pos hx]
    exact ⟨hless.le, fun _ => hless⟩
  · rw [if_neg hx, if_neg hx]
    exact ⟨le_rfl, fun h => absurd h hx⟩

/-- A cursor that has come to an end has fewer ends ahead. -/
theorem endsAhead_next {inVmas inSsVmas : Bool} (hp : n = x → R ≠ []) (hq : n = y → Q ≠ []) (hpq : n = x ∨ n = y) :
    endsAhead (if n = x then rest inVmas R else R) (if n = y then rest inSsVmas Q else Q)
      (if n = x then !inVmas else inVmas) (if n = y then !inSsVmas else inSsVmas) < endsAhead R Q inVmas inSsVmas := by
  obtain ⟨hR, hR'⟩ := @endsOf_next x n VmArea R inVmas hp
  obtain ⟨hQ, hQ'⟩ := @endsOf_next y n SnapshotVma Q inSsVmas hq
  unfold endsAhead
  rcases hpq with hx | hy
  · exact Nat.add_lt_add_of_lt_of_le (hR' hx) hQ
  · exact Nat.add_lt_add_of_le_of_lt hR (hQ' hy)

section
variable (h : Placed ops fresh allVmas L R P Q s) (e : Ends s R Q x y n)
include h e

theorem Placed.covers_region (hca : s.cursor ≤ a) (han : a < n) : Covers (L ++ R) a ↔ s.inVmas = true := by
  rw [covers_append_of_le h.below hca]
  exact h.inV.covers_iff h.orderedV hca (lt_of_lt_of_le han (e.vma ▸ e.next ▸ min_le_left _ _))

theorem Placed.covers_ssVmas (hS : SnapshotVmasOk allVmas) (hca : s.cursor ≤ a) (han : a < n) :
    Covers allVmas a ↔ s.inSsVmas = true := by
  rw [h.coversS hca]
  exact h.inS.covers_iff (h.orderedS hS) hca (lt_of_lt_of_le han (e.ssVma ▸ e.next ▸ min_le_right _ _))

end

section
variable {v : VmArea} {R₁ : List VmArea}

theorem Placed.at_vma (h : Placed ops fresh allVmas L (v :: R₁) P Q s) (hin : s.inVmas = true) :
    v.vmStart ≤ s.cursor ∧ s.cursor < v.vmEnd := by
  have hat := h.inV
  rw [hin] at hat
  exact hat

theorem Ends.vma_eq (e : Ends s (v :: R₁) Q x y n) (hin : s.inVmas = true) : x = v.vmEnd := by
  rw [e.vma, hin]
  rfl

theorem Ends.le_vma (e : Ends s (v :: R₁) Q x y n) (hin : s.inVmas = true) : n ≤ v.vmEnd :=
  e.vma_eq hin ▸ e.next ▸ min_le_left _ _

/-- Unmapping in the VMA that the cursor is in touches no other one. -/
theorem Placed.unmapVmas_eq (h : Placed ops fresh allVmas L (v :: R₁) P Q s) (hn : n ≤ v.vmEnd) (f : Nat) :
    unmapVmas s.cursor n f (L ++ v :: R₁) = L ++ (unmapVma s.cursor n f v ++ R₁) := by
  have hL : unmapVmas s.cursor n f L = L := unmapVmas_of_disjoint fun w hw => Or.inl (h.below w hw)
  have hR : unmapVmas s.cursor n f R₁ = R₁ := unmapVmas_of_disjoint fun w hw => Or.inr (le_trans hn (h.orderedV.head_le hw))
  rw [unmapVmas_append, hL]
  exact congrArg (L ++ ·) (congrArg (_ ++ ·) hR)

end

section
variable (h : Swept ops fresh J vmas allVmas L R P Q s) (hS : SnapshotVmasOk allVmas) (e : Ends s R Q x y n)
include h e

theorem Swept.covers_vmas (hca : s.cursor ≤ a) (han : a < n) : Covers vmas a ↔ s.inVmas = true := by
  rw [h.origin.covers hca, ← covers_append_of_le h.below hca]
  exact h.placed.covers_region e hca han

include hS in
/-- In a snapshot VMA everything is mapped in the end that is mapped now or can be restored. -/
theorem Swept.target_in {q : SnapshotVma} {Q' : List SnapshotVma} (hq : Q = q :: Q') (hin : s.inSsVmas = true)
    (hca : s.cursor ≤ a) (han : a < n) :
    Target vmas allVmas a ↔ s.inVmas = true ∨ q.isAnonymousPrivate = true := by
  have hy : n ≤ y := e.next ▸ min_le_right _ _
  have hat : q.vmStart ≤ s.cursor ∧ s.cursor < q.vmEnd := by
    have := h.inS
    rw [hq, hin] at this
    exact this
  have hqa : In a q := by
    refine ⟨le_trans hat.1 hca, lt_of_lt_of_le han (le_trans hy (le_of_eq ?_))⟩
    rw [e.ssVma, hq, hin]
    rfl
  have hqS : q ∈ allVmas := by
    rw [h.split, hq]
    simp
  have hcov : Covers allVmas a := ⟨q, hqS, hqa⟩
  rw [← h.covers_vmas e hca han]
  constructor
  · rintro (⟨z, hz, hza, hmapped⟩ | hgap)
    · rwa [hS.ordered.eq_of_in hz hqS hza hqa] at hmapped
    · exact absurd hcov hgap.not_covers
  · exact fun hmapped => Or.inl ⟨q, hqS, hqa, hmapped⟩

include hS in
/-- Outside the snapshot VMAs only a gap that is mapped again is mapped in the end. -/
theorem Swept.target_out (hout : s.inSsVmas = false) (hca : s.cursor ≤ a) (han : a < n) :
    Target vmas allVmas a ↔ RefilledGap vmas allVmas a := by
  have hno : ¬Covers allVmas a := by
    rw [h.placed.covers_ssVmas e hS hca han, hout]
    simp
  exact or_iff_right fun ⟨z, hz, hza, _⟩ => hno ⟨z, hz, hza⟩

end
/-- In at most three rounds the loop is at the next end where the invariant holds. -/
def Advances (ops : VmOps σ) (fresh : σ → Nat) (J : σ → Prop) (vmas : List VmArea) (allVmas : List SnapshotVma)
    (R : List VmArea) (Q : List SnapshotVma) (s : SweepState σ) : Prop :=
  ∃ k L' R' P' Q' s', k ≤ 3 ∧ (∀ m, sweep ops (m + k) s = sweep ops m s') ∧
    Swept ops fresh J vmas allVmas L' R' P' Q' s' ∧ s'.cursor ≤ ulongMax ∧
    endsAhead R' Q' s'.inVmas s'.inSsVmas < endsAhead R Q s.inVmas s.inSsVmas

section
variable (h : Swept ops fresh J vmas allVmas L R P Q s) (hS : SnapshotVmasOk allVmas) (e : Ends s R Q x y n)
  (hne : R ≠ [] ∨ Q ≠ []) (hcn : s.cursor ≤ n)
include h hS e hne hcn

/-- A round after whose call the list is as `Swept.next` wants it. -/
theorem Swept.advances_one {vm : σ} (hregion : sweepRegion ops s n = (vm, none))
    (hlist : ops.vmas vm = L' ++ if n = x then rest s.inVmas R else R)
    (hok : VmasOk (fresh vm) (L' ++ if n = x then rest s.inVmas R else R)) (hbelow : ∀ v ∈ L', v.vmEnd ≤ n)
    (hdone : ∀ a < n, Covers (L' ++ if n = x then rest s.inVmas R else R) a ↔ Target vmas allVmas a)
    (hinv : J vm) : Advances ops fresh J vmas allVmas R Q s := by
  obtain ⟨hlt, hx, hy⟩ := h.placed.next_lt hS hne e
  have hiter : (if n = x ∧ s.inVmas then R.tail.head?.map VmArea.id else R.head?.map VmArea.id) =
      (if n = x then rest s.inVmas R else R).head?.map VmArea.id := by
    by_cases hnx : n = x
    · cases hin : s.inVmas <;> simp [hnx, rest]
    · simp [hnx]
  obtain ⟨P', hnext⟩ := h.next hS hne e hcn hlist hok hbelow hdone hinv hiter
  refine ⟨1, _, _, _, _, _, by omega, fun m => ?_, hnext, hlt.le, ?_⟩
  · rw [sweep, h.placed.step_eq hne e, hregion]
  · exact endsAhead_next hx hy e.choice

/-- A round without a call. -/
theorem Swept.advances_quiet (hregion : sweepRegion ops s n = (s.vm, none))
    (hdone : ∀ a, s.cursor ≤ a → a < n → (Covers (L ++ R) a ↔ Target vmas allVmas a)) :
    Advances ops fresh J vmas allVmas R Q s := by
  -- The first VMA ahead falls behind if the cursor has come to its end.
  obtain ⟨L', hlist, hbelow⟩ : ∃ L', L ++ R = (L' ++ if n = x then rest s.inVmas R else R) ∧
      ∀ v ∈ L', v.vmEnd ≤ n := by
    have hold : ∀ v ∈ L, v.vmEnd ≤ n := fun v hv => le_trans (h.below v hv) hcn
    by_cases hnx : n = x
    · rw [if_pos hnx]
      cases hin : s.inVmas with
      | false => exact ⟨L, rfl, hold⟩
      | true =>
        cases hR : R with
        | nil => exact ⟨L, rfl, hold⟩
        | cons v R' =>
          refine ⟨L ++ [v], by simp [rest], fun w hw => ?_⟩
          rcases List.mem_append.mp hw with hw | hw
          · exact hold w hw
          · rw [List.mem_singleton.mp hw, hnx, e.vma, hin, hR]
            exact le_rfl
    · rw [if_neg hnx]
      exact ⟨L, rfl, hold⟩
  refine h.advances_one hS e hne hcn hregion (h.list.trans hlist) (hlist ▸ h.ok) hbelow (fun a ha => ?_) h.inv
  rw [← hlist]
  rcases Nat.lt_or_ge a s.cursor with hac | hac
  · exact h.done a hac
  · exact hdone a hac ha

/-- The hole below the cursor's next end, in an anonymous private snapshot VMA, is mapped. -/
theorem Swept.advances_mmap (hlaws : VmLaws ops fresh J vmas allVmas) {q : SnapshotVma} {Q' : List SnapshotVma}
    (hq : Q = q :: Q') (hout : s.inVmas = false) (hin : s.inSsVmas = true) (hanon : q.isAnonymousPrivate = true)
    (hlt : s.cursor < n) : Advances ops fresh J vmas allVmas R Q s := by
  have hnd := h.placed.next_dvd hS hne e
  have hntop := (h.placed.next_lt hS hne e).1
  have hqS : q ∈ allVmas := by
    rw [h.split, hq]
    simp
  have hat : q.vmStart ≤ s.cursor ∧ s.cursor < q.vmEnd := by
    have := h.inS
    rw [hq, hin] at this
    exact this
  have hny : n ≤ q.vmEnd := by
    have hy : y = q.vmEnd := by
      rw [e.ssVma, hq, hin]
      rfl
    exact hy ▸ e.next ▸ min_le_right _ _
  have hfree : ∀ z, s.cursor ≤ z → z < n → ¬Covers (ops.vmas s.vm) z := fun z hz1 hz2 => by
    rw [h.list, h.placed.covers_region e hz1 hz2, hout]
    simp
  obtain ⟨hres, hJ, ⟨g, hgid, hgs, hge, hglist⟩, hfresh⟩ := hlaws.mmap s.vm s.cursor n q h.inv h.dvd hnd hlt hqS hanon
    fun z hz1 hz2 => ⟨hfree z hz1 hz2, Or.inl ⟨le_trans hat.1 hz1, lt_of_lt_of_le hz2 hny⟩⟩
  have hR : ∀ w ∈ R, n ≤ w.vmStart := fun w hw => by
    have hx : x ≤ w.vmStart := by
      rw [e.vma, hout]
      exact nextPos_le_lo h.placed.orderedV hw
    exact le_trans (e.next ▸ min_le_left _ _) hx
  have hinsert : insertVma g (L ++ R) = (L ++ [g]) ++ R := by
    rw [insertVma_append (fun w hw => ?_) fun w hw => hge ▸ hR w hw, List.append_assoc]
    · rfl
    · have hpos : w.vmStart < w.vmEnd := h.ok.ordered.pos w (List.mem_append_left _ hw)
      have := h.below w hw
      omega
  have hrest : (if n = x then rest s.inVmas R else R) = R := by
    rw [hout]
    split <;> rfl
  have hregion : sweepRegion ops s n = ((ops.mmap s.cursor (n - s.cursor) q.prot s.vm).1, none) := by
    simp [sweepRegion, hlt.ne', hout, hin, h.ssIter, hq, hanon, hres]
  have hlist : ops.vmas (ops.mmap s.cursor (n - s.cursor) q.prot s.vm).1 =
      (L ++ [g]) ++ if n = x then rest s.inVmas R else R := by
    rw [hglist, h.list, hinsert, hrest]
  refine h.advances_one hS e hne hcn hregion hlist ?_ (fun w hw => ?_) (fun a ha => ?_) hJ
  · rw [hrest, ← hinsert, hfresh]
    refine h.ok.insert (hgs ▸ h.dvd) (hge ▸ hnd) (by omega) (hge ▸ hntop) hgid fun z hz1 hz2 => ?_
    rw [← h.list]
    exact hfree z (hgs ▸ hz1) (hge ▸ hz2)
  · rcases List.mem_append.mp hw with hw | hw
    · exact le_trans (h.below w hw) hcn
    · rw [List.mem_singleton.mp hw, hge]
  · rw [hrest, ← hinsert, covers_insertVma]
    have hg : In a g ↔ s.cursor ≤ a ∧ a < n := by
      show g.vmStart ≤ a ∧ a < g.vmEnd ↔ _
      rw [hgs, hge]
    rcases Nat.lt_or_ge a s.cursor with hac | hac
    · rw [hg, ← h.done a hac]
      refine or_iff_right ?_
      omega
    · rw [hg, h.target_in hS e hq hin hac ha]
      exact iff_of_true (Or.inl ⟨hac, ha⟩) (Or.inr hanon)

end

/-! ### Unmapping -/

section
variable {vm vm' : σ} {lower upper : VmArea} {l₁ l₂ : List VmArea} {q : SnapshotVma} {Q' : List SnapshotVma} {m : Nat}

/-- After the VMA was cut in two the loop goes back to the end of the lower part. -/
theorem sweepStep_back (hlist : ops.vmas vm = l₁ ++ lower :: upper :: l₂)
    (hids : (l₁ ++ lower :: upper :: l₂).Pairwise fun v w => v.id ≠ w.id) (h1 : lower.vmEnd < upper.vmStart)
    (h2 : upper.vmStart < q.vmEnd) : sweepStep ops ⟨vm, some lower.id, q :: Q', upper.vmStart, true, true⟩ =
      .next ⟨vm, some upper.id, q :: Q', lower.vmEnd, false, true⟩ := by
  have hlow : lookupVma (ops.vmas vm) lower.id = some (lower, some upper.id) := by
    rw [hlist]
    exact lookupVma_append hids
  have hnext : min lower.vmEnd (Ranged.hi q) = lower.vmEnd := min_eq_left (le_trans h1.le h2.le)
  have hne : lower.vmEnd ≠ Ranged.hi q := (lt_trans h1 h2).ne
  simp only [sweepStep, reduceCtorEq, and_false, ↓reduceIte, Option.map_some, hlow, Option.join_some,
    Option.bind_some, nextPos, hnext, hne, sweepRegion, Bool.not_true, Bool.false_eq_true, false_and, and_self]

/-- From there it goes to the start of the upper part. -/
theorem sweepStep_forth (hlist : ops.vmas vm = l₁ ++ lower :: upper :: l₂)
    (hids : (l₁ ++ lower :: upper :: l₂).Pairwise fun v w => v.id ≠ w.id) (h2 : upper.vmStart < q.vmEnd) :
    sweepStep ops ⟨vm, some upper.id, q :: Q', lower.vmEnd, false, true⟩ =
      match sweepRegion ops ⟨vm, some upper.id, q :: Q', lower.vmEnd, false, true⟩ upper.vmStart with
      | (vm, some res) => .ret vm res
      | (vm, none) => .next ⟨vm, some upper.id, q :: Q', upper.vmStart, true, true⟩ := by
  have hup : lookupVma (ops.vmas vm) upper.id = some (upper, l₂.head?.map VmArea.id) := by
    rw [hlist, show l₁ ++ lower :: upper :: l₂ = (l₁ ++ [lower]) ++ upper :: l₂ by simp]
    exact lookupVma_append (by simpa using hids)
  have hnext : min upper.vmStart (Ranged.hi q) = upper.vmStart := min_eq_left h2.le
  have hne : upper.vmStart ≠ Ranged.hi q := h2.ne
  generalize hregion : sweepRegion ops ⟨vm, some upper.id, q :: Q', lower.vmEnd, false, true⟩ upper.vmStart = r
  obtain ⟨vm', res⟩ := r
  cases res <;> simp [sweepStep, hup, nextPos, hnext, hne, hregion]

theorem sweep_back (hlist : ops.vmas vm = l₁ ++ lower :: upper :: l₂)
    (hids : (l₁ ++ lower :: upper :: l₂).Pairwise fun v w => v.id ≠ w.id) (h1 : lower.vmEnd < upper.vmStart)
    (h2 : upper.vmStart < q.vmEnd)
    (hregion : sweepRegion ops ⟨vm, some upper.id, q :: Q', lower.vmEnd, false, true⟩ upper.vmStart = (vm', none)) :
    sweep ops (m + 2) ⟨vm, some lower.id, q :: Q', upper.vmStart, true, true⟩ =
      sweep ops m ⟨vm', some upper.id, q :: Q', upper.vmStart, true, true⟩ := by
  rw [show m + 2 = (m + 1) + 1 from rfl, sweep, sweepStep_back hlist hids h1 h2]
  show sweep ops (m + 1) _ = _
  rw [sweep, sweepStep_forth hlist hids h2, hregion]

end

section
variable {v : VmArea} {R₁ : List VmArea} (h : Swept ops fresh J vmas allVmas L (v :: R₁) P Q s)
  (hV : Ordered vmas) (hS : SnapshotVmasOk allVmas) (e : Ends s (v :: R₁) Q x y n)
  (hin : s.inVmas = true) (hout : s.inSsVmas = false) (hlt : s.cursor < n)
include h

/-- The VMA that the cursor is in, as it was at the start. -/
theorem Swept.original : ∃ L₀ v₀, vmas = L₀ ++ v₀ :: R₁ ∧ (∀ w ∈ L₀, w.vmEnd ≤ s.cursor) ∧ v.vmEnd = v₀.vmEnd ∧
    v₀.vmStart ≤ v.vmStart ∧ (v.vmStart = v₀.vmStart ∨ ∃ z ∈ allVmas, v.vmStart = z.vmStart) := by
  obtain ⟨L₀, R₀, hvmas, hL, hR⟩ := h.origin
  rcases hR with rfl | ⟨v₀, v', R', rfl, h2, h3, h4, -, h6⟩
  · exact ⟨L₀, v, hvmas, hL, rfl, le_rfl, Or.inl rfl⟩
  · obtain ⟨rfl, rfl⟩ := List.cons.inj h2
    exact ⟨L₀, v₀, hvmas, hL, h3, h4, Or.inr h6⟩

include hV hS e hin hout in
/-- A gap around the cursor that is mapped again: it starts at or below the cursor, and the VMA reaches beyond
    both its ends. -/
theorem Swept.refilledGap_inv (hca : s.cursor ≤ a) (han : a < n) (hgap : RefilledGap vmas allVmas a) :
    ∃ prev next : SnapshotVma, prev.vmEnd ≤ s.cursor ∧ next ∈ Q ∧ y ≤ next.vmStart ∧ next.vmStart < v.vmEnd ∧
      v.vmStart < prev.vmEnd ∧ next.isAnonymousPrivate = true ∧
      ∀ z ∈ allVmas, z.vmEnd ≤ prev.vmEnd ∨ next.vmStart ≤ z.vmStart := by
  obtain ⟨L₀, v₀, hvmas, -, hend, hstart, horigin⟩ := h.original
  obtain ⟨w, hw, prev, hprev, next, hnext, hbetween, hanon, h1, h2, h3, h4⟩ := hgap
  have hat := h.placed.at_vma hin
  have hnx := e.le_vma hin
  have hny : n ≤ y := e.next ▸ min_le_right _ _
  have hy : y = nextPos ulongMax false Q := by rw [e.ssVma, hout]
  obtain rfl : w = v₀ := by
    refine hV.eq_of_in hw (by simp [hvmas]) ⟨by show w.vmStart ≤ a; omega, by show a < w.vmEnd; omega⟩ ⟨?_, ?_⟩
    · show v₀.vmStart ≤ a
      omega
    · show a < v₀.vmEnd
      omega
  have hQ : ∀ z ∈ Q, y ≤ z.vmStart := fun z hz => hy ▸ nextPos_le_lo (h.placed.orderedS hS) hz
  have hnextQ : next ∈ Q := by
    rcases List.mem_append.mp (h.split ▸ hnext) with hP | hQ
    · have := h.ssBelow next hP
      have : next.vmStart < next.vmEnd := hS.ordered.pos next hnext
      omega
    · exact hQ
  have hprevc : prev.vmEnd ≤ s.cursor := by
    rcases List.mem_append.mp (h.split ▸ hprev) with hP | hQ'
    · exact h.ssBelow prev hP
    · have := hQ prev hQ'
      have : prev.vmStart < prev.vmEnd := hS.ordered.pos prev hprev
      omega
  refine ⟨prev, next, hprevc, hnextQ, hQ next hnextQ, hend ▸ h2, ?_, hanon, hbetween⟩
  -- What the VMA has lost lay before a snapshot VMA, which cannot be above the gap.
  rcases horigin with heq | ⟨z, hz, hzeq⟩
  · rw [heq]
    exact h1
  · have hpos : z.vmStart < z.vmEnd := hS.ordered.pos z hz
    rcases hbetween z hz with hb | hb <;> omega

/-- The call of `vm_munmap` and what is left of the VMA. -/
theorem Swept.munmap (hlaws : VmLaws ops fresh J vmas allVmas) (hS : SnapshotVmasOk allVmas)
    (e : Ends s (v :: R₁) Q x y n) (hin : s.inVmas = true) (hout : s.inSsVmas = false) (hlt : s.cursor < n) :
    ∃ vm, sweepRegion ops s n = (vm, none) ∧ J vm ∧ fresh vm = fresh s.vm + 1 ∧
      ops.vmas vm = L ++ (unmapVma s.cursor n (fresh s.vm) v ++ R₁) ∧
      VmasOk (fresh s.vm + 1) (L ++ (unmapVma s.cursor n (fresh s.vm) v ++ R₁)) ∧
      ∀ a, Covers (L ++ (unmapVma s.cursor n (fresh s.vm) v ++ R₁)) a ↔
        Covers (L ++ v :: R₁) a ∧ ¬(s.cursor ≤ a ∧ a < n) := by
  have hnd := h.placed.next_dvd hS (Or.inl (List.cons_ne_nil _ _)) e
  obtain ⟨hres, hJ, hlist, hfresh⟩ := hlaws.munmap s.vm s.cursor n h.inv h.dvd hnd hlt fun z hz1 hz2 => by
    rw [h.list, h.placed.covers_region e hz1 hz2, h.placed.covers_ssVmas e hS hz1 hz2, hin, hout]
    simp
  have hparts := h.placed.unmapVmas_eq (e.le_vma hin) (fresh s.vm)
  refine ⟨_, ?_, hJ, hfresh, ?_, ?_, fun a => ?_⟩
  · simp [sweepRegion, hlt.ne', hin, hout, hres]
  · rw [hlist, h.list, hparts]
  · rw [← hparts]
    exact h.ok.unmap h.dvd hnd hlt
  · rw [← hparts]
    exact covers_unmapVmas hlt

/-- What is unmapped stays so unless the gap is refilled. -/
theorem Swept.done_unmapped {l : List VmArea}
    (hl : ∀ a, Covers l a ↔ Covers (L ++ v :: R₁) a ∧ ¬(s.cursor ≤ a ∧ a < n)) (hS : SnapshotVmasOk allVmas)
    (e : Ends s (v :: R₁) Q x y n) (hout : s.inSsVmas = false)
    (hno : ∀ a, s.cursor ≤ a → a < n → ¬RefilledGap vmas allVmas a) :
    ∀ a < n, Covers l a ↔ Target vmas allVmas a := fun a ha => by
  rw [hl]
  rcases Nat.lt_or_ge a s.cursor with hac | hac
  · rw [← h.done a hac]
    exact and_iff_left (by omega)
  · rw [h.target_out hS e hout hac ha]
    exact iff_of_false (fun hc => hc.2 ⟨hac, ha⟩) (hno a hac ha)

/-- The VMA is unmapped up to its end. -/
theorem Swept.advances_end (hlaws : VmLaws ops fresh J vmas allVmas) (hV : Ordered vmas)
    (hS : SnapshotVmasOk allVmas) (e : Ends s (v :: R₁) Q x y n) (hin : s.inVmas = true)
    (hout : s.inSsVmas = false) (hlt : s.cursor < n) (hnx : n = x) :
    Advances ops fresh J vmas allVmas (v :: R₁) Q s := by
  obtain ⟨vm, hregion, hJ, hfresh, hlist, hok, hcovers⟩ := h.munmap hlaws hS e hin hout hlt
  have hend : n = v.vmEnd := hnx.trans (e.vma_eq hin)
  have hrest : (if n = x then rest s.inVmas (v :: R₁) else v :: R₁) = R₁ := by
    rw [if_pos hnx, hin]
    rfl
  rw [← List.append_assoc] at hlist hok hcovers
  refine h.advances_one hS e (Or.inl (List.cons_ne_nil _ _)) hlt.le hregion (by rw [hrest]; exact hlist)
    (by rw [hrest, hfresh]; exact hok) (fun w hw => ?_) ?_ hJ
  · rcases List.mem_append.mp hw with hw | hw
    · exact le_trans (h.below w hw) hlt.le
    · rw [hend]
      exact (unmapVma_within (h.placed.orderedV.pos v List.mem_cons_self) hw).2.2.1
  · rw [hrest]
    refine h.done_unmapped hcovers hS e hout fun a hca han hgap => ?_
    obtain ⟨prev, next, -, -, h1, h2, -⟩ := h.refilledGap_inv hV hS e hin hout hca han hgap
    have hny : n ≤ y := e.next ▸ min_le_right _ _
    omega

/-- The VMA loses what lies before a snapshot VMA. -/
theorem Swept.advances_trim (hlaws : VmLaws ops fresh J vmas allVmas) (hV : Ordered vmas)
    (hS : SnapshotVmasOk allVmas) (e : Ends s (v :: R₁) Q x y n) (hin : s.inVmas = true)
    (hout : s.inSsVmas = false) (hlt : s.cursor < n) (hnx : n ≠ x) (hstart : v.vmStart = s.cursor) :
    Advances ops fresh J vmas allVmas (v :: R₁) Q s := by
  have hne : v :: R₁ ≠ [] ∨ Q ≠ [] := Or.inl (List.cons_ne_nil _ _)
  obtain ⟨vm, hregion, hJ, hfresh, hlist, hok, hcovers⟩ := h.munmap hlaws hS e hin hout hlt
  obtain ⟨hntop, -, hyQ⟩ := h.placed.next_lt hS hne e
  have hat := h.placed.at_vma hin
  have hnv : n < v.vmEnd := lt_of_le_of_ne (e.le_vma hin) (e.vma_eq hin ▸ hnx)
  have hny : n = y := e.choice.resolve_left hnx
  have hpart : unmapVma s.cursor n (fresh s.vm) v = [{ v with vmStart := n }] := by
    rw [unmapVma, if_neg (by omega), if_neg (by omega), if_pos hnv]
  rw [hpart] at hlist hok hcovers
  obtain ⟨L₀, v₀, hvmas, hL₀, hvend, hvstart, -⟩ := h.original
  have hsame : (if n = y then rest s.inSsVmas Q else Q) = Q := by
    rw [hout]
    split <;> rfl
  have hinS : At true n Q := by
    have hmove := h.inS.move (h.placed.orderedS hS) hlt.le (e.ssVma ▸ hny.le) (fun heq => hyQ (heq.trans e.ssVma.symm))
    rw [← e.ssVma, hsame, if_pos hny, hout] at hmove
    exact hmove
  refine ⟨1, L, { v with vmStart := n } :: R₁, P, Q, ⟨vm, some v.id, Q, n, true, true⟩, by omega, fun m => ?_,
    { list := hlist
      ok := hfresh ▸ hok
      iter := rfl
      ssIter := rfl
      split := h.split
      dvd := h.placed.next_dvd hS hne e
      below := fun w hw => le_trans (h.below w hw) hlt.le
      ssBelow := fun z hz => le_trans (h.ssBelow z hz) hlt.le
      inV := ⟨le_rfl, hnv⟩
      inS := hinS
      origin := ?_
      lower := fun _ hfalse => absurd hfalse (by simp)
      done := ?_
      inv := hJ }, hntop.le, ?_⟩
  · rw [sweep, h.placed.step_eq hne e, hregion]
    simp only [hnx, false_and, ↓reduceIte, hin, hout, ← hny]
    rfl
  · cases hq : Q with
    | nil => exact absurd hq (hyQ hny)
    | cons q Q' =>
      have hqstart : n = q.vmStart := by
        rw [hny, e.ssVma, hout, hq]
        rfl
      refine ⟨L₀, v₀ :: R₁, hvmas, fun w hw => le_trans (hL₀ w hw) hlt.le,
        Or.inr ⟨v₀, _, R₁, rfl, rfl, hvend, ?_, le_rfl, q, by rw [h.split, hq]; simp, hqstart⟩⟩
      show v₀.vmStart ≤ n
      omega
  · refine h.done_unmapped hcovers hS e hout fun a hca han hgap => ?_
    obtain ⟨prev, next, h1, -, -, -, h2, -⟩ := h.refilledGap_inv hV hS e hin hout hca han hgap
    omega
  · have hQ : Q ≠ [] := hyQ hny
    have hlen : 0 < Q.length := List.length_pos_iff.mpr hQ
    simp only [endsAhead, endsOf, List.length_cons, hin, hout, Bool.toNat_true, Bool.toNat_false]
    omega

/-- Where the VMA is cut in two, the gap is mapped again if the next snapshot VMA is anonymous and private. -/
theorem Swept.refilledGap_iff (hV : Ordered vmas) (hS : SnapshotVmasOk allVmas) {q : SnapshotVma}
    {Q' : List SnapshotVma} (hq : Q = q :: Q') (e : Ends s (v :: R₁) Q x y n) (hin : s.inVmas = true)
    (hout : s.inSsVmas = false) (hny : n = q.vmStart) (hnv : n < v.vmEnd) (hstart : v.vmStart < s.cursor)
    (hca : s.cursor ≤ a) (han : a < n) : RefilledGap vmas allVmas a ↔ q.isAnonymousPrivate = true := by
  have hqS : q ∈ allVmas := by
    rw [h.split, hq]
    simp
  have hqpos : q.vmStart < q.vmEnd := hS.ordered.pos q hqS
  constructor
  · intro hgap
    obtain ⟨prev, next, h1, h2, -, -, -, hanon, hbetween⟩ := h.refilledGap_inv hV hS e hin hout hca han hgap
    -- Nothing lies between the gap and the next snapshot VMA.
    have hle : next.vmStart ≤ q.vmStart := (hbetween q hqS).resolve_left (by omega)
    have hge : q.vmStart ≤ next.vmStart := by
      rcases List.mem_cons.mp (hq ▸ h2) with rfl | h2
      · exact le_rfl
      · exact le_trans hqpos.le ((hq ▸ h.placed.orderedS hS).head_le h2)
    have hnext : next ∈ allVmas := by
      rw [h.split]
      exact List.mem_append_right _ h2
    have hpos : next.vmStart < next.vmEnd := hS.ordered.pos next hnext
    obtain rfl : next = q := hS.ordered.eq_of_in hnext hqS ⟨hle, by show q.vmStart < next.vmEnd; omega⟩ ⟨le_rfl, hqpos⟩
    exact hanon
  · intro hanon
    obtain ⟨L₀, v₀, hvmas, -, hvend, hvstart, -⟩ := h.original
    obtain ⟨p, hp, hpend⟩ := h.lower hin hout v rfl hstart
    have hpS : p ∈ allVmas := by
      rw [h.split]
      exact List.mem_append_left _ hp
    refine ⟨v₀, by simp [hvmas], p, hpS, q, hqS, fun z hz => ?_, hanon, by omega, by omega, by omega, by omega⟩
    rcases List.mem_append.mp (h.split ▸ hz) with hz | hz
    · exact Or.inl (hpend ▸ h.ssBelow z hz)
    · rcases List.mem_cons.mp (hq ▸ hz) with rfl | hz
      · exact Or.inr le_rfl
      · exact Or.inr (le_trans hqpos.le ((hq ▸ h.placed.orderedS hS).head_le hz))

/-- The VMA is cut in two by a gap. -/
theorem Swept.advances_split (hlaws : VmLaws ops fresh J vmas allVmas) (hV : Ordered vmas)
    (hS : SnapshotVmasOk allVmas) (e : Ends s (v :: R₁) Q x y n) (hin : s.inVmas = true)
    (hout : s.inSsVmas = false) (hlt : s.cursor < n) (hnx : n ≠ x) (hstart : v.vmStart < s.cursor) :
    Advances ops fresh J vmas allVmas (v :: R₁) Q s := by
  have hne : v :: R₁ ≠ [] ∨ Q ≠ [] := Or.inl (List.cons_ne_nil _ _)
  obtain ⟨vm, hregion, hJ, hfresh, hlist, hok, hcovers⟩ := h.munmap hlaws hS e hin hout hlt
  obtain ⟨hntop, -, hyQ⟩ := h.placed.next_lt hS hne e
  have hnd := h.placed.next_dvd hS hne e
  have hnv : n < v.vmEnd := lt_of_le_of_ne (e.le_vma hin) (e.vma_eq hin ▸ hnx)
  have hny : n = y := e.choice.resolve_left hnx
  obtain ⟨q, Q', rfl⟩ := List.exists_cons_of_ne_nil (hyQ hny)
  have hqstart : n = q.vmStart := by
    rw [hny, e.ssVma, hout]
    rfl
  have hqS : q ∈ allVmas := by
    rw [h.split]
    simp
  have hqpos : q.vmStart < q.vmEnd := hS.ordered.pos q hqS
  have hgap : ∀ a, s.cursor ≤ a → a < n → (RefilledGap vmas allVmas a ↔ q.isAnonymousPrivate = true) :=
    fun a => h.refilledGap_iff hV hS rfl e hin hout hqstart hnv hstart
  let lower : VmArea := { v with vmEnd := s.cursor }
  let upper : VmArea := { v with id := fresh s.vm, vmStart := n }
  have hpart : unmapVma s.cursor n (fresh s.vm) v = [lower, upper] := by
    rw [unmapVma, if_neg (by omega), if_pos hstart, if_pos hnv]
  rw [hpart] at hlist hok hcovers
  have hlist : ops.vmas vm = L ++ lower :: upper :: R₁ := hlist
  have hfree : ∀ z, s.cursor ≤ z → z < n → ¬Covers (ops.vmas vm) z := fun z hz1 hz2 hc => by
    rw [hlist] at hc
    exact ((hcovers z).mp hc).2 ⟨hz1, hz2⟩
  -- The second round only moves back; the third comes to the gap again.
  obtain ⟨vm', L', hregion', hJ', hlist', hok', hbelow', hcovers'⟩ : ∃ vm' L',
      sweepRegion ops ⟨vm, some upper.id, q :: Q', lower.vmEnd, false, true⟩ upper.vmStart = (vm', none) ∧ J vm' ∧
      ops.vmas vm' = L' ++ upper :: R₁ ∧ VmasOk (fresh vm') (L' ++ upper :: R₁) ∧ (∀ w ∈ L', w.vmEnd ≤ n) ∧
      ∀ a, Covers (L' ++ upper :: R₁) a ↔
        Covers (L ++ v :: R₁) a ∧ (s.cursor ≤ a ∧ a < n → q.isAnonymousPrivate = true) := by
    have hlow : ∀ w ∈ L ++ [lower], w.vmEnd ≤ s.cursor := fun w hw => by
      rcases List.mem_append.mp hw with hw | hw
      · exact h.below w hw
      · rw [List.mem_singleton.mp hw]
    have hassoc : L ++ lower :: upper :: R₁ = (L ++ [lower]) ++ upper :: R₁ := by simp
    cases hanon : q.isAnonymousPrivate with
    | false =>
      refine ⟨vm, L ++ [lower], ?_, hJ, hlist.trans hassoc, ?_, fun w hw => le_trans (hlow w hw) hlt.le, fun a => ?_⟩
      · simp [sweepRegion, hanon]
      · rw [hfresh, ← hassoc]
        exact hok
      · rw [← hassoc]
        exact (hcovers a).trans (and_congr_right fun _ => by simp)
    | true =>
      have hwithin : ∀ z, s.cursor ≤ z → z < n → RefilledGap vmas allVmas z := fun z hz1 hz2 =>
        (hgap z hz1 hz2).mpr hanon
      obtain ⟨hres, hJg, ⟨g, hgid, hgs, hge, hglist⟩, hgfresh⟩ := hlaws.mmap vm s.cursor n q hJ h.dvd hnd hlt hqS hanon
        fun z hz1 hz2 => ⟨hfree z hz1 hz2, Or.inr (hwithin z hz1 hz2)⟩
      have hpos : ∀ w ∈ L ++ [lower], w.vmStart < g.vmEnd := fun w hw => by
        have h1 := hlow w hw
        have h2 : w.vmStart < w.vmEnd := hok.ordered.pos w (by
          rw [show L ++ ([lower, upper] ++ R₁) = (L ++ [lower]) ++ upper :: R₁ by simp]
          exact List.mem_append_left _ hw)
        omega
      have habove : ∀ w ∈ upper :: R₁, g.vmEnd ≤ w.vmStart := fun w hw => by
        rw [hge]
        rcases List.mem_cons.mp hw with rfl | hw
        · exact le_rfl
        · exact le_trans hnv.le (h.placed.orderedV.head_le hw)
      have hins : insertVma g (L ++ lower :: upper :: R₁) = (L ++ [lower] ++ [g]) ++ upper :: R₁ := by
        rw [hassoc, insertVma_append hpos habove, List.append_assoc _ [g]]
        rfl
      refine ⟨_, L ++ [lower] ++ [g], ?_, hJg, ?_, ?_, fun w hw => ?_, fun a => ?_⟩
      · have hcn : n ≠ s.cursor := hlt.ne'
        simp [sweepRegion, hanon, upper, lower, hcn, hres]
      · rw [hglist, hlist, hins]
      · rw [hgfresh, hfresh, ← hins]
        refine VmasOk.insert hok (hgs ▸ h.dvd) (hge ▸ hnd) (by omega) (hge ▸ hntop) (hgid.trans hfresh)
          fun z hz1 hz2 => ?_
        have hfz := hfree z (hgs ▸ hz1) (hge ▸ hz2)
        rw [hlist] at hfz
        exact hfz
      · rcases List.mem_append.mp hw with hw | hw
        · exact le_trans (hlow w hw) hlt.le
        · rw [List.mem_singleton.mp hw, hge]
      · have hg : In a g ↔ s.cursor ≤ a ∧ a < n := by
          show g.vmStart ≤ a ∧ a < g.vmEnd ↔ _
          rw [hgs, hge]
        rw [← hins, covers_insertVma, hg]
        refine ⟨fun hc => ⟨?_, fun _ => rfl⟩, fun hc => ?_⟩
        · rcases hc with ⟨hc1, hc2⟩ | hc
          · exact (h.placed.covers_region e hc1 hc2).mpr hin
          · exact ((hcovers a).mp hc).1
        · by_cases hca : s.cursor ≤ a ∧ a < n
          · exact Or.inl hca
          · exact Or.inr ((hcovers a).mpr ⟨hc.1, hca⟩)
  obtain ⟨L₀, v₀, hvmas, hL₀, hvend, hvstart, -⟩ := h.original
  refine ⟨3, L', upper :: R₁, P, q :: Q', ⟨vm', some upper.id, q :: Q', n, true, true⟩, le_rfl, fun m => ?_,
    { list := hlist'
      ok := hok'
      iter := rfl
      ssIter := rfl
      split := h.split
      dvd := hnd
      below := hbelow'
      ssBelow := fun z hz => le_trans (h.ssBelow z hz) hlt.le
      inV := ⟨le_rfl, hnv⟩
      inS := ⟨hqstart.ge, hqstart ▸ hqpos⟩
      origin := ⟨L₀, v₀ :: R₁, hvmas, fun w hw => le_trans (hL₀ w hw) hlt.le,
        Or.inr ⟨v₀, upper, R₁, rfl, rfl, hvend, by show v₀.vmStart ≤ n; omega, le_rfl, q, hqS, hqstart⟩⟩
      lower := fun _ hfalse => absurd hfalse (by simp)
      done := fun a ha => ?_
      inv := hJ' }, hntop.le, ?_⟩
  · have hfirst : sweepStep ops s = .next ⟨vm, some lower.id, q :: Q', upper.vmStart, true, true⟩ := by
      rw [h.placed.step_eq hne e, hregion]
      simp only [hnx, false_and, ↓reduceIte, hin, hout, ← hny]
      rfl
    rw [show m + 3 = (m + 2) + 1 from rfl, sweep, hfirst]
    exact sweep_back hlist hok.ids hlt (by show n < q.vmEnd; omega) hregion'
  · rw [hcovers']
    rcases Nat.lt_or_ge a s.cursor with hac | hac
    · rw [← h.done a hac]
      exact and_iff_left fun hca => absurd hac (by omega)
    · rw [h.target_out hS e hout hac ha, hgap a hac ha]
      exact ⟨fun hc => hc.2 ⟨hac, ha⟩, fun hanon => ⟨(h.placed.covers_region e hac ha).mpr hin, fun _ => hanon⟩⟩
  · simp only [endsAhead, endsOf, List.length_cons, hin, hout, Bool.toNat_true, Bool.toNat_false]
    omega

end

/-! ### The whole sweep -/

/-- Whatever the cursor is in, the loop comes to the next end. -/
theorem Swept.advances (h : Swept ops fresh J vmas allVmas L R P Q s) (hlaws : VmLaws ops fresh J vmas allVmas)
    (hV : Ordered vmas) (hS : SnapshotVmasOk allVmas) (hne : R ≠ [] ∨ Q ≠ []) (hc : s.cursor ≤ ulongMax) :
    Advances ops fresh J vmas allVmas R Q s := by
  obtain ⟨x, y, n, e⟩ := ends_exist s R Q
  have hcn := h.placed.cursor_le hS hc e
  rcases Nat.eq_or_lt_of_le hcn with heq | hlt
  · -- Nothing lies between two ends at one place.
    have hregion : sweepRegion ops s n = (s.vm, none) := by
      rw [← heq]
      simp [sweepRegion]
    exact h.advances_quiet hS e hne hcn hregion fun a h1 h2 => by omega
  cases hin : s.inVmas with
  | true =>
    cases hinS : s.inSsVmas with
    | true =>
      have hregion : sweepRegion ops s n = (s.vm, none) := by simp [sweepRegion, hin, hinS]
      refine h.advances_quiet hS e hne hcn hregion fun a h1 h2 => ?_
      cases hQ : Q with
      | nil =>
        have hat := h.inS
        rw [hQ, hinS] at hat
        cases hat
      | cons q Q' =>
        rw [h.placed.covers_region e h1 h2, h.target_in hS e hQ hinS h1 h2]
        exact iff_of_true hin (Or.inl hin)
    | false =>
      cases hR : R with
      | nil =>
        have hat := h.inV
        rw [hR, hin] at hat
        cases hat
      | cons v R₁ =>
        subst hR
        by_cases hnx : n = x
        · exact h.advances_end hlaws hV hS e hin hinS hlt hnx
        · rcases Nat.eq_or_lt_of_le (h.placed.at_vma hin).1 with hstart | hstart
          · exact h.advances_trim hlaws hV hS e hin hinS hlt hnx hstart
          · exact h.advances_split hlaws hV hS e hin hinS hlt hnx hstart
  | false =>
    cases hinS : s.inSsVmas with
    | true =>
      cases hQ : Q with
      | nil =>
        have hat := h.inS
        rw [hQ, hinS] at hat
        cases hat
      | cons q Q' =>
        cases hanon : q.isAnonymousPrivate with
        | true =>
          rw [← hQ]
          exact h.advances_mmap hS e hne hcn hlaws hQ hin hinS hanon hlt
        | false =>
          have hregion : sweepRegion ops s n = (s.vm, none) := by
            simp [sweepRegion, hin, hinS, h.ssIter, hQ, hanon]
          rw [← hQ]
          refine h.advances_quiet hS e hne hcn hregion fun a h1 h2 => ?_
          rw [h.placed.covers_region e h1 h2, h.target_in hS e hQ hinS h1 h2, hin, hanon]
          simp
    | false =>
      have hregion : sweepRegion ops s n = (s.vm, none) := by simp [sweepRegion, hin, hinS]
      refine h.advances_quiet hS e hne hcn hregion fun a h1 h2 => ?_
      rw [h.placed.covers_region e h1 h2, h.target_out hS e hinS h1 h2]
      refine iff_of_false (by simp [hin]) fun hgap => ?_
      have := (h.covers_vmas e h1 h2).mp hgap.covers
      rw [hin] at this
      cases this

/-- With nothing ahead the loop is done. -/
theorem Swept.finished (h : Swept ops fresh J vmas allVmas L [] P [] s) (hS : SnapshotVmasOk allVmas) (m : Nat) :
    sweep ops (m + 1) s = some (s.vm, 0) ∧ ∀ a, Covers (ops.vmas s.vm) a ↔ Target vmas allVmas a := by
  have hiter : s.vmaIter = none := h.iter
  refine ⟨by rw [sweep]; simp [sweepStep, hiter, h.ssIter], fun a => ?_⟩
  rw [h.list]
  rcases Nat.lt_or_ge a s.cursor with hac | hac
  · exact h.done a hac
  · have hsplit : allVmas = P ++ [] := h.split
    have hno : ¬Covers allVmas a := by
      rw [h.placed.coversS hac]
      exact not_covers_nil
    refine iff_of_false (fun hc => not_covers_nil ((covers_append_of_le h.below hac).mp hc)) ?_
    rintro (⟨z, hz, hza, -⟩ | ⟨-, -, -, -, next, hnext, -, -, -, -, -, hlt⟩)
    · exact hno ⟨z, hz, hza⟩
    · have hP : next ∈ P := by simpa [hsplit] using hnext
      have := h.ssBelow next hP
      have : next.vmStart < next.vmEnd := hS.ordered.pos next hnext
      omega

/-- From any state of the invariant the loop ends, with `Target` mapped. -/
theorem Swept.run (hlaws : VmLaws ops fresh J vmas allVmas) (hV : Ordered vmas) (hS : SnapshotVmasOk allVmas)
    {ends fuel : Nat} (hends : endsAhead R Q s.inVmas s.inSsVmas ≤ ends) (hfuel : 3 * ends + 1 ≤ fuel)
    (h : Swept ops fresh J vmas allVmas L R P Q s) (hc : s.cursor ≤ ulongMax) :
    ∃ vm, sweep ops fuel s = some (vm, 0) ∧ J vm ∧ VmasOk (fresh vm) (ops.vmas vm) ∧
      ∀ a, Covers (ops.vmas vm) a ↔ Target vmas allVmas a := by
  induction ends generalizing L R P Q s fuel with
  | zero =>
    by_cases hne : R ≠ [] ∨ Q ≠ []
    · obtain ⟨k, L', R', P', Q', s', -, -, -, -, hless⟩ := h.advances hlaws hV hS hne hc
      omega
    · obtain ⟨rfl, rfl⟩ : R = [] ∧ Q = [] := by simpa [not_or] using hne
      obtain ⟨hret, hcovers⟩ := h.finished hS (fuel - 1)
      rw [show fuel - 1 + 1 = fuel by omega] at hret
      exact ⟨s.vm, hret, h.inv, h.list ▸ h.ok, hcovers⟩
  | succ ends ih =>
    by_cases hne : R ≠ [] ∨ Q ≠ []
    · obtain ⟨k, L', R', P', Q', s', hk, hrounds, hnext, hc', hless⟩ := h.advances hlaws hV hS hne hc
      have hsweep := hrounds (fuel - k)
      rw [show fuel - k + k = fuel by omega] at hsweep
      rw [hsweep]
      exact ih (by omega) (by omega) hnext hc'
    · obtain ⟨rfl, rfl⟩ : R = [] ∧ Q = [] := by simpa [not_or] using hne
      obtain ⟨hret, hcovers⟩ := h.finished hS (fuel - 1)
      rw [show fuel - 1 + 1 = fuel by omega] at hret
      exact ⟨s.vm, hret, h.inv, h.list ▸ h.ok, hcovers⟩

end

/-- `restore_vmas` gets through, keeps what its calls keep, and leaves `Target` mapped. -/
theorem restoreVmas_spec {σ : Type} {ops : VmOps σ} {fresh : σ → Nat} {J : σ → Prop} {allVmas : List SnapshotVma}
    {vm : σ} (hlaws : VmLaws ops fresh J (ops.vmas vm) allVmas) (hok : VmasOk (fresh vm) (ops.vmas vm))
    (hS : SnapshotVmasOk allVmas) (hJ : J vm) :
    ∃ vm', restoreVmas ops allVmas vm = some (vm', 0) ∧ J vm' ∧ VmasOk (fresh vm') (ops.vmas vm') ∧
      ∀ a, Covers (ops.vmas vm') a ↔ Target (ops.vmas vm) allVmas a := by
  have hat : ∀ {α : Type} [Ranged α] (l : List α), At false 0 l := fun l => by
    cases l with
    | nil => exact rfl
    | cons _ _ => exact Nat.zero_le _
  have hstart : Swept ops fresh J (ops.vmas vm) allVmas [] (ops.vmas vm) [] allVmas
      ⟨vm, (ops.vmas vm).head?.map VmArea.id, allVmas, 0, false, false⟩ :=
    { list := rfl
      ok := hok
      iter := rfl
      ssIter := rfl
      split := rfl
      dvd := Nat.dvd_zero _
      below := by simp
      ssBelow := by simp
      inV := hat _
      inS := hat _
      origin := ⟨[], _, rfl, by simp, Or.inl rfl⟩
      lower := fun hfalse => absurd hfalse (by simp)
      done := fun a ha => absurd ha (Nat.not_lt_zero a)
      inv := hJ }
  refine hstart.run hlaws hok.ordered hS le_rfl ?_ (Nat.zero_le _)
  simp only [endsAhead, endsOf, sweepFuel, Bool.toNat_false]
  omega

end AflSnapshot
