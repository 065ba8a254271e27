import AflSnapshot.Theorems.Mappings
import Mathlib.Logic.Relation

/-! # The way of the sweep

`restore_vmas` walks a list that its own calls edit, and `vm_mmap` may join what it maps with the VMAs next to it
(`Joined`). Wherever its calls have gone through so far, the loop is at an end of a VMA (`Walked`), or on the way back from
a cut (`Cut`), or it holds a VMA that was freed. Every round but the last leaves less ahead (`Stage.round`): a cut adds a VMA,
but comes with the start of a snapshot VMA. -/

namespace AflSnapshot
open Spans Relation

/-! ### The edits of the kernel -/

/-- The VMA is anonymous and has the flags that `vm_mmap` gives to private memory with the protection `prot`. -/
def VmArea.Alike (v : VmArea) (prot : Nat) : Prop := v.file = none ∧ v.vmFlags = prot &&& (protRead ||| protWrite ||| protExec)

instance (v : VmArea) (prot : Nat) : Decidable (v.Alike prot) := inferInstanceAs (Decidable (_ ∧ _))

/-- What `vm_mmap` makes of the list with `l₁` below the new VMA `g` and `l₂` above it. Where it joins the VMAs on both sides
    the upper one is freed. -/
inductive Joined (prot : Nat) (g : VmArea) : List VmArea → List VmArea → List VmArea → Prop
  | apart (l₁ l₂ : List VmArea) : Joined prot g l₁ l₂ (l₁ ++ g :: l₂)
  | before {l₁ l₂ : List VmArea} {v : VmArea} (hv : v.vmEnd = g.vmStart) (hprot : v.Alike prot) :
    Joined prot g (l₁ ++ [v]) l₂ (l₁ ++ { v with vmEnd := g.vmEnd } :: l₂)
  | after {l₁ l₂ : List VmArea} {w : VmArea} (hw : w.vmStart = g.vmEnd) (hprot : w.Alike prot) :
    Joined prot g l₁ (w :: l₂) (l₁ ++ { w with vmStart := g.vmStart } :: l₂)
  | both {l₁ l₂ : List VmArea} {v w : VmArea} (hv : v.vmEnd = g.vmStart) (hw : w.vmStart = g.vmEnd) (hvprot : v.Alike prot)
    (hwprot : w.Alike prot) : Joined prot g (l₁ ++ [v]) (w :: l₂) (l₁ ++ { v with vmEnd := w.vmEnd } :: l₂)

/-- `vm_mmap` inserts the new VMA. -/
def Inserted (_ : Nat) (g : VmArea) (l₁ l₂ l : List VmArea) : Prop := l = l₁ ++ g :: l₂

theorem Inserted.joined {prot : Nat} {g : VmArea} {l₁ l₂ l : List VmArea} (h : Inserted prot g l₁ l₂ l) :
    Joined prot g l₁ l₂ l := by
  have h : l = l₁ ++ g :: l₂ := h
  rw [h]
  exact .apart l₁ l₂

/-- The calls that go through edit the list of VMAs, `vm_mmap` as `maps` tells. -/
structure Edits {σ : Type} (ops : VmOps σ) (fresh : σ → Nat)
    (maps : Nat → VmArea → List VmArea → List VmArea → List VmArea → Prop) : Prop where
  munmap : ∀ vm start end_, VmasOk (fresh vm) (ops.vmas vm) → pageSize ∣ start → pageSize ∣ end_ → start < end_ →
    (ops.munmap start (end_ - start) vm).2 = 0 →
    ops.vmas (ops.munmap start (end_ - start) vm).1 = unmapVmas start end_ (fresh vm) (ops.vmas vm) ∧
    fresh (ops.munmap start (end_ - start) vm).1 = fresh vm + 1
  mmap : ∀ vm start end_ prot l₁ l₂, VmasOk (fresh vm) (ops.vmas vm) → pageSize ∣ start → pageSize ∣ end_ → start < end_ →
    ops.vmas vm = l₁ ++ l₂ → (∀ v ∈ l₁, v.vmEnd ≤ start) → (∀ v ∈ l₂, end_ ≤ v.vmStart) →
    (ops.mmap start (end_ - start) prot vm).2 = some start →
    maps prot (anonVma (fresh vm) start end_ prot) l₁ l₂ (ops.vmas (ops.mmap start (end_ - start) prot vm).1) ∧
    fresh (ops.mmap start (end_ - start) prot vm).1 = fresh vm + 1

section
variable {l₁ l₂ l : List VmArea} {v w g : VmArea} {prot fresh fresh' n : Nat}

theorem VmasOk.mono (h : VmasOk fresh l) (hle : fresh ≤ fresh') : VmasOk fresh' l :=
  ⟨h.ordered, h.aligned, h.top, h.ids, fun v hv => lt_of_lt_of_le (h.fresh v hv) hle⟩

/-- A VMA grows over memory that nothing is mapped in, or over a VMA that is dropped. -/
theorem VmasOk.grow {a b : Nat} (h : VmasOk fresh (l₁ ++ v :: l₂)) (ha : a ≤ v.vmStart) (hb : v.vmEnd ≤ b) (hda : pageSize ∣ a)
    (hdb : pageSize ∣ b) (htop : b < ulongMax) (h₁ : ∀ w ∈ l₁, w.vmEnd ≤ a) (h₂ : ∀ w ∈ l₂, b ≤ w.vmStart) :
    VmasOk fresh (l₁ ++ { v with vmStart := a, vmEnd := b } :: l₂) := by
  have hv : v ∈ l₁ ++ v :: l₂ := by simp
  have hpos : v.vmStart < v.vmEnd := h.ordered.pos v hv
  obtain ⟨ho₁, ho₂, -⟩ := Ordered.append_iff.mp h.ordered
  have hsub : ∀ w ∈ l₁ ++ { v with vmStart := a, vmEnd := b } :: l₂,
      w = { v with vmStart := a, vmEnd := b } ∨ w ∈ l₁ ++ v :: l₂ := fun w hw => by
    rcases List.mem_append.mp hw with hw | hw
    · exact Or.inr (List.mem_append_left _ hw)
    · rcases List.mem_cons.mp hw with hw | hw
      · exact Or.inl hw
      · exact Or.inr (List.mem_append_right _ (List.mem_cons_of_mem _ hw))
  refine ⟨Ordered.append_iff.mpr ⟨ho₁, .cons ?_ h₂ ho₂.tail, fun w hw x hx => ?_⟩, fun w hw => ?_, fun w hw => ?_, ?_, fun w hw => ?_⟩
  · show a < b
    omega
  · rcases List.mem_cons.mp hx with rfl | hx
    · exact h₁ w hw
    · have hwa := h₁ w hw
      have hxb := h₂ x hx
      show w.vmEnd ≤ x.vmStart
      omega
  · rcases hsub w hw with rfl | hw
    · exact ⟨hda, hdb⟩
    · exact h.aligned w hw
  · rcases hsub w hw with rfl | hw
    · exact htop
    · exact h.top w hw
  · have hmap : (l₁ ++ { v with vmStart := a, vmEnd := b } :: l₂).map VmArea.id = (l₁ ++ v :: l₂).map VmArea.id := by simp
    have hids : ((l₁ ++ v :: l₂).map VmArea.id).Pairwise (· ≠ ·) := List.pairwise_map.mpr h.ids
    exact List.pairwise_map.mp (hmap ▸ hids)
  · rcases hsub w hw with rfl | hw
    · exact h.fresh v hv
    · exact h.fresh w hw

/-- The list without one of its VMAs. -/
theorem VmasOk.drop (h : VmasOk fresh (l₁ ++ v :: l₂)) : VmasOk fresh (l₁ ++ l₂) := by
  have hsub : (l₁ ++ l₂).Sublist (l₁ ++ v :: l₂) := (List.sublist_cons_self v l₂).append_left l₁
  exact ⟨⟨fun w hw => h.ordered.pos w (hsub.subset hw), h.ordered.sorted.sublist hsub⟩, fun w hw => h.aligned w (hsub.subset hw),
    fun w hw => h.top w (hsub.subset hw), h.ids.sublist hsub, fun w hw => h.fresh w (hsub.subset hw)⟩

theorem Joined.vmasOk {start end_ : Nat} (h : Joined prot (anonVma fresh start end_ prot) l₁ l₂ l) (hok : VmasOk fresh (l₁ ++ l₂))
    (hs : pageSize ∣ start) (he : pageSize ∣ end_) (hse : start < end_) (htop : end_ < ulongMax)
    (h₁ : ∀ v ∈ l₁, v.vmEnd ≤ start) (h₂ : ∀ v ∈ l₂, end_ ≤ v.vmStart) : VmasOk (fresh + 1) l := by
  have hpos : ∀ v ∈ l₁ ++ l₂, v.vmStart < v.vmEnd := hok.ordered.pos
  have hle : fresh ≤ fresh + 1 := Nat.le_succ fresh
  cases h with
  | apart =>
    have hins : insertVma (anonVma fresh start end_ prot) (l₁ ++ l₂) = l₁ ++ anonVma fresh start end_ prot :: l₂ := by
      refine insertVma_append (fun v hv => ?_) h₂
      have hv₁ := hpos v (List.mem_append_left _ hv)
      have hv₂ := h₁ v hv
      show v.vmStart < end_
      omega
    rw [← hins]
    refine hok.insert hs he hse htop rfl ?_
    rintro a ha₁ ha₂ ⟨v, hv, hv₁, hv₂⟩
    have ha₁ : start ≤ a := ha₁
    have ha₂ : a < end_ := ha₂
    have hv₁ : v.vmStart ≤ a := hv₁
    have hv₂ : a < v.vmEnd := hv₂
    rcases List.mem_append.mp hv with hv | hv
    · have hend := h₁ v hv
      omega
    · have hstart := h₂ v hv
      omega
  | @before l₁ _ v hv =>
    rw [List.append_assoc] at hok
    have hok : VmasOk fresh (l₁ ++ v :: l₂) := hok
    obtain ⟨-, -, hlow⟩ := Ordered.append_iff.mp hok.ordered
    have hv : v.vmEnd = start := hv
    exact (hok.grow (b := end_) le_rfl (by omega) (hok.aligned v (by simp)).1 he htop
      (fun x hx => hlow x hx v List.mem_cons_self) h₂).mono hle
  | @after _ l₂ w hw =>
    obtain ⟨-, hup, -⟩ := Ordered.append_iff.mp hok.ordered
    have hw : w.vmStart = end_ := hw
    exact (hok.grow (a := start) (by omega) le_rfl hs (hok.aligned w (by simp)).2 (hok.top w (by simp)) h₁
      fun x hx => hup.head_le hx).mono hle
  | @both l₁ l₂ v w hv hw =>
    have hok : VmasOk fresh ((l₁ ++ [v]) ++ w :: l₂) := hok
    have hup : Ordered (w :: l₂) := (Ordered.append_iff.mp hok.ordered).2.1
    have hdrop : VmasOk fresh (l₁ ++ v :: l₂) := by
      have hdrop := hok.drop
      rwa [List.append_assoc] at hdrop
    obtain ⟨-, -, hlow⟩ := Ordered.append_iff.mp hdrop.ordered
    have hw₁ : w.vmStart < w.vmEnd := hpos w (by simp)
    have hv : v.vmEnd = start := hv
    have hw : w.vmStart = end_ := hw
    exact (hdrop.grow (b := w.vmEnd) le_rfl (by omega) (hdrop.aligned v (by simp)).1 (hok.aligned w (by simp)).2
      (hok.top w (by simp)) (fun x hx => hlow x hx v List.mem_cons_self) fun x hx => hup.head_le hx).mono hle

end

/-- The number of a VMA that is dropped is not in the list any more. -/
theorem freed_of_ids {b : Nat} (hids : ((l₁ ++ [v]) ++ w :: l₂).Pairwise fun x y : VmArea => x.id ≠ y.id) :
    ∀ u ∈ l₁ ++ { v with vmEnd := b } :: l₂, u.id ≠ w.id := by
  obtain ⟨-, hup, hcross⟩ := List.pairwise_append.mp hids
  intro u hu
  rcases List.mem_append.mp hu with hu | hu
  · exact hcross u (List.mem_append_left _ hu) w List.mem_cons_self
  rcases List.mem_cons.mp hu with rfl | hu
  · exact hcross v (by simp) w List.mem_cons_self
  · exact ((List.pairwise_cons.mp hup).1 u hu).symm

/-- The three shapes of the list: the VMAs above the new one stay, the first of them grows downwards, or it is freed. -/
theorem Joined.shape {start end_ : Nat} (h : Joined prot (anonVma fresh start end_ prot) l₁ l₂ l) (hse : start < end_)
    (h₁ : ∀ v ∈ l₁, v.vmEnd ≤ start) :
    (∃ l₁', l = l₁' ++ l₂ ∧ (∀ v ∈ l₁', v.vmEnd ≤ end_) ∧
      ∀ p, (∃ v ∈ l₁', v.vmEnd = end_ ∧ v.Alike p) ↔ (anonVma 0 0 0 prot).Alike p) ∨
    (∃ w l₂', l₂ = w :: l₂' ∧ w.vmStart = end_ ∧ w.Alike prot ∧ l = l₁ ++ { w with vmStart := start } :: l₂') ∨
    ∃ l₁' v w l₂', l₁ = l₁' ++ [v] ∧ l₂ = w :: l₂' ∧ v.vmEnd = start ∧ w.vmStart = end_ ∧ v.Alike prot ∧ w.Alike prot ∧
      l = l₁' ++ { v with vmEnd := w.vmEnd } :: l₂' := by
  -- The VMA that ends at the end of what is mapped.
  have hlast : ∀ (l₀ : List VmArea) (z : VmArea), (∀ v ∈ l₀, v.vmEnd ≤ start) → z.vmEnd = end_ →
      (∀ p, z.Alike p ↔ (anonVma 0 0 0 prot).Alike p) → (∀ v ∈ l₀ ++ [z], v.vmEnd ≤ end_) ∧
      ∀ p, (∃ v ∈ l₀ ++ [z], v.vmEnd = end_ ∧ v.Alike p) ↔ (anonVma 0 0 0 prot).Alike p := by
    intro l₀ z hl₀ hz hprot
    refine ⟨fun v hv => ?_, fun p => ⟨?_, fun hp => ⟨z, by simp, hz, (hprot p).mpr hp⟩⟩⟩
    · rcases List.mem_append.mp hv with hv | hv
      · exact le_trans (hl₀ v hv) hse.le
      · rw [List.mem_singleton.mp hv, hz]
    · rintro ⟨v, hv, hend, hp⟩
      rcases List.mem_append.mp hv with hv | hv
      · have hle := hl₀ v hv
        omega
      · rw [List.mem_singleton.mp hv] at hp
        exact (hprot p).mp hp
  cases h with
  | apart =>
    obtain ⟨hbelow, hend⟩ := hlast l₁ (anonVma fresh start end_ prot) h₁ rfl fun _ => Iff.rfl
    exact Or.inl ⟨l₁ ++ [anonVma fresh start end_ prot], by simp, hbelow, hend⟩
  | @before l₀ _ v hv hprot =>
    obtain ⟨hbelow, hend⟩ := hlast l₀ { v with vmEnd := end_ } (fun w hw => h₁ w (List.mem_append_left _ hw)) rfl fun p => by
      show v.file = none ∧ v.vmFlags = _ ↔ _
      rw [hprot.1, hprot.2]
      exact Iff.rfl
    exact Or.inl ⟨l₀ ++ [{ v with vmEnd := end_ }], by simp [anonVma], hbelow, hend⟩
  | @after _ l₀ w hw hprot => exact Or.inr (Or.inl ⟨w, l₀, rfl, hw, hprot, rfl⟩)
  | @both l₀ l₀' v w hv hw hvprot hwprot => exact Or.inr (Or.inr ⟨l₀, v, w, l₀', rfl, rfl, hv, hw, hvprot, hwprot, rfl⟩)

/-! ### The invariant -/

section
variable (vmas : List VmArea) (allVmas : List SnapshotVma)

/-- In the end a VMA ends at `c` that `vm_mmap` may join with what it maps there with the protection `prot`: one that was there
    and stays, or what is mapped for a snapshot VMA that ends there. -/
def EndsAlike (c prot : Nat) : Prop :=
  (∃ v ∈ vmas, v.vmEnd = c ∧ v.Alike prot ∧ Covers allVmas (c - 1)) ∨
  ¬Covers vmas (c - 1) ∧ ∃ ss ∈ allVmas, ss.vmEnd = c ∧ ss.isAnonymousPrivate = true ∧
    (anonVma 0 0 0 ss.prot).Alike prot

/-- The end of a snapshot VMA is missing just below the VMA, and what is mapped there may be joined with it. -/
def Lowers (v : VmArea) (ss : SnapshotVma) : Prop :=
  ss.isAnonymousPrivate = true ∧ v.Alike ss.prot ∧ ss.vmStart < v.vmStart ∧ v.vmStart ≤ ss.vmEnd ∧ ¬Covers vmas (v.vmStart - 1)

/-- What has become of the VMA `v₀` that the cursor is in. -/
structure Remains (c : Nat) (v₀ v : VmArea) : Prop where
  same : v.vmEnd = v₀.vmEnd ∧ v.vmFlags = v₀.vmFlags ∧ v.file = v₀.file
  entered : v₀.vmStart ≤ c
  start : v.vmStart = v₀.vmStart ∨
    v₀.vmStart < v.vmStart ∧ (v.vmStart < c ∨ ∃ ss ∈ allVmas, v.vmStart = ss.vmStart) ∨
    v.vmStart < v₀.vmStart ∧ ∃ ss ∈ allVmas, Lowers vmas v₀ ss

/-- What is ahead of the cursor is what was there at the start, but for the VMA that it is in. -/
def Ahead (c : Nat) (inVmas : Bool) (R : List VmArea) : Prop :=
  ∃ L₀ R₀, vmas = L₀ ++ R₀ ∧ (∀ v ∈ L₀, v.vmEnd ≤ c) ∧
    if inVmas then ∃ v₀ v R₁, R₀ = v₀ :: R₁ ∧ R = v :: R₁ ∧ Remains vmas allVmas c v₀ v else R = R₀

/-- A hole from `c` up to the VMA `v`, in an anonymous private snapshot VMA. -/
structure Hole (v : VmArea) (ss : SnapshotVma) (c : Nat) : Prop where
  mem : v ∈ vmas
  ssMem : ss ∈ allVmas
  anonymous : ss.isAnonymousPrivate = true
  start : ss.vmStart ≤ c
  lt : c < v.vmStart
  le : v.vmStart ≤ ss.vmEnd
  hole : ∀ a, c ≤ a → a < v.vmStart → ¬Covers vmas a

/-- A gap between neighbouring snapshot VMAs, the upper one anonymous and private, that cuts the VMA `v` in two. -/
structure Cuts (v : VmArea) (prev next : SnapshotVma) : Prop where
  mem : v ∈ vmas
  prevMem : prev ∈ allVmas
  nextMem : next ∈ allVmas
  between : ∀ ss ∈ allVmas, ss.vmEnd ≤ prev.vmEnd ∨ next.vmStart ≤ ss.vmStart
  gap : prev.vmEnd < next.vmStart
  upper : next.vmStart < v.vmEnd
  lower : v.vmStart < prev.vmEnd ∨ v.vmStart = prev.vmEnd ∧ Lowers vmas v prev

/-- What is mapped in a hole, or again in a gap, may be joined with the VMAs on both sides. -/
def JoinsBoth : Prop :=
  (∃ v ss c, Hole vmas allVmas v ss c ∧ v.Alike ss.prot ∧ EndsAlike vmas allVmas c ss.prot) ∨
  ∃ v prev next, Cuts vmas allVmas v prev next ∧ next.isAnonymousPrivate = true ∧ v.Alike next.prot

variable {σ : Type} (ops : VmOps σ) (fresh : σ → Nat)

/-- The loop is at an end of a VMA. -/
structure Walked (L R : List VmArea) (P Q : List SnapshotVma) (s : SweepState σ) : Prop
    extends Placed ops fresh allVmas L R P Q s where
  top : s.cursor < ulongMax
  ahead : Ahead vmas allVmas s.cursor s.inVmas R
  /-- Where a VMA reaches from below the cursor into a gap, the gap starts at the cursor. -/
  lower : s.inVmas = true → s.inSsVmas = false → ∀ v, R.head? = some v → v.vmStart < s.cursor → ∃ ss ∈ P, ss.vmEnd = s.cursor
  ending : s.inVmas = false → ∀ prot, (∃ v ∈ L, v.vmEnd = s.cursor ∧ v.Alike prot) ↔ EndsAlike vmas allVmas s.cursor prot

/-- A VMA was cut in two. The loop goes back to the end of the lower part, and from there to the start of the upper one. -/
structure Cut (L : List VmArea) (lower upper : VmArea) (R : List VmArea) (P : List SnapshotVma) (q : SnapshotVma)
    (Q : List SnapshotVma) (vm : σ) : Prop where
  there : Walked vmas allVmas ops fresh (L ++ [lower]) (upper :: R) P (q :: Q)
    ⟨vm, some upper.id, q :: Q, upper.vmStart, true, true⟩
  gap : lower.vmEnd < upper.vmStart
  start : q.vmStart = upper.vmStart
  same : lower.vmFlags = upper.vmFlags ∧ lower.file = upper.file
  cuts : ∃ v prev, Cuts vmas allVmas v prev q ∧ prev.vmEnd = lower.vmEnd ∧ upper.vmFlags = v.vmFlags ∧ upper.file = v.file

end

/-- The rounds that are ahead: those that are lost by a cut are counted with the start of the snapshot VMA above the gap. -/
def roundsAhead (R : List VmArea) (Q : List SnapshotVma) (inVmas inSsVmas : Bool) : Nat :=
  endsOf R inVmas + 3 * endsOf Q inSsVmas

/-- Where the loop can be, with a bound for the rounds ahead and how far it has come. -/
inductive Stage {σ : Type} (vmas : List VmArea) (allVmas : List SnapshotVma) (ops : VmOps σ) (fresh : σ → Nat)
    (maps : Nat → VmArea → List VmArea → List VmArea → List VmArea → Prop) : Nat → Nat → SweepState σ → Prop
  | walked {L R : List VmArea} {P Q : List SnapshotVma} {s : SweepState σ} (h : Walked vmas allVmas ops fresh L R P Q s) :
    Stage vmas allVmas ops fresh maps (roundsAhead R Q s.inVmas s.inSsVmas) s.cursor s
  | back {L R : List VmArea} {P Q : List SnapshotVma} {lower upper : VmArea} {q : SnapshotVma} {vm : σ}
    (h : Cut vmas allVmas ops fresh L lower upper R P q Q vm) :
    Stage vmas allVmas ops fresh maps (roundsAhead (upper :: R) (q :: Q) true true + 2) upper.vmStart
      ⟨vm, some lower.id, q :: Q, upper.vmStart, true, true⟩
  | forth {L R : List VmArea} {P Q : List SnapshotVma} {lower upper : VmArea} {q : SnapshotVma} {vm : σ}
    (h : Cut vmas allVmas ops fresh L lower upper R P q Q vm) :
    Stage vmas allVmas ops fresh maps (roundsAhead (upper :: R) (q :: Q) true true + 1) upper.vmStart
      ⟨vm, some upper.id, q :: Q, lower.vmEnd, false, true⟩
  | freed {s : SweepState σ} {prot : Nat} {g w : VmArea} {l₁ l₂ : List VmArea} (hmaps : maps prot g l₁ l₂ (ops.vmas s.vm))
    (hw : w ∈ l₂) (hiter : s.vmaIter = some w.id) (hfreed : ∀ v ∈ ops.vmas s.vm, v.id ≠ w.id)
    (hjoins : JoinsBoth vmas allVmas) : Stage vmas allVmas ops fresh maps 0 0 s

section
variable {σ : Type} {ops : VmOps σ} {fresh : σ → Nat} {vmas : List VmArea} {allVmas : List SnapshotVma}
variable {L R L' R' : List VmArea} {P Q : List SnapshotVma} {s : SweepState σ} {a c x y n : Nat} {v v₀ : VmArea}

/-! ### The VMAs ahead -/

theorem Remains.mono (h : Remains vmas allVmas c v₀ v) (hcn : c ≤ n) : Remains vmas allVmas n v₀ v where
  same := h.same
  entered := le_trans h.entered hcn
  start := by
    rcases h.start with h1 | ⟨h1, h2⟩ | h1
    · exact Or.inl h1
    · exact Or.inr (Or.inl ⟨h1, h2.imp_left fun h2 => lt_of_lt_of_le h2 hcn⟩)
    · exact Or.inr (Or.inr h1)

/-- The VMA that the cursor is in, as it was at the start. -/
theorem Ahead.inside (h : Ahead vmas allVmas c true (v :: R)) :
    ∃ L₀ v₀, vmas = L₀ ++ v₀ :: R ∧ (∀ w ∈ L₀, w.vmEnd ≤ c) ∧ Remains vmas allVmas c v₀ v := by
  obtain ⟨L₀, R₀, hvmas, hL, v₀, w, R₁, rfl, heq, hv⟩ := h
  obtain ⟨rfl, rfl⟩ := List.cons.inj heq
  exact ⟨L₀, v₀, hvmas, hL, hv⟩

theorem Ahead.enter (hvmas : vmas = L ++ v :: R) (hL : ∀ w ∈ L, w.vmEnd ≤ c) (hv : v.vmStart ≤ c) :
    Ahead vmas allVmas c true (v :: R) :=
  ⟨L, v :: R, hvmas, hL, v, v, R, rfl, rfl, ⟨rfl, rfl, rfl⟩, hv, Or.inl rfl⟩

theorem Ahead.leave (h : Ahead vmas allVmas c true (v :: R)) (hcn : c ≤ n) (hv : v.vmEnd ≤ n) :
    Ahead vmas allVmas n false R := by
  obtain ⟨L₀, v₀, hvmas, hL, hr⟩ := h.inside
  refine ⟨L₀ ++ [v₀], R, by simp [hvmas], fun w hw => ?_, rfl⟩
  rcases List.mem_append.mp hw with hw | hw
  · exact le_trans (hL w hw) hcn
  · rw [List.mem_singleton.mp hw, ← hr.same.1]
    exact hv

theorem Ahead.mono {inVmas : Bool} (h : Ahead vmas allVmas c inVmas R) (hcn : c ≤ n) : Ahead vmas allVmas n inVmas R := by
  obtain ⟨L₀, R₀, hvmas, hL, hR⟩ := h
  refine ⟨L₀, R₀, hvmas, fun v hv => le_trans (hL v hv) hcn, ?_⟩
  cases inVmas with
  | false => exact hR
  | true =>
    obtain ⟨v₀, v, R₁, h1, h2, hr⟩ := hR
    exact ⟨v₀, v, R₁, h1, h2, hr.mono hcn⟩

/-- The cursor comes to the next end, and what is ahead stays as it is. -/
theorem Ahead.next (h : Ahead vmas allVmas s.cursor s.inVmas R) (e : Ends s R Q x y n) (hcn : s.cursor ≤ n)
    (hne : n = x → R ≠ []) : Ahead vmas allVmas n (if n = x then !s.inVmas else s.inVmas) (if n = x then rest s.inVmas R else R) := by
  by_cases hnx : n = x
  swap
  · rw [if_neg hnx, if_neg hnx]
    exact h.mono hcn
  rw [if_pos hnx, if_pos hnx]
  obtain ⟨w, R₁, rfl⟩ := List.exists_cons_of_ne_nil (hne hnx)
  cases hin : s.inVmas with
  | true =>
    rw [hin] at h
    exact h.leave hcn (hnx.trans (e.vma_eq hin)).ge
  | false =>
    rw [hin] at h
    obtain ⟨L₀, R₀, hvmas, hL, rfl⟩ := h
    have hw : n = w.vmStart := by
      rw [hnx, e.vma, hin]
      rfl
    exact .enter hvmas (fun v hv => le_trans (hL v hv) hcn) hw.ge

theorem Walked.covers_vmas (h : Walked vmas allVmas ops fresh L R P Q s) (e : Ends s R Q x y n) (hca : s.cursor ≤ a)
    (han : a < n) : Covers vmas a ↔ s.inVmas = true := by
  have hahead := h.ahead
  cases hin : s.inVmas with
  | true =>
    obtain ⟨v, R₁, rfl⟩ := (hin ▸ h.inV).ne_nil
    rw [hin] at hahead
    obtain ⟨L₀, v₀, hvmas, -, hr⟩ := hahead.inside
    have hn : n ≤ v₀.vmEnd := hr.same.1 ▸ e.le_vma hin
    refine iff_of_true ⟨v₀, by simp [hvmas], ?_, ?_⟩ rfl
    · exact le_trans hr.entered hca
    · exact lt_of_lt_of_le han hn
  | false =>
    rw [hin] at hahead
    obtain ⟨L₀, R₀, hvmas, hL, rfl⟩ := hahead
    rw [hvmas, covers_append_of_le hL hca, ← hin, ← h.covers_region e hca han, covers_append_of_le h.below hca]

/-! ### The VMAs that end at the cursor -/

theorem covers_pred {α : Type} [Ranged α] {l : List α} {z : α} (hl : Ordered l) (hz : z ∈ l) : Covers l (Ranged.hi z - 1) := by
  have hpos := hl.pos z hz
  exact ⟨z, hz, by omega, by omega⟩

theorem endsAlike_hole {prot : Nat} (hV : Ordered vmas) (hno : ¬Covers vmas (c - 1)) : EndsAlike vmas allVmas c prot ↔
    ∃ ss ∈ allVmas, ss.vmEnd = c ∧ ss.isAnonymousPrivate = true ∧ (anonVma 0 0 0 ss.prot).Alike prot := by
  constructor
  · rintro (⟨v, hv, rfl, -⟩ | ⟨-, hss⟩)
    · exact absurd (covers_pred hV hv) hno
    · exact hss
  · exact fun hss => Or.inr ⟨hno, hss⟩

theorem endsAlike_mapped {prot : Nat} (hcov : Covers vmas (c - 1)) : EndsAlike vmas allVmas c prot ↔
    Covers allVmas (c - 1) ∧ ∃ v ∈ vmas, v.vmEnd = c ∧ v.Alike prot := by
  constructor
  · rintro (⟨v, hv, hend, hprot, hss⟩ | ⟨hno, -⟩)
    · exact ⟨hss, v, hv, hend, hprot⟩
    · exact absurd hcov hno
  · rintro ⟨hss, v, hv, hend, hprot⟩
    exact Or.inl ⟨v, hv, hend, hprot, hss⟩

/-- Nothing that is below the cursor ends above it. -/
theorem Walked.no_end (h : Walked vmas allVmas ops fresh L R P Q s) (hlt : s.cursor < n) (prot : Nat) :
    ¬∃ v ∈ L, v.vmEnd = n ∧ v.Alike prot := by
  rintro ⟨v, hv, hend, -⟩
  have hle := h.below v hv
  omega

/-! ### The next end -/

/-- The invariant after a round that leaves `L'` below the next cursor and `R'` ahead of it. -/
theorem Walked.next (h : Walked vmas allVmas ops fresh L R P Q s) (hS : SnapshotVmasOk allVmas) (hne : R ≠ [] ∨ Q ≠ [])
    (e : Ends s R Q x y n) (hcn : s.cursor ≤ n) {vm : σ} (hlist : ops.vmas vm = L' ++ R') (hok : VmasOk (fresh vm) (L' ++ R'))
    (hbelow : ∀ v ∈ L', v.vmEnd ≤ n) (hinV : At (if n = x then !s.inVmas else s.inVmas) n R') {iter : Option Nat}
    (hiter : iter = R'.head?.map VmArea.id) (hahead : Ahead vmas allVmas n (if n = x then !s.inVmas else s.inVmas) R')
    (hsame : s.inVmas = false → s.inSsVmas = false → R' = R)
    (hending : (if n = x then !s.inVmas else s.inVmas) = false →
      ∀ prot, (∃ v ∈ L', v.vmEnd = n ∧ v.Alike prot) ↔ EndsAlike vmas allVmas n prot) :
    ∃ P', Walked vmas allVmas ops fresh L' R' P' (if n = y then rest s.inSsVmas Q else Q)
      { vm
        vmaIter := iter
        ssVmaIter := if n = y then rest s.inSsVmas Q else Q
        cursor := n
        inVmas := if n = x then !s.inVmas else s.inVmas
        inSsVmas := if n = y then !s.inSsVmas else s.inSsVmas } := by
  obtain ⟨P', hplaced, hlast⟩ := h.toPlaced.next hS hne e hcn hlist hok hbelow hinV hiter
  refine ⟨P', hplaced, (h.next_lt hS hne e).1, hahead, fun hin hout v hv hvn => ?_, hending⟩
  have hin : (if n = x then !s.inVmas else s.inVmas) = true := hin
  have hout : (if n = y then !s.inSsVmas else s.inSsVmas) = false := hout
  have hvn : v.vmStart < n := hvn
  by_cases hny : n = y
  · rw [if_pos hny] at hout
    exact hlast hny (by simpa using hout)
  · -- The cursor has just entered a VMA, with nothing mapped before it.
    have hnx : n = x := e.choice.resolve_right hny
    rw [if_pos hnx] at hin
    rw [if_neg hny] at hout
    have hfalse : s.inVmas = false := by simpa using hin
    rw [hsame hfalse hout] at hv
    obtain ⟨R₁, rfl⟩ := List.head?_eq_some_iff.mp hv
    have hstart : n = v.vmStart := by
      rw [hnx, e.vma, hfalse]
      rfl
    omega

/-! ### One round -/

variable {maps : Nat → VmArea → List VmArea → List VmArea → List VmArea → Prop}

theorem roundsAhead_next {inVmas inSsVmas : Bool} (hp : n = x → R ≠ []) (hq : n = y → Q ≠ []) (hpq : n = x ∨ n = y)
    (hlen : R'.length = (if n = x then rest inVmas R else R).length) :
    roundsAhead R' (if n = y then rest inSsVmas Q else Q) (if n = x then !inVmas else inVmas)
      (if n = y then !inSsVmas else inSsVmas) < roundsAhead R Q inVmas inSsVmas := by
  obtain ⟨hR, hR'⟩ := @endsOf_next x n VmArea R inVmas hp
  obtain ⟨hQ, hQ'⟩ := @endsOf_next y n SnapshotVma Q inSsVmas hq
  have hlen : endsOf R' (if n = x then !inVmas else inVmas) =
      endsOf (if n = x then rest inVmas R else R) (if n = x then !inVmas else inVmas) := by
    unfold endsOf
    rw [hlen]
  unfold roundsAhead
  rw [hlen]
  rcases hpq with hx | hy
  · exact Nat.add_lt_add_of_lt_of_le (hR' hx) (Nat.mul_le_mul_left 3 hQ)
  · exact Nat.add_lt_add_of_le_of_lt hR (Nat.mul_lt_mul_of_pos_left (hQ' hy) (by decide))

/-- A round after which the loop is done, or fewer rounds are ahead. -/
def Proceeds {σ : Type} (vmas : List VmArea) (allVmas : List SnapshotVma) (ops : VmOps σ) (fresh : σ → Nat)
    (maps : Nat → VmArea → List VmArea → List VmArea → List VmArea → Prop) (m c : Nat) (s : SweepState σ) : Prop :=
  (∃ vm res, sweepStep ops s = .ret vm res) ∨
    ∃ m' c' s', m' < m ∧ c' ≤ max c s'.cursor ∧ sweepStep ops s = .next s' ∧ Stage vmas allVmas ops fresh maps m' c' s'

/-- At the end of a VMA that stays. -/
theorem Walked.ending_vma (h : Walked vmas allVmas ops fresh L (v :: R) P Q s) (hV : Ordered vmas) (hS : SnapshotVmasOk allVmas)
    (e : Ends s (v :: R) Q x y n) (hin : s.inVmas = true) (hinS : s.inSsVmas = true) (hnx : n = x) (prot : Nat) :
    (∃ w ∈ L ++ [v], w.vmEnd = n ∧ w.Alike prot) ↔ EndsAlike vmas allVmas n prot := by
  have hahead := h.ahead
  rw [hin] at hahead
  obtain ⟨L₀, v₀, hvmas, -, hr⟩ := hahead.inside
  have hv₀ : v₀ ∈ vmas := by simp [hvmas]
  have hend : n = v.vmEnd := hnx.trans (e.vma_eq hin)
  have hlt : s.cursor < n := hend ▸ (h.at_vma hin).2
  have halike : v.Alike prot ↔ v₀.Alike prot := by
    unfold VmArea.Alike
    rw [hr.same.2.1, hr.same.2.2]
  rw [endsAlike_mapped ((h.covers_vmas e (by omega) (by omega)).mpr hin),
    and_iff_right ((h.covers_ssVmas e hS (by omega) (by omega)).mpr hinS)]
  constructor
  · rintro ⟨w, hw, hwend, hprot⟩
    rcases List.mem_append.mp hw with hw | hw
    · exact absurd ⟨w, hw, hwend, hprot⟩ (h.no_end hlt prot)
    · rw [List.mem_singleton.mp hw] at hprot
      exact ⟨v₀, hv₀, hr.same.1 ▸ hend.symm, halike.mp hprot⟩
  · rintro ⟨w, hw, hwend, hprot⟩
    have hpos : w.vmStart < w.vmEnd := hV.pos w hw
    have hsame : w = v₀ := by
      refine hV.eq_of_in (a := n - 1) hw hv₀ ⟨?_, ?_⟩ ⟨?_, ?_⟩
      · show w.vmStart ≤ n - 1
        omega
      · show n - 1 < w.vmEnd
        omega
      · have hentered := hr.entered
        show v₀.vmStart ≤ n - 1
        omega
      · have hsame := hr.same.1
        show n - 1 < v₀.vmEnd
        omega
    exact ⟨v, by simp, hend.symm, halike.mpr (hsame ▸ hprot)⟩

/-- At the end of a hole. -/
theorem Walked.ending_hole (h : Walked vmas allVmas ops fresh L R P Q s) (hV : Ordered vmas) (hS : SnapshotVmasOk allVmas)
    (e : Ends s R Q x y n) (hin : s.inVmas = false) (hlt : s.cursor < n) (prot : Nat) :
    EndsAlike vmas allVmas n prot ↔ s.inSsVmas = true ∧ ∃ q Q', Q = q :: Q' ∧ q.vmEnd = n ∧ q.isAnonymousPrivate = true ∧
      (anonVma 0 0 0 q.prot).Alike prot := by
  have hno : ¬Covers vmas (n - 1) := by
    rw [h.covers_vmas e (by omega) (by omega), hin]
    exact Bool.false_ne_true
  rw [endsAlike_hole hV hno]
  constructor
  · rintro ⟨ss, hss, hend, hanon, hprot⟩
    have hcov : Covers allVmas (n - 1) := hend ▸ covers_pred hS.ordered hss
    have hinS := (h.covers_ssVmas e hS (by omega) (by omega)).mp hcov
    obtain ⟨q, Q', rfl⟩ := (hinS ▸ h.inS).ne_nil
    have hqS : q ∈ allVmas := by simp [h.split]
    have hat : q.vmStart ≤ s.cursor ∧ s.cursor < q.vmEnd := by
      have hat := h.inS
      rw [hinS] at hat
      exact hat
    have hq : n ≤ q.vmEnd := by
      have hy : y = q.vmEnd := by
        rw [e.ssVma, hinS]
        rfl
      exact hy ▸ e.next ▸ min_le_right _ _
    have hpos : ss.vmStart < ss.vmEnd := hS.ordered.pos ss hss
    have hsame : ss = q := by
      refine hS.ordered.eq_of_in (a := n - 1) hss hqS ⟨?_, ?_⟩ ⟨?_, ?_⟩
      · show ss.vmStart ≤ n - 1
        omega
      · show n - 1 < ss.vmEnd
        omega
      · show q.vmStart ≤ n - 1
        omega
      · show n - 1 < q.vmEnd
        omega
    subst hsame
    exact ⟨hinS, ss, Q', rfl, hend, hanon, hprot⟩
  · rintro ⟨-, q, Q', rfl, hend, hanon, hprot⟩
    exact ⟨q, by simp [h.split], hend, hanon, hprot⟩

section
variable (h : Walked vmas allVmas ops fresh L R P Q s) (hS : SnapshotVmasOk allVmas) (e : Ends s R Q x y n)
  (hne : R ≠ [] ∨ Q ≠ []) (hcn : s.cursor ≤ n)
include h hS e hne hcn

/-- A round after whose call the list is as `Walked.next` wants it. -/
theorem Walked.proceeds {vm : σ} (hregion : sweepRegion ops s n = (vm, none)) (hlist : ops.vmas vm = L' ++ R')
    (hok : VmasOk (fresh vm) (L' ++ R')) (hbelow : ∀ v ∈ L', v.vmEnd ≤ n)
    (hinV : At (if n = x then !s.inVmas else s.inVmas) n R')
    (hhead : R'.map VmArea.id = (if n = x then rest s.inVmas R else R).map VmArea.id)
    (hahead : Ahead vmas allVmas n (if n = x then !s.inVmas else s.inVmas) R')
    (hsame : s.inVmas = false → s.inSsVmas = false → R' = R)
    (hending : (if n = x then !s.inVmas else s.inVmas) = false →
      ∀ prot, (∃ v ∈ L', v.vmEnd = n ∧ v.Alike prot) ↔ EndsAlike vmas allVmas n prot) :
    Proceeds vmas allVmas ops fresh maps (roundsAhead R Q s.inVmas s.inSsVmas) s.cursor s := by
  obtain ⟨-, hx, hy⟩ := h.next_lt hS hne e
  have hiter : (if n = x ∧ s.inVmas then R.tail.head?.map VmArea.id else R.head?.map VmArea.id) =
      R'.head?.map VmArea.id := by
    rw [← List.head?_map, ← List.head?_map, ← List.head?_map, hhead]
    by_cases hnx : n = x
    · cases hin : s.inVmas <;> simp [hnx, rest]
    · simp [hnx]
  have hlen : R'.length = (if n = x then rest s.inVmas R else R).length := by
    simpa using congrArg List.length hhead
  obtain ⟨P', hnext⟩ := h.next hS hne e hcn hlist hok hbelow hinV hiter hahead hsame hending
  refine Or.inr ⟨_, _, _, ?_, le_max_right _ _, ?_, .walked hnext⟩
  · exact roundsAhead_next hx hy e.choice hlen
  · rw [h.step_eq hne e, hregion]

variable (maps) in
/-- A round without a call. -/
theorem Walked.proceeds_quiet (hregion : sweepRegion ops s n = (s.vm, none))
    (hquiet : s.cursor < n → s.inVmas = false → s.inSsVmas = true → ∀ q Q', Q = q :: Q' → q.isAnonymousPrivate = false)
    (hbusy : s.cursor < n → s.inVmas = true → s.inSsVmas = true) (hV : Ordered vmas) :
    Proceeds vmas allVmas ops fresh maps (roundsAhead R Q s.inVmas s.inSsVmas) s.cursor s := by
  obtain ⟨-, hx, hy⟩ := h.next_lt hS hne e
  obtain ⟨L', hlist, hbelow, hL'⟩ : ∃ L', L ++ R = (L' ++ if n = x then rest s.inVmas R else R) ∧ (∀ v ∈ L', v.vmEnd ≤ n) ∧
      (L' = L ∨ n = x ∧ s.inVmas = true ∧ ∃ v, R.head? = some v ∧ L' = L ++ [v]) := by
    have hold : ∀ v ∈ L, v.vmEnd ≤ n := fun v hv => le_trans (h.below v hv) hcn
    by_cases hnx : n = x
    swap
    · rw [if_neg hnx]
      exact ⟨L, rfl, hold, Or.inl rfl⟩
    rw [if_pos hnx]
    obtain ⟨v, R₁, rfl⟩ := List.exists_cons_of_ne_nil (hx hnx)
    cases hin : s.inVmas with
    | false => exact ⟨L, rfl, hold, Or.inl rfl⟩
    | true =>
      refine ⟨L ++ [v], by simp [rest], fun w hw => ?_, Or.inr ⟨hnx, rfl, v, rfl, rfl⟩⟩
      rcases List.mem_append.mp hw with hw | hw
      · exact hold w hw
      · rw [List.mem_singleton.mp hw]
        exact (hnx.trans (e.vma_eq hin)).ge
  have hsame : s.inVmas = false → s.inSsVmas = false → (if n = x then rest s.inVmas R else R) = R := fun hin _ => by
    rw [hin]
    split <;> rfl
  refine h.proceeds hS e hne hcn hregion (h.list.trans hlist) (hlist ▸ h.ok) hbelow (h.inV_next hS hne e hcn) rfl
    (h.ahead.next e hcn hx) hsame fun hout prot => ?_
  by_cases hnx : n = x
  · -- The cursor leaves a VMA.
    rw [if_pos hnx] at hout
    have hin : s.inVmas = true := by simpa using hout
    obtain ⟨v, R₁, rfl⟩ := (hin ▸ h.inV).ne_nil
    have hlt : s.cursor < n := (hnx.trans (e.vma_eq hin)) ▸ (h.at_vma hin).2
    rcases hL' with rfl | ⟨-, -, w, hw, rfl⟩
    · exact absurd hlist (by simp [hnx, hin, rest])
    · obtain rfl : v = w := Option.some.inj hw
      exact h.ending_vma hV hS e hin (hbusy hlt hin) hnx prot
  · rw [if_neg hnx] at hout
    obtain rfl : L' = L := hL'.resolve_right fun hl => hnx hl.1
    rcases Nat.eq_or_lt_of_le hcn with heq | hlt
    · rw [← heq]
      exact h.ending hout prot
    · rw [h.ending_hole hV hS e hout hlt]
      refine iff_of_false (h.no_end hlt prot) ?_
      rintro ⟨hinS, q, Q', hQ, -, hanon, -⟩
      rw [hquiet hlt hout hinS q Q' hQ] at hanon
      cases hanon

/-- The hole below the next end, in an anonymous private snapshot VMA, is mapped, or the call fails. -/
theorem Walked.proceeds_mmap (hops : Edits ops fresh maps) (hmaps : ∀ {prot g l₁ l₂ l}, maps prot g l₁ l₂ l → Joined prot g l₁ l₂ l)
    (hV : Ordered vmas) {q : SnapshotVma} {Q' : List SnapshotVma} (hQ : Q = q :: Q') (hout : s.inVmas = false)
    (hin : s.inSsVmas = true) (hanon : q.isAnonymousPrivate = true) (hlt : s.cursor < n) :
    Proceeds vmas allVmas ops fresh maps (roundsAhead R Q s.inVmas s.inSsVmas) s.cursor s := by
  have hnd := h.next_dvd hS hne e
  obtain ⟨hntop, hxR, hyQ⟩ := h.next_lt hS hne e
  have hregion : sweepRegion ops s n = ((ops.mmap s.cursor (n - s.cursor) q.prot s.vm).1,
      if (ops.mmap s.cursor (n - s.cursor) q.prot s.vm).2 = some s.cursor then none else some 0) := by
    simp [sweepRegion, hlt.ne', hout, hin, h.ssIter, hQ, hanon]
  by_cases hres : (ops.mmap s.cursor (n - s.cursor) q.prot s.vm).2 = some s.cursor
  swap
  · rw [if_neg hres] at hregion
    exact Or.inl ⟨_, _, by rw [h.step_eq hne e, hregion]⟩
  rw [if_pos hres] at hregion
  have hx : x = nextPos ulongMax false R := by rw [e.vma, hout]
  have hR : ∀ w ∈ R, n ≤ w.vmStart := fun w hw => le_trans (e.next ▸ min_le_left _ _) (hx ▸ nextPos_le_lo h.orderedV hw)
  have hok : VmasOk (fresh s.vm) (L ++ R) := h.ok
  obtain ⟨hmapped, hfresh⟩ := hops.mmap s.vm s.cursor n q.prot L R (h.list ▸ hok) h.dvd hnd hlt h.list h.below hR hres
  have hjoined := hmaps hmapped
  have hok' := hjoined.vmasOk hok h.dvd hnd hlt hntop h.below hR
  have hrest : (if n = x then rest s.inVmas R else R) = R := by
    rw [hout]
    split <;> rfl
  have hnext := h.inV_next hS hne e hcn
  have hahead := h.ahead.next e hcn hxR
  rw [hrest] at hnext hahead
  have hat : q.vmStart ≤ s.cursor ∧ s.cursor < q.vmEnd := by
    have hat := h.inS
    rw [hQ, hin] at hat
    exact hat
  have hqn : n ≤ q.vmEnd := by
    have hy : y = q.vmEnd := by
      rw [e.ssVma, hQ, hin]
      rfl
    exact hy ▸ e.next ▸ min_le_right _ _
  have hqS : q ∈ allVmas := by simp [h.split, hQ]
  have hhole : ∀ a, s.cursor ≤ a → a < n → ¬Covers vmas a := fun a h1 h2 => by
    rw [h.covers_vmas e h1 h2, hout]
    exact Bool.false_ne_true
  rcases hjoined.shape hlt h.below with ⟨L', hl, hbelow, hend⟩ | ⟨w, R₁, rfl, hw, hprot, hl⟩ |
    ⟨L₁, v, w, R₁, rfl, rfl, hv, hw, hvprot, hwprot, hl⟩
  · rw [hl] at hok'
    refine h.proceeds hS e hne hcn hregion hl (hfresh ▸ hok') hbelow hnext (by rw [hrest]) hahead
      (fun _ hfalse => absurd (hfalse.symm.trans hin) Bool.false_ne_true) fun hnx prot => ?_
    have hny : n = y := by
      refine e.choice.resolve_left fun hx => ?_
      rw [if_pos hx, hout] at hnx
      cases hnx
    have hqend : q.vmEnd = n := by
      rw [hny, e.ssVma, hQ, hin]
      rfl
    rw [hend, h.ending_hole hV hS e hout hlt]
    constructor
    · exact fun hp => ⟨hin, q, Q', hQ, hqend, hanon, hp⟩
    · rintro ⟨-, q₁, Q₁, hQ₁, -, -, hp⟩
      obtain ⟨rfl, -⟩ := List.cons.inj (hQ.symm.trans hQ₁)
      exact hp
  · -- The VMA above the hole grows downwards.
    have hnx : n = x := by
      rw [hx]
      exact hw.symm
    obtain ⟨L₀, R₀, hvmas, hL₀, heq⟩ : ∃ L₀ R₀, vmas = L₀ ++ R₀ ∧ (∀ v ∈ L₀, v.vmEnd ≤ s.cursor) ∧ w :: R₁ = R₀ := by
      have hahead := h.ahead
      rw [hout] at hahead
      exact hahead
    subst heq
    have hwend : n < w.vmEnd := by
      have hpos : w.vmStart < w.vmEnd := h.orderedV.head_pos
      omega
    rw [hl] at hok'
    refine h.proceeds hS e hne hcn hregion hl (hfresh ▸ hok') (fun v hv => le_trans (h.below v hv) hcn) ?_ ?_ ?_
      (fun _ hfalse => absurd (hfalse.symm.trans hin) Bool.false_ne_true) fun hfalse => ?_
    · rw [if_pos hnx, hout]
      exact ⟨hlt.le, hwend⟩
    · rw [hrest]
      rfl
    · rw [if_pos hnx, hout]
      refine ⟨L₀, w :: R₁, hvmas, fun v hv => le_trans (hL₀ v hv) hcn, w, _, R₁, rfl, rfl, ⟨rfl, rfl, rfl⟩, hw.le, ?_⟩
      refine Or.inr (Or.inr ⟨by show s.cursor < w.vmStart; omega, q, hqS, hanon, hprot, by omega, by omega, ?_⟩)
      exact hhole _ (by omega) (by omega)
    · rw [if_pos hnx, hout] at hfalse
      cases hfalse
  · -- The VMA above the hole is freed, and the loop holds it.
    have hnx : n = x := by
      rw [hx]
      exact hw.symm
    have hwV : w ∈ vmas := by
      have hahead := h.ahead
      rw [hout] at hahead
      obtain ⟨L₀, R₀, hvmas, -, heq⟩ := hahead
      have heq : w :: R₁ = R₀ := heq
      rw [hvmas, ← heq]
      simp
    have hends : EndsAlike vmas allVmas s.cursor q.prot := (h.ending hout q.prot).mp ⟨v, by simp, hv, hvprot⟩
    have hhole : Hole vmas allVmas w q s.cursor :=
      ⟨hwV, hqS, hanon, hat.1, by omega, by omega, fun a h1 h2 => hhole a h1 (by omega)⟩
    refine Or.inr ⟨0, 0, _, ?_, Nat.zero_le _, by rw [h.step_eq hne e, hregion], .freed hmapped List.mem_cons_self ?_ ?_
      (Or.inl ⟨w, q, s.cursor, hhole, hwprot, hends⟩)⟩
    · simp [roundsAhead, endsOf, hout]
    · simp [hnx, hout]
    · rw [hl]
      exact freed_of_ids h.ok.ids

end

/-- What ends at the next end where the cursor leaves memory that is unmapped. -/
theorem Walked.ending_unmapped (h : Walked vmas allVmas ops fresh L (v :: R) P Q s) (hS : SnapshotVmasOk allVmas)
    (e : Ends s (v :: R) Q x y n) (hin : s.inVmas = true) (hout : s.inSsVmas = false) (hlt : s.cursor < n) {f : Nat} (prot : Nat) :
    (∃ w ∈ L ++ unmapVma s.cursor n f v, w.vmEnd = n ∧ w.Alike prot) ↔ EndsAlike vmas allVmas n prot := by
  refine iff_of_false ?_ ?_
  · rintro ⟨w, hw, hend, hprot⟩
    rcases List.mem_append.mp hw with hw | hw
    · exact h.no_end hlt prot ⟨w, hw, hend, hprot⟩
    · have hpos := (unmapVma_within h.orderedV.head_pos hw).2.1
      have hcov : Covers (unmapVma s.cursor n f v) (n - 1) := by
        refine ⟨w, hw, ?_, ?_⟩
        · show w.vmStart ≤ n - 1
          omega
        · show n - 1 < w.vmEnd
          omega
      exact ((covers_unmapVma hlt).mp hcov).2 ⟨by omega, by omega⟩
  · rw [endsAlike_mapped ((h.covers_vmas e (by omega) (by omega)).mpr hin), h.covers_ssVmas e hS (by omega) (by omega), hout]
    exact fun hends => Bool.false_ne_true hends.1

/-- The VMA that the cursor is in is cut in two by a gap. -/
theorem Walked.cut (h : Walked vmas allVmas ops fresh L (v :: R) P Q s) (hS : SnapshotVmasOk allVmas)
    (e : Ends s (v :: R) Q x y n) (hin : s.inVmas = true) (hout : s.inSsVmas = false) (hlt : s.cursor < n) (hnx : n ≠ x)
    (hstart : v.vmStart < s.cursor) {vm : σ} {f : Nat}
    (hlist : ops.vmas vm = L ++ { v with vmEnd := s.cursor } :: { v with id := f, vmStart := n } :: R)
    (hok : VmasOk (fresh vm) (L ++ { v with vmEnd := s.cursor } :: { v with id := f, vmStart := n } :: R)) :
    ∃ q Q' P', Q = q :: Q' ∧
      Cut vmas allVmas ops fresh L { v with vmEnd := s.cursor } { v with id := f, vmStart := n } R P' q Q' vm := by
  have hne : v :: R ≠ [] ∨ Q ≠ [] := Or.inl (List.cons_ne_nil _ _)
  have hny : n = y := e.choice.resolve_left hnx
  have hnv : n < v.vmEnd := lt_of_le_of_ne (e.le_vma hin) (e.vma_eq hin ▸ hnx)
  obtain ⟨q, Q', rfl⟩ := List.exists_cons_of_ne_nil ((h.next_lt hS hne e).2.2 hny)
  have hq : n = q.vmStart := by
    rw [hny, e.ssVma, hout]
    rfl
  have hqS : q ∈ allVmas := by simp [h.split]
  have hahead := h.ahead
  rw [hin] at hahead
  obtain ⟨L₀, v₀, hvmas, hL₀, hr⟩ := hahead.inside
  have hv₀ : v₀ ∈ vmas := by simp [hvmas]
  have hentered := hr.entered
  have hend := hr.same.1
  have hassoc : L ++ { v with vmEnd := s.cursor } :: { v with id := f, vmStart := n } :: R =
      (L ++ [{ v with vmEnd := s.cursor }]) ++ { v with id := f, vmStart := n } :: R := by simp
  have hinV : At (if n = x then !s.inVmas else s.inVmas) n ({ v with id := f, vmStart := n } :: R) := by
    rw [if_neg hnx, hin]
    exact ⟨le_rfl, hnv⟩
  have hbelow : ∀ w ∈ L ++ [{ v with vmEnd := s.cursor }], w.vmEnd ≤ n := fun w hw => by
    rcases List.mem_append.mp hw with hw | hw
    · exact le_trans (h.below w hw) hlt.le
    · rw [List.mem_singleton.mp hw]
      exact hlt.le
  have hremains : Ahead vmas allVmas n (if n = x then !s.inVmas else s.inVmas) ({ v with id := f, vmStart := n } :: R) := by
    rw [if_neg hnx, hin]
    refine ⟨L₀, v₀ :: R, hvmas, fun w hw => le_trans (hL₀ w hw) hlt.le, v₀, _, R, rfl, rfl, hr.same, by omega, ?_⟩
    exact Or.inr (Or.inl ⟨by show v₀.vmStart < n; omega, Or.inr ⟨q, hqS, hq⟩⟩)
  obtain ⟨P', hthere⟩ := h.next hS hne e hlt.le (hlist.trans hassoc) (hassoc ▸ hok) hbelow hinV rfl hremains
    (fun hfalse => absurd (hfalse.symm.trans hin) Bool.false_ne_true) fun hfalse => by
      rw [if_neg hnx, hin] at hfalse
      cases hfalse
  simp only [hnx, hin, hout, ← hny, ↓reduceIte, Bool.not_false] at hthere
  -- The gap starts where a snapshot VMA ends.
  obtain ⟨prev, hprev, hprevEnd⟩ := h.lower hin hout v rfl hstart
  have hprevS : prev ∈ allVmas := by
    rw [h.split]
    exact List.mem_append_left _ hprev
  have hprevPos : prev.vmStart < prev.vmEnd := hS.ordered.pos prev hprevS
  refine ⟨q, Q', P', rfl, hthere, hlt, hq.symm, ⟨rfl, rfl⟩, v₀, prev, ⟨hv₀, hprevS, hqS, fun ss hss => ?_, by omega, by omega, ?_⟩,
    hprevEnd, hr.same.2⟩
  · rcases List.mem_append.mp (h.split ▸ hss) with hss | hss
    · exact Or.inl (hprevEnd ▸ h.ssBelow ss hss)
    · refine Or.inr ?_
      rcases List.mem_cons.mp hss with rfl | hss
      · exact le_rfl
      · exact le_trans (hS.ordered.pos q hqS).le ((h.orderedS hS).head_le hss)
  · rw [hprevEnd]
    rcases hr.start with heq | ⟨hup, -⟩ | ⟨-, ss, hss, hlowers⟩
    · exact Or.inl (heq ▸ hstart)
    · exact Or.inl (lt_trans hup hstart)
    rcases Nat.eq_or_lt_of_le hr.entered with heq | hlow
    swap
    · exact Or.inl hlow
    -- The VMA started at the cursor, and what was mapped below it has been joined with it.
    obtain ⟨hanon, hprot, hss₁, hss₂, hno⟩ := hlowers
    have hsame : ss = prev := by
      refine hS.ordered.eq_of_in (a := s.cursor - 1) hss hprevS ⟨?_, ?_⟩ ⟨?_, ?_⟩
      · show ss.vmStart ≤ s.cursor - 1
        omega
      · show s.cursor - 1 < ss.vmEnd
        omega
      · show prev.vmStart ≤ s.cursor - 1
        omega
      · show s.cursor - 1 < prev.vmEnd
        omega
    exact Or.inr ⟨heq, hsame ▸ ⟨hanon, hprot, hss₁, hss₂, hno⟩⟩

/-- The VMA that the cursor is in is unmapped up to the next end, or the call fails. -/
theorem Walked.proceeds_munmap (h : Walked vmas allVmas ops fresh L (v :: R) P Q s) (hops : Edits ops fresh maps)
    (hS : SnapshotVmasOk allVmas) (e : Ends s (v :: R) Q x y n) (hin : s.inVmas = true) (hout : s.inSsVmas = false)
    (hlt : s.cursor < n) : Proceeds vmas allVmas ops fresh maps (roundsAhead (v :: R) Q s.inVmas s.inSsVmas) s.cursor s := by
  have hne : v :: R ≠ [] ∨ Q ≠ [] := Or.inl (List.cons_ne_nil _ _)
  have hnd := h.next_dvd hS hne e
  have hnv := e.le_vma hin
  have hregion : sweepRegion ops s n = ((ops.munmap s.cursor (n - s.cursor) s.vm).1,
      if (ops.munmap s.cursor (n - s.cursor) s.vm).2 = 0 then none else some (ops.munmap s.cursor (n - s.cursor) s.vm).2) := by
    simp [sweepRegion, hlt.ne', hin, hout]
  by_cases hres : (ops.munmap s.cursor (n - s.cursor) s.vm).2 = 0
  swap
  · rw [if_neg hres] at hregion
    exact Or.inl ⟨_, _, by rw [h.step_eq hne e, hregion]⟩
  rw [if_pos hres] at hregion
  have hok : VmasOk (fresh s.vm) (L ++ v :: R) := h.ok
  obtain ⟨hlist, hfresh⟩ := hops.munmap s.vm s.cursor n (h.list ▸ hok) h.dvd hnd hlt hres
  have hok' := hok.unmap h.dvd hnd hlt
  rw [h.list, h.unmapVmas_eq hnv] at hlist
  rw [h.unmapVmas_eq hnv, ← hfresh] at hok'
  have hahead := h.ahead
  rw [hin] at hahead
  have hsame : s.inVmas = false → s.inSsVmas = false → ∀ {R' : List VmArea}, R' = v :: R := fun hfalse =>
    absurd (hfalse.symm.trans hin) Bool.false_ne_true
  by_cases hnx : n = x
  · -- The cursor leaves the VMA.
    rw [← List.append_assoc] at hlist hok'
    refine h.proceeds hS e hne hlt.le hregion hlist hok' (fun w hw => ?_) ?_ ?_ ?_ (fun h1 h2 => hsame h1 h2) fun _ =>
      h.ending_unmapped hS e hin hout hlt
    · rcases List.mem_append.mp hw with hw | hw
      · exact le_trans (h.below w hw) hlt.le
      · rw [hnx, e.vma_eq hin]
        exact (unmapVma_within h.orderedV.head_pos hw).2.2.1
    · have hnext := h.inV_next hS hne e hlt.le
      rw [if_pos hnx, hin] at hnext ⊢
      rw [if_pos hnx] at hnext
      exact hnext
    · rw [if_pos hnx, hin]
      rfl
    · rw [if_pos hnx, hin]
      exact hahead.leave hlt.le (hnx.trans (e.vma_eq hin)).ge
  have hnv : n < v.vmEnd := lt_of_le_of_ne hnv (e.vma_eq hin ▸ hnx)
  have hny : n = y := e.choice.resolve_left hnx
  rcases Nat.eq_or_lt_of_le (h.at_vma hin).1 with hstart | hstart
  · -- The VMA loses what lies before a snapshot VMA.
    have hpart : unmapVma s.cursor n (fresh s.vm) v = [{ v with vmStart := n }] := by
      rw [unmapVma, if_neg (by omega), if_neg (by omega), if_pos hnv]
    rw [hpart] at hlist hok'
    obtain ⟨L₀, v₀, hvmas, hL₀, hr⟩ := hahead.inside
    have hentered := hr.entered
    obtain ⟨q, Q', rfl⟩ := List.exists_cons_of_ne_nil ((h.next_lt hS hne e).2.2 hny)
    have hq : n = q.vmStart := by
      rw [hny, e.ssVma, hout]
      rfl
    refine h.proceeds hS e hne hlt.le hregion hlist hok' (fun w hw => le_trans (h.below w hw) hlt.le) ?_ ?_ ?_
      (fun h1 h2 => hsame h1 h2) fun hfalse => ?_
    · rw [if_neg hnx, hin]
      exact ⟨le_rfl, hnv⟩
    · rw [if_neg hnx]
      rfl
    · rw [if_neg hnx, hin]
      refine ⟨L₀, v₀ :: R, hvmas, fun w hw => le_trans (hL₀ w hw) hlt.le, v₀, _, R, rfl, rfl, hr.same, by omega, ?_⟩
      exact Or.inr (Or.inl ⟨by show v₀.vmStart < n; omega, Or.inr ⟨q, by simp [h.split], hq⟩⟩)
    · rw [if_neg hnx, hin] at hfalse
      cases hfalse
  · -- The VMA is cut in two, and the loop holds the lower part.
    have hpart : unmapVma s.cursor n (fresh s.vm) v =
        [{ v with vmEnd := s.cursor }, { v with id := fresh s.vm, vmStart := n }] := by
      rw [unmapVma, if_neg (by omega), if_pos hstart, if_pos hnv]
    rw [hpart] at hlist hok'
    obtain ⟨q, Q', P', rfl, hcut⟩ := h.cut hS e hin hout hlt hnx hstart hlist hok'
    refine Or.inr ⟨_, n, _, ?_, ?_, ?_, .back hcut⟩
    · simp only [roundsAhead, endsOf, hin, hout, List.length_cons, Bool.toNat_true, Bool.toNat_false]
      omega
    · exact le_max_right _ _
    · rw [h.step_eq hne e, hregion]
      simp only [hnx, hin, hout, ← hny, false_and, ↓reduceIte, Bool.not_false]
      rfl

/-- A round from an end of a VMA. -/
theorem Walked.round (h : Walked vmas allVmas ops fresh L R P Q s) (hops : Edits ops fresh maps)
    (hmaps : ∀ {prot g l₁ l₂ l}, maps prot g l₁ l₂ l → Joined prot g l₁ l₂ l) (hV : Ordered vmas) (hS : SnapshotVmasOk allVmas)
    (hne : R ≠ [] ∨ Q ≠ []) : Proceeds vmas allVmas ops fresh maps (roundsAhead R Q s.inVmas s.inSsVmas) s.cursor s := by
  obtain ⟨x, y, n, e⟩ := ends_exist s R Q
  have hcn := h.cursor_le hS h.top.le e
  rcases Nat.eq_or_lt_of_le hcn with heq | hlt
  · have hregion : sweepRegion ops s n = (s.vm, none) := by
      rw [← heq]
      simp [sweepRegion]
    exact h.proceeds_quiet maps hS e hne hcn hregion (fun hlt => absurd heq hlt.ne) (fun hlt => absurd heq hlt.ne) hV
  cases hin : s.inVmas with
  | true =>
    cases hinS : s.inSsVmas with
    | true =>
      have hregion : sweepRegion ops s n = (s.vm, none) := by simp [sweepRegion, hin, hinS]
      have hround := h.proceeds_quiet maps hS e hne hcn hregion (fun _ hfalse => absurd (hfalse.symm.trans hin) Bool.false_ne_true)
        (fun _ _ => hinS) hV
      rwa [hin, hinS] at hround
    | false =>
      obtain ⟨v, R₁, rfl⟩ := (hin ▸ h.inV).ne_nil
      have hround := h.proceeds_munmap hops hS e hin hinS hlt
      rwa [hin, hinS] at hround
  | false =>
    have hbusy : s.cursor < n → s.inVmas = true → s.inSsVmas = true := fun _ htrue => absurd (hin.symm.trans htrue) Bool.false_ne_true
    cases hinS : s.inSsVmas with
    | true =>
      obtain ⟨q, Q', hQ⟩ := (hinS ▸ h.inS).ne_nil
      cases hanon : q.isAnonymousPrivate with
      | true =>
        have hround := h.proceeds_mmap hS e hne hcn hops hmaps hV hQ hin hinS hanon hlt
        rwa [hin, hinS] at hround
      | false =>
        have hregion : sweepRegion ops s n = (s.vm, none) := by simp [sweepRegion, hin, hinS, h.ssIter, hQ, hanon]
        have hround := h.proceeds_quiet maps hS e hne hcn hregion (fun _ _ _ q₁ Q₁ hQ₁ => by
          obtain ⟨rfl, -⟩ := List.cons.inj (hQ.symm.trans hQ₁)
          exact hanon) hbusy hV
        rwa [hin, hinS] at hround
    | false =>
      have hregion : sweepRegion ops s n = (s.vm, none) := by simp [sweepRegion, hin, hinS]
      have hround := h.proceeds_quiet maps hS e hne hcn hregion
        (fun _ _ htrue => absurd (hinS.symm.trans htrue) Bool.false_ne_true) hbusy hV
      rwa [hin, hinS] at hround

/-! ### Rounds after a cut -/

section
variable {lower upper : VmArea} {q : SnapshotVma} {Q' : List SnapshotVma} {vm : σ}
variable (h : Cut vmas allVmas ops fresh L lower upper R P q Q' vm)
include h

theorem Cut.list : ops.vmas vm = L ++ lower :: upper :: R := by
  have hlist : ops.vmas vm = (L ++ [lower]) ++ upper :: R := h.there.list
  rw [hlist, List.append_assoc]
  rfl

theorem Cut.ok : VmasOk (fresh vm) (L ++ lower :: upper :: R) := by
  have hok : VmasOk (fresh vm) ((L ++ [lower]) ++ upper :: R) := h.there.ok
  rwa [List.append_assoc] at hok

theorem Cut.lt_end : upper.vmStart < q.vmEnd := h.there.inS.2

/-- The lower part is at or above the start of the VMA that was cut. -/
theorem Cut.remains (hV : Ordered vmas) : ∃ L₀ v₀, vmas = L₀ ++ v₀ :: R ∧ (∀ w ∈ L₀, w.vmEnd ≤ upper.vmStart) ∧
    Remains vmas allVmas upper.vmStart v₀ upper ∧ v₀.vmStart ≤ lower.vmEnd := by
  obtain ⟨L₀, v₀, hvmas, hL₀, hr⟩ := h.there.ahead.inside
  obtain ⟨v, prev, hcuts, hprev, -⟩ := h.cuts
  have hv : v.vmStart ≤ lower.vmEnd := by
    rcases hcuts.lower with hlow | ⟨heq, -⟩
    · omega
    · omega
  have hgap := h.gap
  have hupper := hcuts.upper
  have hstart := h.start
  have hend := hr.same.1
  have hpos : upper.vmStart < upper.vmEnd := h.there.inV.2
  have hsame : v = v₀ := by
    refine hV.eq_of_in (a := upper.vmStart) hcuts.mem (by simp [hvmas]) ⟨?_, ?_⟩ ⟨hr.entered, ?_⟩
    · show v.vmStart ≤ upper.vmStart
      omega
    · show upper.vmStart < v.vmEnd
      omega
    · show upper.vmStart < v₀.vmEnd
      omega
  exact ⟨L₀, v₀, hvmas, hL₀, hr, hsame ▸ hv⟩

theorem Cut.back : Proceeds vmas allVmas ops fresh maps (roundsAhead (upper :: R) (q :: Q') true true + 2) upper.vmStart
    ⟨vm, some lower.id, q :: Q', upper.vmStart, true, true⟩ :=
  Or.inr ⟨_, _, _, Nat.lt_succ_self _, le_max_left _ _, sweepStep_back h.list h.ok.ids h.gap h.lt_end, .forth h⟩

/-- In the gap nothing is mapped, or it is mapped again. -/
theorem Cut.forth (hops : Edits ops fresh maps) (hmaps : ∀ {prot g l₁ l₂ l}, maps prot g l₁ l₂ l → Joined prot g l₁ l₂ l)
    (hV : Ordered vmas) : Proceeds vmas allVmas ops fresh maps (roundsAhead (upper :: R) (q :: Q') true true + 1) upper.vmStart
      ⟨vm, some upper.id, q :: Q', lower.vmEnd, false, true⟩ := by
  have hstep := @sweepStep_forth σ ops vm lower upper L R q Q' h.list h.ok.ids h.lt_end
  have hgap := h.gap
  cases hanon : q.isAnonymousPrivate with
  | false =>
    have hregion : sweepRegion ops ⟨vm, some upper.id, q :: Q', lower.vmEnd, false, true⟩ upper.vmStart = (vm, none) := by
      simp [sweepRegion, hanon]
    rw [hregion] at hstep
    exact Or.inr ⟨_, _, _, Nat.lt_succ_self _, le_max_left _ _, hstep, .walked h.there⟩
  | true =>
    have hregion : sweepRegion ops ⟨vm, some upper.id, q :: Q', lower.vmEnd, false, true⟩ upper.vmStart =
        ((ops.mmap lower.vmEnd (upper.vmStart - lower.vmEnd) q.prot vm).1,
          if (ops.mmap lower.vmEnd (upper.vmStart - lower.vmEnd) q.prot vm).2 = some lower.vmEnd then none else some 0) := by
      simp [sweepRegion, hanon, hgap.ne']
    by_cases hres : (ops.mmap lower.vmEnd (upper.vmStart - lower.vmEnd) q.prot vm).2 = some lower.vmEnd
    swap
    · rw [hregion, if_neg hres] at hstep
      exact Or.inl ⟨_, _, hstep⟩
    rw [hregion, if_pos hres] at hstep
    have hlist : ops.vmas vm = (L ++ [lower]) ++ upper :: R := h.there.list
    have hok : VmasOk (fresh vm) ((L ++ [lower]) ++ upper :: R) := h.there.ok
    have hlow : VmasOk (fresh vm) (L ++ lower :: upper :: R) := h.ok
    have hbelow : ∀ w ∈ L ++ [lower], w.vmEnd ≤ lower.vmEnd := fun w hw => by
      rcases List.mem_append.mp hw with hw | hw
      · have hle : w.vmEnd ≤ lower.vmStart := (Ordered.append_iff.mp hlow.ordered).2.2 w hw lower List.mem_cons_self
        have hpos : lower.vmStart < lower.vmEnd := hlow.ordered.pos lower (by simp)
        omega
      · rw [List.mem_singleton.mp hw]
    have habove : ∀ w ∈ upper :: R, upper.vmStart ≤ w.vmStart := fun w hw => by
      rcases List.mem_cons.mp hw with rfl | hw
      · exact le_rfl
      · exact le_trans (h.there.inV.2).le (h.there.orderedV.head_le hw)
    have hdl : pageSize ∣ lower.vmEnd := (hlow.aligned lower (by simp)).2
    obtain ⟨hmapped, hfresh⟩ := hops.mmap vm lower.vmEnd upper.vmStart q.prot _ _ (hlist ▸ hok) hdl h.there.dvd hgap hlist hbelow
      habove hres
    have hjoined := hmaps hmapped
    have hok' := hjoined.vmasOk hok hdl h.there.dvd hgap h.there.top hbelow habove
    rw [← hfresh] at hok'
    rcases hjoined.shape hgap hbelow with ⟨L', hl, hbelow', -⟩ | ⟨w, R₁, heq, hw, hprot, hl⟩ |
      ⟨L₁, v, w, R₁, hleft, heq, hv, hw, hvprot, hwprot, hl⟩
    · have hwalked : Walked vmas allVmas ops fresh L' (upper :: R) P (q :: Q')
          ⟨(ops.mmap lower.vmEnd (upper.vmStart - lower.vmEnd) q.prot vm).1, some upper.id, q :: Q', upper.vmStart, true, true⟩ :=
        ⟨⟨hl, hl ▸ hok', rfl, rfl, h.there.split, h.there.dvd, hbelow', h.there.ssBelow, h.there.inV, h.there.inS⟩,
          h.there.top, h.there.ahead, by simp, by simp⟩
      exact Or.inr ⟨_, _, _, Nat.lt_succ_self _, le_max_left _ _, hstep, .walked hwalked⟩
    · obtain ⟨rfl, rfl⟩ := List.cons.inj heq
      obtain ⟨L₀, v₀, hvmas, hL₀, hr, hv₀⟩ := h.remains hV
      have hremains : Remains vmas allVmas upper.vmStart v₀ { upper with vmStart := lower.vmEnd } := by
        refine ⟨hr.same, hr.entered, ?_⟩
        rcases Nat.eq_or_lt_of_le hv₀ with heq | hlt
        · exact Or.inl heq.symm
        · exact Or.inr (Or.inl ⟨hlt, Or.inl hgap⟩)
      have hwalked : Walked vmas allVmas ops fresh (L ++ [lower]) ({ upper with vmStart := lower.vmEnd } :: R) P (q :: Q')
          ⟨(ops.mmap lower.vmEnd (upper.vmStart - lower.vmEnd) q.prot vm).1, some upper.id, q :: Q', upper.vmStart, true, true⟩ :=
        ⟨⟨hl, hl ▸ hok', rfl, rfl, h.there.split, h.there.dvd, h.there.below, h.there.ssBelow, ⟨hgap.le, h.there.inV.2⟩,
          h.there.inS⟩, h.there.top, ⟨L₀, v₀ :: R, hvmas, hL₀, v₀, _, R, rfl, rfl, hremains⟩, by simp, by simp⟩
      refine Or.inr ⟨_, _, _, ?_, le_max_left _ _, hstep, .walked hwalked⟩
      exact Nat.lt_succ_self _
    · obtain ⟨rfl, rfl⟩ := List.cons.inj heq
      obtain ⟨v₀, prev, hcuts, -, hflags, hfile⟩ := h.cuts
      refine Or.inr ⟨0, 0, _, Nat.succ_pos _, Nat.zero_le _, hstep, .freed hmapped List.mem_cons_self rfl ?_
        (Or.inr ⟨v₀, prev, q, hcuts, hanon, hfile ▸ hwprot.1, hflags ▸ hwprot.2⟩)⟩
      rw [hl]
      rw [hleft] at hok
      exact freed_of_ids hok.ids

end

/-! ### The whole loop -/

theorem lookupVma_eq_none {l : List VmArea} {id : Nat} : lookupVma l id = none ↔ ∀ v ∈ l, v.id ≠ id := by
  induction l with
  | nil => simp [lookupVma]
  | cons v l ih =>
    rw [lookupVma, List.forall_mem_cons]
    by_cases hv : v.id = id
    · simp [hv]
    · rw [if_neg hv, ih, and_iff_right hv]

variable (ops) in
/-- The VMA that the loop holds is in the list. -/
def SweepState.Holds (s : SweepState σ) : Prop := ∀ id, s.vmaIter = some id → ∃ v ∈ ops.vmas s.vm, v.id = id

/-- The loop reads freed memory in the next round if it holds a VMA that is not in the list. -/
theorem sweepStep_oops : sweepStep ops s = .oops ↔ ¬s.Holds ops := by
  unfold sweepStep SweepState.Holds
  cases hiter : s.vmaIter with
  | none =>
    simp only [Option.map_none, reduceCtorEq, IsEmpty.forall_iff, implies_true, not_true_eq_false, iff_false]
    split
    · nofun
    · split <;> nofun
  | some id =>
    simp only [reduceCtorEq, false_and, ↓reduceIte, Option.map_some, Option.some.injEq]
    cases hv : lookupVma (ops.vmas s.vm) id with
    | none =>
      refine iff_of_true rfl fun h => ?_
      obtain ⟨v, hv', rfl⟩ := h id rfl
      exact lookupVma_eq_none.mp hv v hv' rfl
    | some r =>
      refine iff_of_false ?_ (not_not.mpr ?_)
      · dsimp only
        split <;> nofun
      · rintro _ rfl
        by_contra hno
        rw [lookupVma_eq_none.mpr fun v hv' heq => hno ⟨v, hv', heq⟩] at hv
        cases hv

theorem Stage.holds {m : Nat} (h : Stage vmas allVmas ops fresh maps m c s) : s.Holds ops ∨
    JoinsBoth vmas allVmas ∧ ∃ prot g l₁ l₂ w, maps prot g l₁ l₂ (ops.vmas s.vm) ∧ w ∈ l₂ ∧ ∀ v ∈ ops.vmas s.vm, v.id ≠ w.id := by
  cases h with
  | @walked L R P Q s h =>
    refine Or.inl fun id hid => ?_
    rw [h.iter, Option.map_eq_some_iff] at hid
    obtain ⟨v, hv, rfl⟩ := hid
    exact ⟨v, h.list ▸ List.mem_append_right _ (List.mem_of_mem_head? hv), rfl⟩
  | back h =>
    refine Or.inl fun id hid => ?_
    obtain rfl := Option.some.inj hid
    exact ⟨_, h.list ▸ by simp, rfl⟩
  | forth h =>
    refine Or.inl fun id hid => ?_
    obtain rfl := Option.some.inj hid
    exact ⟨_, h.list ▸ by simp, rfl⟩
  | freed hmaps hw hiter hfreed hjoins => exact Or.inr ⟨hjoins, _, _, _, _, _, hmaps, hw, hfreed⟩

section
variable (hops : Edits ops fresh maps) (hmaps : ∀ {prot g l₁ l₂ l}, maps prot g l₁ l₂ l → Joined prot g l₁ l₂ l)
  (hV : Ordered vmas) (hS : SnapshotVmasOk allVmas)
include hops hmaps hV hS

/-- A round from anywhere, unless the loop holds a VMA that was freed. -/
theorem Stage.round {m : Nat} (h : Stage vmas allVmas ops fresh maps m c s) (hholds : s.Holds ops) :
    Proceeds vmas allVmas ops fresh maps m c s := by
  cases h with
  | @walked L R P Q s h =>
    by_cases hne : R ≠ [] ∨ Q ≠ []
    · exact h.round hops hmaps hV hS hne
    · obtain ⟨rfl, rfl⟩ : R = [] ∧ Q = [] := by simpa [not_or] using hne
      have hiter : s.vmaIter = none := h.iter
      exact Or.inl ⟨s.vm, 0, by simp [sweepStep, hiter, h.ssIter]⟩
  | back h => exact h.back
  | forth h => exact h.forth hops hmaps hV
  | freed hmaps hw hiter hfreed =>
    obtain ⟨v, hv, hid⟩ := hholds _ hiter
    exact absurd hid (hfreed v hv)

theorem Stage.next {m : Nat} {s' : SweepState σ} (h : Stage vmas allVmas ops fresh maps m c s)
    (hstep : sweepStep ops s = .next s') : ∃ m' < m, ∃ c' ≤ max c s'.cursor, Stage vmas allVmas ops fresh maps m' c' s' := by
  have hholds : s.Holds ops := by
    by_contra hno
    rw [sweepStep_oops.mpr hno] at hstep
    cases hstep
  rcases h.round hops hmaps hV hS hholds with ⟨vm, res, hret⟩ | ⟨m', c', t, hless, hc, hnext, hstage⟩
  · rw [hret] at hstep
    cases hstep
  · obtain rfl : t = s' := by
      rw [hnext] at hstep
      exact SweepResult.next.inj hstep
    exact ⟨m', hless, c', hc, hstage⟩

/-- The loop ends where it always holds a VMA of the list. -/
theorem Stage.sweep_ends {m fuel : Nat} (h : Stage vmas allVmas ops fresh maps m c s) (hfuel : m < fuel)
    (hholds : ∀ {m c s}, Stage vmas allVmas ops fresh maps m c s → s.Holds ops) : ∃ vm res, sweep ops fuel s = some (vm, res) := by
  induction fuel generalizing m c s with
  | zero => omega
  | succ fuel ih =>
    rw [sweep]
    rcases h.round hops hmaps hV hS (hholds h) with ⟨vm, res, hret⟩ | ⟨m', c', t, hless, hc, hnext, hstage⟩
    · rw [hret]
      exact ⟨vm, res, rfl⟩
    · rw [hnext]
      exact ih hstage (by omega)

end

/-- The state in which the loop starts. -/
def SweepState.start (ops : VmOps σ) (allVmas : List SnapshotVma) (vm : σ) : SweepState σ :=
  ⟨vm, (ops.vmas vm).head?.map VmArea.id, allVmas, 0, false, false⟩

/-- The states that the loop comes to. -/
def SweepState.Comes (ops : VmOps σ) : SweepState σ → SweepState σ → Prop :=
  ReflTransGen fun s s' => sweepStep ops s = .next s'

theorem stage_start (maps : Nat → VmArea → List VmArea → List VmArea → List VmArea → Prop) {vm : σ}
    (hok : VmasOk (fresh vm) (ops.vmas vm)) (hS : SnapshotVmasOk allVmas) :
    Stage (ops.vmas vm) allVmas ops fresh maps (roundsAhead (ops.vmas vm) allVmas false false) 0 (.start ops allVmas vm) := by
  have hat : ∀ {α : Type} [Ranged α] (l : List α), At false 0 l := fun l => by
    cases l with
    | nil => exact rfl
    | cons _ _ => exact Nat.zero_le _
  have hplaced : Placed ops fresh allVmas [] (ops.vmas vm) [] allVmas (.start ops allVmas vm) :=
    ⟨rfl, hok, rfl, rfl, rfl, Nat.dvd_zero _, by simp, by simp, hat _, hat _⟩
  have hahead : Ahead (ops.vmas vm) allVmas 0 false (ops.vmas vm) := ⟨[], ops.vmas vm, rfl, by simp, rfl⟩
  have hpositive : ∀ prot, ¬EndsAlike (ops.vmas vm) allVmas 0 prot := by
    rintro prot (⟨v, hv, hend, -⟩ | ⟨-, ss, hss, hend, -⟩)
    · have hpos : v.vmStart < v.vmEnd := hok.ordered.pos v hv
      omega
    · have hpos : ss.vmStart < ss.vmEnd := hS.ordered.pos ss hss
      omega
  exact .walked ⟨hplaced, (by decide : 0 < ulongMax), hahead, nofun, fun _ prot => iff_of_false (by simp) (hpositive prot)⟩

theorem Stage.comes {m : Nat} {s' : SweepState σ} (hops : Edits ops fresh maps)
    (hmaps : ∀ {prot g l₁ l₂ l}, maps prot g l₁ l₂ l → Joined prot g l₁ l₂ l) (hV : Ordered vmas) (hS : SnapshotVmasOk allVmas)
    (h : Stage vmas allVmas ops fresh maps m c s) (hcomes : s.Comes ops s') :
    ∃ m' c', Stage vmas allVmas ops fresh maps m' c' s' := by
  induction hcomes with
  | refl => exact ⟨m, c, h⟩
  | tail _ hstep ih =>
    obtain ⟨m', c', hstage⟩ := ih
    obtain ⟨m'', -, c'', -, hstage⟩ := hstage.next hops hmaps hV hS hstep
    exact ⟨m'', c'', hstage⟩

/-- Where nothing is joined the loop never holds a VMA that was freed. -/
theorem Stage.holds_inserted {m : Nat} (h : Stage vmas allVmas ops fresh Inserted m c s) : s.Holds ops := by
  refine h.holds.resolve_right ?_
  rintro ⟨-, prot, g, l₁, l₂, w, hins, hw, hfreed⟩
  have hins : ops.vmas s.vm = l₁ ++ g :: l₂ := hins
  exact hfreed w (hins ▸ List.mem_append_right _ (List.mem_cons_of_mem _ hw)) rfl

/-- Where nothing is joined `restore_vmas` comes to an end, whatever of its calls fails. -/
theorem restoreVmas_returns {vm : σ} (hops : Edits ops fresh Inserted) (hok : VmasOk (fresh vm) (ops.vmas vm))
    (hS : SnapshotVmasOk allVmas) : ∃ vm' res, restoreVmas ops allVmas vm = some (vm', res) := by
  refine (stage_start Inserted hok hS).sweep_ends hops Inserted.joined hok.ordered hS ?_ Stage.holds_inserted
  simp only [roundsAhead, endsOf, sweepFuel, Bool.toNat_false]
  omega

end

end AflSnapshot
