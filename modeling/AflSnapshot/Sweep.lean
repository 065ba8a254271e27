import AflSnapshot.Pages

/-! The kernel's edits of the list of VMAs, and the sweep of `restore_vmas` over that list. -/

namespace AflSnapshot

/-! ### The list of VMAs -/

/-- What is left of a VMA when `[start, end_)` is unmapped. Where only the upper part remains the existing VMA
    becomes it; where a lower part remains the existing VMA shrinks to it, and an upper part gets a new VMA. -/
def unmapVma (start end_ fresh : Nat) (v : VmArea) : List VmArea :=
  if v.vmEnd ≤ start ∨ end_ ≤ v.vmStart then [v]
  else if v.vmStart < start then
    if end_ < v.vmEnd then [{ v with vmEnd := start }, { v with id := fresh, vmStart := end_ }]
    else [{ v with vmEnd := start }]
  else if end_ < v.vmEnd then [{ v with vmStart := end_ }]
  else []

/-- The list after `[start, end_)` is unmapped. -/
def unmapVmas (start end_ fresh : Nat) (l : List VmArea) : List VmArea := l.flatMap (unmapVma start end_ fresh)

/-- Insert a VMA in address order. -/
def insertVma (v : VmArea) : List VmArea → List VmArea
  | [] => [v]
  | w :: l => if v.vmEnd ≤ w.vmStart then v :: w :: l else w :: insertVma v l

/-- A VMA by its number, with the number of the next one (`vm_next`). -/
def lookupVma : List VmArea → Nat → Option (VmArea × Option Nat)
  | [], _ => none
  | v :: l, id => if v.id = id then some (v, l.head?.map VmArea.id) else lookupVma l id

/-- A list of VMAs as the kernel keeps it: in order, at page boundaries, in the 64-bit address space, with
    distinct numbers below the next one to be given out. -/
structure VmasOk (fresh : Nat) (l : List VmArea) : Prop where
  ordered : Spans.Ordered l
  aligned : ∀ v ∈ l, pageSize ∣ v.vmStart ∧ pageSize ∣ v.vmEnd
  top : ∀ v ∈ l, v.vmEnd < ulongMax
  ids : l.Pairwise fun v w => v.id ≠ w.id
  fresh : ∀ v ∈ l, v.id < fresh

section
variable {start end_ fresh a : Nat} {v w : VmArea} {l l₁ l₂ : List VmArea}

theorem unmapVma_of_disjoint (h : v.vmEnd ≤ start ∨ end_ ≤ v.vmStart) : unmapVma start end_ fresh v = [v] :=
  if_pos h

theorem unmapVmas_append : unmapVmas start end_ fresh (l₁ ++ l₂) =
    unmapVmas start end_ fresh l₁ ++ unmapVmas start end_ fresh l₂ := List.flatMap_append

theorem unmapVmas_of_disjoint (h : ∀ v ∈ l, v.vmEnd ≤ start ∨ end_ ≤ v.vmStart) :
    unmapVmas start end_ fresh l = l := by
  induction l with
  | nil => rfl
  | cons v l ih =>
    rw [unmapVmas, List.flatMap_cons, unmapVma_of_disjoint (h v List.mem_cons_self)]
    exact congrArg (v :: ·) (ih fun w hw => h w (List.mem_cons_of_mem _ hw))

/-- The parts of a VMA lie within it and are not empty. -/
theorem unmapVma_within (hv : v.vmStart < v.vmEnd) (hw : w ∈ unmapVma start end_ fresh v) :
    v.vmStart ≤ w.vmStart ∧ w.vmStart < w.vmEnd ∧ w.vmEnd ≤ v.vmEnd ∧
      (w.vmStart = v.vmStart ∨ w.vmStart = end_) ∧ (w.vmEnd = v.vmEnd ∨ w.vmEnd = start) ∧
      (w.id = v.id ∨ w.id = fresh ∧ v.vmStart < start ∧ end_ < v.vmEnd) := by
  unfold unmapVma at hw
  split at hw
  · rw [List.mem_singleton.mp hw]
    exact ⟨le_rfl, hv, le_rfl, Or.inl rfl, Or.inl rfl, Or.inl rfl⟩
  rename_i hmeet
  split at hw
  · rename_i hlow
    split at hw
    · rename_i hup
      rcases List.mem_cons.mp hw with rfl | hw
      · exact ⟨le_rfl, hlow, by show start ≤ _; omega, Or.inl rfl, Or.inr rfl, Or.inl rfl⟩
      · rw [List.mem_singleton.mp hw]
        exact ⟨by show _ ≤ end_; omega, hup, le_rfl, Or.inr rfl, Or.inl rfl, Or.inr ⟨rfl, hlow, hup⟩⟩
    · rw [List.mem_singleton.mp hw]
      exact ⟨le_rfl, hlow, by show start ≤ _; omega, Or.inl rfl, Or.inr rfl, Or.inl rfl⟩
  · split at hw
    · rename_i hup
      rw [List.mem_singleton.mp hw]
      exact ⟨by show _ ≤ end_; omega, hup, le_rfl, Or.inr rfl, Or.inl rfl, Or.inl rfl⟩
    · cases hw

theorem covers_unmapVma (hse : start < end_) :
    Spans.Covers (unmapVma start end_ fresh v) a ↔ Spans.In a v ∧ ¬(start ≤ a ∧ a < end_) := by
  have hin : ∀ w : VmArea, Spans.In a w ↔ w.vmStart ≤ a ∧ a < w.vmEnd := fun _ => Iff.rfl
  unfold unmapVma
  split
  · simp only [Spans.covers_cons, Spans.not_covers_nil, or_false, hin]
    omega
  split
  · split <;> simp only [Spans.covers_cons, Spans.not_covers_nil, or_false, hin] <;> omega
  · split
    · simp only [Spans.covers_cons, Spans.not_covers_nil, or_false, hin]
      omega
    · refine iff_of_false Spans.not_covers_nil ?_
      rw [hin]
      omega

theorem covers_unmapVmas (hse : start < end_) :
    Spans.Covers (unmapVmas start end_ fresh l) a ↔ Spans.Covers l a ∧ ¬(start ≤ a ∧ a < end_) := by
  induction l with
  | nil => simp [unmapVmas]
  | cons v l ih =>
    rw [unmapVmas, List.flatMap_cons, Spans.covers_append, covers_unmapVma hse, Spans.covers_cons]
    unfold unmapVmas at ih
    rw [ih]
    tauto

/-- VMAs that are cut at some points keep the list well formed. A part with a new number tells which point its VMA
    was cut at. -/
theorem VmasOk.flatMap {f : VmArea → List VmArea} {n : Nat} {p : Nat → Nat} (h : VmasOk fresh l)
    (hwithin : ∀ v ∈ l, ∀ w ∈ f v, v.vmStart ≤ w.vmStart ∧ w.vmStart < w.vmEnd ∧ w.vmEnd ≤ v.vmEnd ∧
      pageSize ∣ w.vmStart ∧ pageSize ∣ w.vmEnd)
    (hparts : ∀ v ∈ l, (f v).Pairwise fun x y => x.vmEnd ≤ y.vmStart ∧ x.id ≠ y.id)
    (hids : ∀ v ∈ l, ∀ w ∈ f v, w.id = v.id ∨ fresh ≤ w.id ∧ w.id < fresh + n ∧ v.vmStart < p w.id ∧
      p w.id < v.vmEnd) : VmasOk (fresh + n) (l.flatMap f) where
  ordered := by
    refine ⟨fun w hw => ?_, List.pairwise_flatMap.mpr ⟨fun v hv => (hparts v hv).imp fun hxy => hxy.1, ?_⟩⟩
    · obtain ⟨v, hv, hw⟩ := List.mem_flatMap.mp hw
      exact (hwithin v hv w hw).2.1
    · refine h.ordered.sorted.imp_of_mem fun {v w} hv hw hvw x hx y hy => ?_
      exact le_trans (hwithin v hv x hx).2.2.1 (le_trans hvw (hwithin w hw y hy).1)
  aligned w hw := by
    obtain ⟨v, hv, hw⟩ := List.mem_flatMap.mp hw
    exact (hwithin v hv w hw).2.2.2
  top w hw := by
    obtain ⟨v, hv, hw⟩ := List.mem_flatMap.mp hw
    exact lt_of_le_of_lt (hwithin v hv w hw).2.2.1 (h.top v hv)
  ids := by
    refine List.pairwise_flatMap.mpr ⟨fun v hv => (hparts v hv).imp fun hxy => hxy.2, ?_⟩
    refine (h.ids.and h.ordered.sorted).imp_of_mem fun {v w} hv hw hvw x hx y hy => ?_
    obtain ⟨hne, hle⟩ := hvw
    have hle : v.vmEnd ≤ w.vmStart := hle
    have hvf := h.fresh v hv
    have hwf := h.fresh w hw
    -- No two VMAs are cut at one point.
    rcases hids v hv x hx with hx | ⟨hx, -, hx₁, hx₂⟩ <;> rcases hids w hw y hy with hy | ⟨hy, -, hy₁, hy₂⟩
    · rw [hx, hy]
      exact hne
    · omega
    · omega
    · intro heq
      rw [heq] at hx₂
      omega
  fresh w hw := by
    obtain ⟨v, hv, hw⟩ := List.mem_flatMap.mp hw
    have := h.fresh v hv
    rcases hids v hv w hw with hw | ⟨-, hw, -⟩ <;> omega

theorem VmasOk.unmap (h : VmasOk fresh l) (hs : pageSize ∣ start) (he : pageSize ∣ end_) (hse : start < end_) :
    VmasOk (fresh + 1) (unmapVmas start end_ fresh l) := by
  refine h.flatMap (n := 1) (p := fun _ => start) (fun v hv w hw => ?_) (fun v hv => ?_) fun v hv w hw => ?_
  · obtain ⟨h1, h2, h3, h4, h5, -⟩ := unmapVma_within (h.ordered.pos v hv) hw
    obtain ⟨a1, a2⟩ := h.aligned v hv
    refine ⟨h1, h2, h3, ?_, ?_⟩
    · rcases h4 with h4 | h4 <;> rw [h4]
      · exact a1
      · exact he
    · rcases h5 with h5 | h5 <;> rw [h5]
      · exact a2
      · exact hs
  · unfold unmapVma
    split
    · exact List.pairwise_singleton _ _
    split
    · split
      · exact List.pairwise_pair.mpr ⟨hse.le, (h.fresh v hv).ne⟩
      · exact List.pairwise_singleton _ _
    · split
      · exact List.pairwise_singleton _ _
      · exact List.Pairwise.nil
  · rcases (unmapVma_within (h.ordered.pos v hv) hw).2.2.2.2.2 with hid | ⟨hid, h1, h2⟩
    · exact Or.inl hid
    · exact Or.inr ⟨hid.ge, by omega, h1, by omega⟩

theorem mem_insertVma : w ∈ insertVma v l ↔ w = v ∨ w ∈ l := by
  induction l with
  | nil => simp [insertVma]
  | cons x l ih =>
    rw [insertVma]
    split
    · simp
    · simp only [List.mem_cons, ih]
      tauto

theorem covers_insertVma : Spans.Covers (insertVma v l) a ↔ Spans.In a v ∨ Spans.Covers l a := by
  simp only [Spans.Covers, mem_insertVma, or_and_right, exists_or, exists_eq_left]

/-- The place of a VMA between those below it and those above. -/
theorem insertVma_append (h₁ : ∀ w ∈ l₁, w.vmStart < v.vmEnd) (h₂ : ∀ w ∈ l₂, v.vmEnd ≤ w.vmStart) :
    insertVma v (l₁ ++ l₂) = l₁ ++ v :: l₂ := by
  induction l₁ with
  | nil =>
    cases l₂ with
    | nil => rfl
    | cons w l₂ => exact if_pos (h₂ w List.mem_cons_self)
  | cons w l₁ ih =>
    have hw := h₁ w List.mem_cons_self
    rw [List.cons_append, insertVma, if_neg (by omega), ih fun x hx => h₁ x (List.mem_cons_of_mem _ hx)]
    rfl

/-- A VMA that covers nothing mapped yet can be inserted. -/
theorem VmasOk.insert (h : VmasOk fresh l) (hs : pageSize ∣ v.vmStart) (he : pageSize ∣ v.vmEnd)
    (hse : v.vmStart < v.vmEnd) (htop : v.vmEnd < ulongMax) (hid : v.id = fresh)
    (hfree : ∀ x, v.vmStart ≤ x → x < v.vmEnd → ¬Spans.Covers l x) :
    VmasOk (fresh + 1) (insertVma v l) := by
  -- Every VMA lies on one side of the new one.
  have hside : ∀ w ∈ l, w.vmEnd ≤ v.vmStart ∨ v.vmEnd ≤ w.vmStart := by
    intro w hw
    by_contra hnot
    have hpos : w.vmStart < w.vmEnd := h.ordered.pos w hw
    refine hfree (max v.vmStart w.vmStart) (le_max_left _ _) (by omega) ⟨w, hw, le_max_right _ _, ?_⟩
    show max v.vmStart w.vmStart < w.vmEnd
    omega
  refine ⟨⟨fun w hw => ?_, ?_⟩, fun w hw => ?_, fun w hw => ?_, ?_, fun w hw => ?_⟩
  · rcases mem_insertVma.mp hw with rfl | hw
    · exact hse
    · exact h.ordered.pos w hw
  · have hord := h.ordered
    clear h hfree
    induction l with
    | nil => exact List.pairwise_singleton _ _
    | cons w l ih =>
      have hpos : w.vmStart < w.vmEnd := hord.head_pos
      rw [insertVma]
      split
      · rename_i hle
        refine List.pairwise_cons.mpr ⟨fun x hx => ?_, hord.sorted⟩
        rcases List.mem_cons.mp hx with rfl | hx
        · exact hle
        · exact le_trans hle (le_trans hpos.le (hord.head_le hx))
      · rename_i hle
        refine List.pairwise_cons.mpr ⟨fun x hx => ?_, ih (fun x hx => hside x (List.mem_cons_of_mem _ hx)) hord.tail⟩
        rcases mem_insertVma.mp hx with rfl | hx
        · exact (hside w List.mem_cons_self).resolve_right hle
        · exact hord.head_le hx
  · rcases mem_insertVma.mp hw with rfl | hw
    · exact ⟨hs, he⟩
    · exact h.aligned w hw
  · rcases mem_insertVma.mp hw with rfl | hw
    · exact htop
    · exact h.top w hw
  · have hids := h.ids
    have hlt := h.fresh
    clear h hfree hside
    induction l with
    | nil => exact List.pairwise_singleton _ _
    | cons w l ih =>
      have hw := hlt w List.mem_cons_self
      rw [insertVma]
      split
      · exact List.pairwise_cons.mpr ⟨fun x hx => by have := hlt x hx; omega, hids⟩
      · obtain ⟨h1, h2⟩ := List.pairwise_cons.mp hids
        refine List.pairwise_cons.mpr ⟨fun x hx => ?_, ih h2 fun x hx => hlt x (List.mem_cons_of_mem _ hx)⟩
        rcases mem_insertVma.mp hx with rfl | hx
        · omega
        · exact h1 x hx
  · rcases mem_insertVma.mp hw with rfl | hw
    · omega
    · have := h.fresh w hw
      omega

theorem lookupVma_append (h : (l₁ ++ v :: l₂).Pairwise fun v w => v.id ≠ w.id) :
    lookupVma (l₁ ++ v :: l₂) v.id = some (v, l₂.head?.map VmArea.id) := by
  induction l₁ with
  | nil => exact if_pos rfl
  | cons w l₁ ih =>
    obtain ⟨h1, h2⟩ := List.pairwise_cons.mp h
    rw [List.cons_append, lookupVma, if_neg (h1 v (by simp)), ih h2]

end

/-! ### The sweep -/

/-- What `restore_vmas` reads and calls of the kernel: the list of VMAs, `vm_munmap` with its result, and
    `vm_mmap` (`MAP_PRIVATE | MAP_FIXED_NOREPLACE`) with the address or no result for an error. -/
structure VmOps (σ : Type) where
  vmas : σ → List VmArea
  munmap : (start len : Nat) → σ → σ × Int
  mmap : (addr len prot : Nat) → σ → σ × Option Nat

/-- The locals of `restore_vmas`. `vma_iter` is a VMA's number and `ss_vma_iter` what is left of the list. -/
structure SweepState (σ : Type) where
  vm : σ
  vmaIter : Option Nat
  ssVmaIter : List SnapshotVma
  cursor : Nat
  inVmas : Bool
  inSsVmas : Bool

inductive SweepResult (σ : Type) where
  | next (s : SweepState σ)
  | ret (vm : σ) (res : Int)
  /-- A VMA that was freed is read. -/
  | oops

section
variable {σ : Type} (ops : VmOps σ)

/-- The unmapping or mapping of `[cursor, next_cursor)`; with a result where `restore_vmas` returns. -/
def sweepRegion (s : SweepState σ) (nextCursor : Nat) : σ × Option Int :=
  if nextCursor ≠ s.cursor ∧ s.inVmas ∧ !s.inSsVmas then
    let r := ops.munmap s.cursor (nextCursor - s.cursor) s.vm
    (r.1, if r.2 = 0 then none else some r.2)
  else if nextCursor ≠ s.cursor ∧ !s.inVmas ∧ s.inSsVmas then
    match s.ssVmaIter with
    | ssVma :: _ =>
      if ssVma.isAnonymousPrivate then
        let r := ops.mmap s.cursor (nextCursor - s.cursor) ssVma.prot s.vm
        -- `res` is still zero here.
        (r.1, if r.2 = some s.cursor then none else some 0)
      else (s.vm, none)
    | [] => (s.vm, none)
  else (s.vm, none)

/-- One round of the loop. -/
def sweepStep (s : SweepState σ) : SweepResult σ :=
  if s.vmaIter = none ∧ s.ssVmaIter = [] then .ret s.vm 0
  else
    match s.vmaIter.map (lookupVma (ops.vmas s.vm)) with
    | some none => .oops
    | vma =>
      let vma := vma.join
      let nextVmaIter := vma.bind Prod.snd
      let nextVmaPos := match vma with
        | some (v, _) => if s.inVmas then v.vmEnd else v.vmStart
        | none => ulongMax
      let nextSsVmaPos := Spans.nextPos ulongMax s.inSsVmas s.ssVmaIter
      let nextCursor := min nextVmaPos nextSsVmaPos
      match sweepRegion ops s nextCursor with
      | (vm, some res) => .ret vm res
      | (vm, none) => .next {
          vm
          vmaIter := if nextCursor = nextVmaPos ∧ s.inVmas then nextVmaIter else s.vmaIter
          ssVmaIter := if nextCursor = nextSsVmaPos then Spans.rest s.inSsVmas s.ssVmaIter else s.ssVmaIter
          cursor := nextCursor
          inVmas := if nextCursor = nextVmaPos then !s.inVmas else s.inVmas
          inSsVmas := if nextCursor = nextSsVmaPos then !s.inSsVmas else s.inSsVmas }

/-- The loop, for at most so many rounds; no result when it is still going or reads freed memory. -/
def sweep : Nat → SweepState σ → Option (σ × Int)
  | 0, _ => none
  | n + 1, s =>
    match sweepStep ops s with
    | .next s => sweep n s
    | .ret vm res => some (vm, res)
    | .oops => none

/-- The number of rounds within which `restore_vmas` is done: three for each end of a VMA. -/
def sweepFuel (vmas : List VmArea) (allVmas : List SnapshotVma) : Nat := 6 * (vmas.length + allVmas.length) + 1

/-- `restore_vmas`. -/
def restoreVmas (allVmas : List SnapshotVma) (vm : σ) : Option (σ × Int) :=
  sweep ops (sweepFuel (ops.vmas vm) allVmas)
    ⟨vm, (ops.vmas vm).head?.map VmArea.id, allVmas, 0, false, false⟩

end
end AflSnapshot
