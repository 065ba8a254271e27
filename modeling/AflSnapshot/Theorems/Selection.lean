import AflSnapshot.Theorems.Filter

/-! # Which pages a take selects

The policy: an allowlisted page is snapshotted; a page in neither list is snapshotted unless
`AFL_SNAPSHOT_BLOCK` is set or its VMA is excluded by default (`DefaultExcluded`). The code asks about the VMA
only once, and not at all where the VMA meets the allowlist, and takes a VMA that ends where the stack starts
for the stack: such VMAs are `Misjudged`, and their pages are the ones for which code and policy differ. -/

namespace AflSnapshot

/-- No range of the blocklist has an address in common with one of the allowlist. -/
def NoOverlap (data : TaskData) : Prop :=
  ∀ b ∈ data.ranges.entries blocklist, ∀ a ∈ data.ranges.entries allowlist, ∀ x, Spans.In x b → ¬Spans.In x a

/-- The VMA contains `mm->start_stack`. -/
def ContainsStack (mm : Mm) (v : VmArea) : Prop := Spans.In mm.startStack v

/-- A VMA whose pages are only snapshotted if they are allowlisted. -/
def DefaultExcluded (data : TaskData) (mm : Mm) (v : VmArea) : Prop :=
  v.writable = false ∨ v.shared = true ∨ hasFlag data.config aflSnapshotNostack = true ∧ ContainsStack mm v

/-- The pages that should get an entry. -/
def PolicySelects (data : TaskData) (mm : Mm) (page : Nat) : Prop :=
  pageSize ∣ page ∧ mm.slot page = true ∧ ∃ v ∈ mm.mmap, Spans.In page v ∧
    (Allowed data page ∨
      ¬Blocked data page ∧ hasFlag data.config aflSnapshotBlock = false ∧ ¬DefaultExcluded data mm v)

/-- A default-excluded VMA that meets the allowlist, or a VMA that ends at the start of the stack, does not meet
    the allowlist and is left out as if it were the stack. -/
def Misjudged (data : TaskData) (mm : Mm) (v : VmArea) : Prop :=
  (intersectAllowlist data v.vmStart v.vmEnd).isSome ∧ DefaultExcluded data mm v ∨
  intersectAllowlist data v.vmStart v.vmEnd = none ∧ v.writable = true ∧ v.shared = false ∧
    hasFlag data.config aflSnapshotNostack = true ∧ v.vmEnd = mm.startStack

section
variable {data : TaskData} {mm : Mm} {v : VmArea} {page : Nat}

theorem NoOverlap.not_blocked (h : NoOverlap data) (ha : Allowed data page) : ¬Blocked data page := by
  obtain ⟨a, haa, hina⟩ := ha
  rintro ⟨b, hb, hinb⟩
  exact h b hb a haa page hinb hina

/-- Without overlap nothing is shadowed. -/
theorem NoOverlap.not_shadowed (h : NoOverlap data) (size : Nat) : ¬Shadowed data size := by
  rintro ⟨addr, next, page, a, -, -, -, -, -, ha, hs, -, hle, hend, hblocked⟩
  have hspan := VmRange.spans_iff.mp hs
  have hlt : page < page + pageSize := by simp [pageSize]
  exact h.not_blocked (allowed_of_spans ha ⟨le_trans hspan.1 hle, lt_trans hlt hend⟩) hblocked

theorem isStack_iff (hpos : v.vmStart < v.vmEnd) :
    isStack mm v = true ↔ ContainsStack mm v ∨ v.vmEnd = mm.startStack := by
  have hin : ContainsStack mm v ↔ v.vmStart ≤ mm.startStack ∧ mm.startStack < v.vmEnd := Iff.rfl
  rw [hin, isStack, Bool.and_eq_true, decide_eq_true_iff, decide_eq_true_iff]
  omega

/-- Without `AFL_SNAPSHOT_BLOCK`, the code goes by the VMA as the policy does but where it is misjudged. -/
theorem skipsVma_iff (hpos : v.vmStart < v.vmEnd) (hb : hasFlag data.config aflSnapshotBlock = false) :
    (skipsVma data mm v = true ↔ DefaultExcluded data mm v) ↔ ¬Misjudged data mm v := by
  have hstack : isStack mm v = true ↔ ContainsStack mm v ∨ v.vmEnd = mm.startStack := isStack_iff hpos
  have hexcl : ContainsStack mm v → v.vmEnd ≠ mm.startStack := fun h heq => by
    have : mm.startStack < v.vmEnd := h.2
    omega
  unfold skipsVma Misjudged DefaultExcluded
  rw [hb]
  cases intersectAllowlist data v.vmStart v.vmEnd with
  | some a => simp
  | none =>
    cases hw : v.writable with
    | false => simp
    | true =>
      cases hs : v.shared with
      | true => simp
      | false =>
        cases hn : hasFlag data.config aflSnapshotNostack with
        | false => simp
        | true =>
          simp only [hstack, Option.isNone_none, Bool.not_true, Bool.or_false, Bool.true_and, Bool.false_or,
            Option.isSome_none, Bool.false_eq_true, false_and, false_or, true_and, reduceCtorEq]
          tauto

theorem allowed_not_skipped (ha : Allowed data page) (hin : Spans.In page v) :
    skipsVma data mm v = false := by
  obtain ⟨a, haa, hina⟩ := ha
  have h1 : v.vmStart ≤ page := hin.1
  have h2 : page < v.vmEnd := hin.2
  have hsome : (intersectAllowlist data v.vmStart v.vmEnd).isSome := by
    rw [intersectAllowlist, List.find?_isSome]
    exact ⟨a, haa, VmRange.meets_of_in hina h1 h2⟩
  rw [skipsVma, Option.isNone_eq_false_iff.mpr hsome]
  rfl

end

/-- A take that goes through makes entries by the policy if and only if, unless `AFL_SNAPSHOT_BLOCK` is set, the
    pages of misjudged VMAs that have a slot are all in one of the lists. -/
theorem take_selects_iff (alloc : TakeAlloc) (data : TaskData) (mm : Mm) (hl : AlignedLists data) (hm : mm.Sorted)
    (hno : NoOverlap data) (hnew : data.ss.ssPages = []) (hok : (takeMemorySnapshot alloc data mm).2 = 0) :
    (∀ p, ((takeMemorySnapshot alloc data mm).1.1.getSnapshotPage p).isSome ↔ PolicySelects data mm p) ↔
    (hasFlag data.config aflSnapshotBlock = false → ∀ v ∈ mm.mmap, Misjudged data mm v → ∀ p, pageSize ∣ p →
      mm.slot p = true → Spans.In p v → Blocked data p ∨ Allowed data p) := by
  obtain ⟨hsound, hcomplete⟩ := take_filtered alloc hl hm hnew (hno.not_shadowed mm.pgd.size)
  have hentry : ∀ p, ((takeMemorySnapshot alloc data mm).1.1.getSnapshotPage p).isSome ↔
      Visited data mm p ∧ ¬Excluded data p := fun p =>
    ⟨hsound p, fun ⟨hv, hex⟩ => hcomplete hok p hv hex⟩
  simp only [hentry]
  constructor
  · intro h hb v hv hmis p hp hslot hin
    by_contra hnot
    obtain ⟨hnb, hna⟩ := not_or.mp hnot
    have hpos := hm.ordered.pos v hv
    -- Only the VMA decides over the page, and code and policy decide differently.
    have hex : ¬Excluded data p := by
      rintro (hbl | ⟨hbl, -⟩)
      · exact hnb hbl
      · rw [hb] at hbl
        cases hbl
    refine absurd ((skipsVma_iff hpos hb).mp ?_) (not_not.mpr hmis)
    have huniq : ∀ w ∈ mm.mmap, Spans.In p w → w = v := fun w hw hinw => hm.ordered.eq_of_in hw hv hinw hin
    constructor
    · intro hskip
      by_contra hde
      obtain ⟨⟨-, -, w, hw, hinw, hns⟩, -⟩ := (h p).mpr ⟨hp, hslot, v, hv, hin, Or.inr ⟨hnb, hb, hde⟩⟩
      rw [huniq w hw hinw, hskip] at hns
      cases hns
    · intro hde
      by_contra hskip
      obtain ⟨-, -, w, hw, hinw, hsel⟩ :=
        (h p).mp ⟨⟨hp, hslot, v, hv, hin, by simpa using hskip⟩, hex⟩
      rw [huniq w hw hinw] at hsel
      rcases hsel with hall | ⟨-, -, hnde⟩
      · exact hna hall
      · exact hnde hde
  · intro h p
    constructor
    · rintro ⟨⟨hp, hslot, v, hv, hin, hns⟩, hex⟩
      refine ⟨hp, hslot, v, hv, hin, ?_⟩
      by_cases ha : Allowed data p
      · exact Or.inl ha
      · have hnb : ¬Blocked data p := fun hbl => hex (Or.inl hbl)
        have hb : hasFlag data.config aflSnapshotBlock = false := by
          by_contra hbt
          exact hex (Or.inr ⟨by simpa using hbt, ha⟩)
        have hmis : ¬Misjudged data mm v := fun hmis => (h hb v hv hmis p hp hslot hin).elim hnb ha
        refine Or.inr ⟨hnb, hb, fun hde => ?_⟩
        rw [((skipsVma_iff (hm.ordered.pos v hv) hb).mpr hmis).mpr hde] at hns
        cases hns
    · rintro ⟨hp, hslot, v, hv, hin, hsel⟩
      by_cases ha : Allowed data p
      · refine ⟨⟨hp, hslot, v, hv, hin, allowed_not_skipped ha hin⟩, ?_⟩
        rintro (hbl | ⟨-, hna⟩)
        · exact hno.not_blocked ha hbl
        · exact hna ha
      · obtain ⟨hnb, hb, hnde⟩ := hsel.resolve_left ha
        have hmis : ¬Misjudged data mm v := fun hmis => (h hb v hv hmis p hp hslot hin).elim hnb ha
        refine ⟨⟨hp, hslot, v, hv, hin, ?_⟩, ?_⟩
        · cases hs : skipsVma data mm v with
          | false => rfl
          | true => exact absurd (((skipsVma_iff (hm.ordered.pos v hv) hb).mpr hmis).mp hs) hnde
        · rintro (hbl | ⟨hbt, -⟩)
          · exact hnb hbl
          · rw [hb] at hbt
            cases hbt

/-- A record with the first page allowed. -/
def allowedData : TaskData :=
  { TaskData.new 0 with ranges := RangeLists.empty.include_ 0 4096 }

/-- Two pages of shared memory with page tables. -/
def sharedPages : Mm :=
  { x86_64.full [] with mmap := [⟨0, 0, 8192, vmRead ||| vmWrite ||| vmShared, some 0⟩] }

theorem sharedPages_ok : AlignedLists allowedData ∧ sharedPages.Sorted ∧ NoOverlap allowedData ∧
    (takeMemorySnapshot TakeAlloc.ok allowedData sharedPages).2 = 0 := by
  have hblock : allowedData.ranges.entries blocklist = [] := by decide
  exact ⟨⟨by decide, by decide⟩, ⟨⟨by decide, by decide⟩, by decide⟩, fun b hb => by simp [hblock] at hb, by decide⟩

theorem take_selects_shared : NoOverlap allowedData ∧
    (takeMemorySnapshot TakeAlloc.ok allowedData sharedPages).2 = 0 ∧
    ((∀ p, ((takeMemorySnapshot TakeAlloc.ok allowedData sharedPages).1.1.getSnapshotPage p).isSome ↔
        PolicySelects allowedData sharedPages p) ↔
      (hasFlag allowedData.config aflSnapshotBlock = false → ∀ v ∈ sharedPages.mmap,
        Misjudged allowedData sharedPages v → ∀ p, pageSize ∣ p → sharedPages.slot p = true → Spans.In p v →
        Blocked allowedData p ∨ Allowed allowedData p)) := by
  obtain ⟨hl, hm, hno, hok⟩ := sharedPages_ok
  exact ⟨hno, hok, take_selects_iff TakeAlloc.ok allowedData sharedPages hl hm hno rfl hok⟩

/-- The second of the shared pages gets an entry, although it is not allowlisted. -/
theorem take_selects_fails : AlignedLists allowedData ∧ sharedPages.Sorted ∧ NoOverlap allowedData ∧
    (takeMemorySnapshot TakeAlloc.ok allowedData sharedPages).2 = 0 ∧
    ¬∀ p, ((takeMemorySnapshot TakeAlloc.ok allowedData sharedPages).1.1.getSnapshotPage p).isSome ↔
      PolicySelects allowedData sharedPages p := by
  obtain ⟨hl, hm, hno, hok⟩ := sharedPages_ok
  refine ⟨hl, hm, hno, hok, fun h => ?_⟩
  obtain ⟨-, -, v, hv, -, hsel⟩ := (h 4096).mp (by decide)
  obtain rfl : v = ⟨0, 0, 8192, vmRead ||| vmWrite ||| vmShared, some 0⟩ := by simpa [sharedPages] using hv
  have hallow : allowedData.ranges.entries allowlist = [⟨0, 4096⟩] := by decide
  rcases hsel with ⟨a, ha, hin⟩ | ⟨-, -, hde⟩
  · rw [hallow, List.mem_singleton] at ha
    subst ha
    exact absurd hin.2 (by decide)
  · exact hde (Or.inr (Or.inl (by decide)))

end AflSnapshot
