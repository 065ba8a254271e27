import AflSnapshot.Pages

/-! Taking the memory snapshot: the filter of the page-table walk, its callbacks, and the loop over the
VMAs (`memory.c`). -/

namespace AflSnapshot
open PageWalk

/-- `struct snapshot_walk_data`, less the pointer to the task's data. -/
structure SnapshotWalkData where
  nextAllowedAddress : Nat
  nextBlockedAddress : Nat
deriving DecidableEq, Repr

/-- `snapshot_walk_check_range`; `Action.skip` is `ACTION_CONTINUE`. -/
def snapshotWalkCheckRange (data : TaskData) (addr next : Nat) (walkData : SnapshotWalkData) :
    SnapshotWalkData × Action :=
  -- Fast paths for blocked and for allowed addresses.
  if next < walkData.nextBlockedAddress then (walkData, .skip)
  else if next < walkData.nextAllowedAddress then (walkData, .subtree)
  else
    let blockedOverlappedRange := intersectBlocklist data addr next
    let afterBlocklist : SnapshotWalkData × Action :=
      match intersectAllowlist data addr next with
      | some allowed =>
        -- The range is entirely or partially allowed.
        if allowed.spans addr next then ({ walkData with nextAllowedAddress := allowed.end_ }, .subtree)
        else (walkData, .subtree)
      | none =>
        if hasFlag data.config aflSnapshotBlock then
          ({ walkData with nextBlockedAddress := next }, .skip)
        else if blockedOverlappedRange.isNone then
          ({ walkData with nextAllowedAddress := next }, .subtree)
        else (walkData, .subtree)
    match blockedOverlappedRange with
    | some blocked =>
      -- The range is entirely blocked.
      if blocked.spans addr next then ({ walkData with nextBlockedAddress := blocked.end_ }, .skip)
      else afterBlocklist
    | none => afterBlocklist

/-- What the callbacks of the walk read and write. -/
structure WalkState where
  data : TaskData
  mm : Mm
  walkData : SnapshotWalkData

/-- `snapshot_pgd_entry` and `snapshot_p4d_entry`: only the cached addresses are updated. -/
def snapshotUpperEntry (addr next : Nat) (s : WalkState) : WalkState × Action :=
  ({ s with walkData := (snapshotWalkCheckRange s.data addr next s.walkData).1 }, .subtree)

/-- `snapshot_pud_entry` and `snapshot_pmd_entry`. -/
def snapshotLowerEntry (addr next : Nat) (s : WalkState) : WalkState × Action :=
  let r := snapshotWalkCheckRange s.data addr next s.walkData
  ({ s with walkData := r.1 }, r.2)

/-- `snapshot_pte_entry`. -/
def snapshotPteEntry (alloc : Nat → Bool) (addr next : Nat) (s : WalkState) : WalkState × Int :=
  let r := snapshotWalkCheckRange s.data addr next s.walkData
  let s := { s with walkData := r.1 }
  if r.2 = .skip then (s, 0)
  else
    let m := s.data.makeSnapshotPage s.mm addr (alloc addr)
    ({ s with data := m.1.1, mm := m.1.2 }, m.2)

/-- `snapshot_walk_ops`, over the tables of an address space. -/
def snapshotWalkOps (mm : Mm) : List (Stage pageSize WalkState) :=
  [⟨mm.pgd, snapshotUpperEntry⟩, ⟨mm.p4d, snapshotUpperEntry⟩,
    ⟨mm.pud, snapshotLowerEntry⟩, ⟨mm.pmd, snapshotLowerEntry⟩]

/-- `walk_page_vma`. -/
def walkPageVma (alloc : Nat → Bool) (vma : VmArea) (s : WalkState) : WalkState × Int :=
  walk (snapshotPteEntry alloc) (snapshotWalkOps s.mm) vma.vmStart vma.vmEnd s

def isStack (mm : Mm) (vma : VmArea) : Bool :=
  decide (vma.vmStart ≤ mm.startStack) && decide (vma.vmEnd ≥ mm.startStack)

/-- The conditions under which `take_memory_snapshot` goes on to the next VMA. -/
def skipsVma (data : TaskData) (mm : Mm) (vma : VmArea) : Bool :=
  (intersectAllowlist data vma.vmStart vma.vmEnd).isNone &&
    (!vma.writable || vma.shared || hasFlag data.config aflSnapshotBlock ||
      hasFlag data.config aflSnapshotNostack && isStack mm vma)

/-- The allocations of `take_memory_snapshot`: whether the entry of the VMA at an address or of a page can be
    allocated, and what the memory of the VMA's entry holds. -/
structure TakeAlloc where
  snapshotVma : Nat → Bool
  snapshotPage : Nat → Bool
  garbage : Nat → Nat

/-- The loop of `take_memory_snapshot` over the VMAs. -/
def takeVmas (alloc : TakeAlloc) : List VmArea → WalkState → WalkState × Int
  | [], s => (s, 0)
  | vma :: vmas, s =>
    match s.data.addSnapshotVma vma (alloc.garbage vma.vmStart) (alloc.snapshotVma vma.vmStart) with
    | none => (s, -12)
    | some (data, ssVma) =>
      let s := { s with data }
      if skipsVma s.data s.mm vma then takeVmas alloc vmas s
      else
        let data := { s.data with ss := { s.data.ss with
          snapshottedVmas := s.data.ss.snapshottedVmas ++ [ssVma] } }
        let r := walkPageVma alloc.snapshotPage vma { s with data }
        if r.2 = 0 then takeVmas alloc vmas r.1 else r

/-- `take_memory_snapshot`, after the caches are invalidated. -/
def takeMemorySnapshot (alloc : TakeAlloc) (data : TaskData) (mm : Mm) : (TaskData × Mm) × Int :=
  let r := takeVmas alloc mm.mmap ⟨data, mm, ⟨0, 0⟩⟩
  ((r.1.data, r.1.mm), r.2)

end AflSnapshot
