import AflSnapshot.Theorems.Departures

/-! # The VMAs of a snapshot

The search of `is_snapshotted_address` stops early, and `restore_vmas` sweeps once. Both rely on the order in which the take
appends the VMAs, which nothing checks and no later step disturbs. -/

namespace AflSnapshot
open Runs Spans

/-- The task keeps the snapshot that it has. -/
def Retains (t : Nat) (w : World) (a : Move) : Prop :=
  a.tsk = t → a.op ≠ .ioctl .clean ∧ ¬a.op.Departs (w.standing t)

/-- The VMAs in the record of a task's live snapshot. -/
structure World.Lists (t : Nat) (w : World) (all snapshotted : List SnapshotVma) (id : Nat) : Prop where
  live : w.core.reg.live t = some id
  allVmas : (w.core.reg.data id).ss.allVmas = all
  snapshottedVmas : (w.core.reg.data id).ss.snapshottedVmas = snapshotted

section
variable {env : Env} {t config id : Nat} {w w₀ w' : World} {a : Move} {all snapshotted : List SnapshotVma}

/-! ### The take -/

theorem Taken.ordered {alloc : TakeAlloc} {data : TaskData} {mm : Mm} {x : Nat} {s : WalkState}
    (h : Taken alloc data mm mm.mmap x s) (ho : Ordered mm.mmap) : Ordered s.data.ss.allVmas := by
  rw [h.allVmas]
  refine ⟨fun v hv => ?_, List.pairwise_map.mpr ho.sorted⟩
  obtain ⟨u, hu, rfl⟩ := List.mem_map.mp hv
  exact ho.pos u hu

/-- The VMAs that are skipped leave the others in their order. -/
theorem Taken.sublist {alloc : TakeAlloc} {data : TaskData} {mm : Mm} {done : List VmArea} {x : Nat} {s : WalkState}
    (h : Taken alloc data mm done x s) : s.data.ss.snapshottedVmas.Sublist s.data.ss.allVmas := by
  rw [h.allVmas, h.linked]
  exact List.filter_sublist.map _

/-- What a take that goes through leaves in the record. -/
theorem lists_take (h : w.Kept) (hlive : w.core.reg.live t = none)
    (halloc : w.core.reg.getTaskData t = none → env.kzallocTaskData = true)
    (htake : (w.taking env t config (w.recordFor t)).2 = 0) :
    ∃ all snapshotted id, (w.takeSnapshot env t config).1.Lists t all snapshotted id ∧
      all.map (fun v => (v.vmStart, v.vmEnd)) = (w.mmOf t).mmap.map (fun v => (v.vmStart, v.vmEnd)) ∧
      Ordered all ∧ snapshotted.Sublist all := by
  obtain ⟨id, d₀, hT, -⟩ := takeSnapshot_took config h.coherent (h.sorted t) hlive halloc
  rw [hT.recordFor] at htake
  have hblank : (w.initialized t config d₀).Blank := hT.fresh.2.2
  obtain ⟨done, rest, x, s, hd, hs, hres, hend⟩ := take_taken env.take (h.sorted t) hblank
  obtain rfl : rest = [] := hend htake
  rw [List.append_nil] at hd
  subst hd
  have hdata : ((w.takeSnapshot env t config).1.core.reg.data id).ss.allVmas = s.data.ss.allVmas ∧
      ((w.takeSnapshot env t config).1.core.reg.data id).ss.snapshottedVmas = s.data.ss.snapshottedVmas := by
    have hres : (w.taking env t config d₀).1 = (s.data, s.mm) := hres
    rw [hT.data, hres]
    exact ⟨rfl, rfl⟩
  refine ⟨_, _, id, ⟨hT.live, hdata.1, hdata.2⟩, ?_, hs.ordered (h.sorted t).ordered, hs.sublist⟩
  rw [hs.allVmas, List.map_map]
  rfl

/-! ### After the take -/

theorem Registry.SameRecord.lists (h : w.core.reg.SameRecord t w'.core.reg) (hl : w.Lists t all snapshotted id) :
    w'.Lists t all snapshotted id := by
  obtain ⟨hget, hmade⟩ := live_eq_some.mp hl.live
  have hsame := h.same id hget
  refine ⟨live_eq_some.mpr ⟨h.found.trans hget, ?_⟩, ?_, ?_⟩
  · rw [hsame]
    exact hmade
  · rw [hsame]
    exact hl.allVmas
  · rw [hsame]
    exact hl.snapshottedVmas

/-- Naming a range changes no VMA of the record. -/
theorem lists_addVmrange (h : w.Kept) (hl : w.Lists t all snapshotted id) (f : RangeLists → RangeLists) :
    (w.addVmrange env t f).Lists t all snapshotted id := by
  have hgiven := addVmrange_given env t h.coherent f
  obtain ⟨⟨ranges, hranges⟩, -⟩ := hgiven.data t id hl.live
  refine ⟨(hgiven.live t).trans hl.live, ?_, ?_⟩
  · rw [hranges]
    exact hl.allVmas
  · rw [hranges]
    exact hl.snapshottedVmas

variable (env) in
/-- No command of a task that retains its snapshot changes the VMAs in the record. -/
theorem lists_command (h : w.Kept) (hl : w.Lists t all snapshotted id) {op : Op} (hclean : op ≠ .ioctl .clean)
    (hstays : ¬op.Departs (w.standing t)) : (w.step env t op).Lists t all snapshotted id := by
  have hrange : ∀ f, (if env.copyFromUser then (w.addVmrange env t f, (0 : Int)) else (w, -22)).1.Lists t all snapshotted id := by
    intro f
    split
    · exact lists_addVmrange h hl f
    · exact hl
  have hagain : ∀ config, (w.takeSnapshot env t config).1.Lists t all snapshotted id := by
    intro config
    rw [takeSnapshot_live config hl.live]
    exact hl
  have hquiet : ¬op.Commands → (w.step env t op).Lists t all snapshotted id := fun hop =>
    (sameRecord_step env t t h op fun _ => hop).lists hl
  cases op with
  | ioctl cmd =>
    cases cmd with
    | excludeVmrange start end_ => exact hrange _
    | includeVmrange start end_ => exact hrange _
    | take config => exact hagain config
    | do_ => exact hagain _
    | restore => exact hquiet fun h => h
    | clean => exact absurd rfl hclean
  | exit => exact absurd trivial hstays
  | exitGroup =>
    -- The snapshot is restored on exit.
    obtain ⟨i, heq⟩ := sysExitGroupHook_stays env (not_not.mp hstays)
    show (w.sysExitGroupHook env t).Lists t all snapshotted id
    rw [heq]
    exact ((h.restoreSnapshot env t i).steady.sameRecord t).lists hl
  | read _ | write _ _ | discard _ | munmap _ _ | brk _ | mprotect _ _ _ | mmap _ _ _ _ _ | movePages _ _ _
  | swapIn _ _ _ | file _ | fork => exact hquiet fun h => h

theorem lists_move (h : w.Kept) (hl : w.Lists t all snapshotted id) (ha : Retains t w a) :
    (w.move a).Lists t all snapshotted id := by
  obtain ⟨env, u, op⟩ := a
  by_cases hu : u = t
  · obtain rfl := hu
    obtain ⟨hclean, hstays⟩ := ha rfl
    exact lists_command env h hl hclean hstays
  · exact (sameRecord_step env t u h op fun he => absurd he hu).lists hl

theorem lists_run (h : w₀.Kept) (hl : w₀.Lists t all snapshotted id) (hrun : Run World.move (Retains t) w₀ w) :
    w.Lists t all snapshotted id := by
  have hboth : w.Kept ∧ w.Lists t all snapshotted id :=
    hrun.invariant (I := fun w => w.Kept ∧ w.Lists t all snapshotted id) ⟨h, hl⟩ fun w a hw ha =>
      ⟨(hw.1.step a.env a.tsk a.op).1, lists_move hw.1 hw.2 ha⟩
  exact hboth.2

/-- From a take that goes through until the task gives its snapshot up, the record lists the VMAs of the take in increasing
    order and those that are snapshotted as some of them, and the search finds an address in these if it is there. -/
theorem vmas_listed (h : w₀.Kept) (hlive : w₀.core.reg.live t = none)
    (halloc : w₀.core.reg.getTaskData t = none → env.kzallocTaskData = true)
    (htake : (w₀.taking env t config (w₀.recordFor t)).2 = 0)
    (hrun : Run World.move (Retains t) (w₀.move ⟨env, t, .ioctl (.take config)⟩) w) :
    ∃ d, w.recordOf t = some d ∧ d.haveSnapshot = true ∧
      d.ss.allVmas.map (fun v => (v.vmStart, v.vmEnd)) = (w₀.mmOf t).mmap.map (fun v => (v.vmStart, v.vmEnd)) ∧
      Ordered d.ss.allVmas ∧ d.ss.snapshottedVmas.Sublist d.ss.allVmas ∧
      ∀ addr, d.isSnapshottedAddress addr = true ↔ ∃ v ∈ d.ss.snapshottedVmas, v.vmStart ≤ addr ∧ addr < v.vmEnd := by
  obtain ⟨all, snapshotted, id, hl, hranges, ho, hsub⟩ := lists_take h hlive halloc htake
  have hkept : (w₀.takeSnapshot env t config).1.Kept := (h.step env t (.ioctl (.take config))).1
  have hend : w.Lists t all snapshotted id := lists_run hkept hl hrun
  obtain ⟨hget, hmade⟩ := live_eq_some.mp hend.live
  refine ⟨_, recordOf_eq hget, hmade, ?_, ?_, ?_, fun addr => isSnapshottedAddress_iff ?_⟩
  · rw [hend.allVmas, hranges]
  · rw [hend.allVmas]
    exact ho
  · rw [hend.allVmas, hend.snapshottedVmas]
    exact hsub
  · rw [hend.snapshottedVmas]
    exact ⟨fun v hv => ho.pos v (hsub.subset hv), ho.sorted.sublist hsub⟩

/-- The heap is snapshotted, written to and restored. -/
theorem vmas_listed_heap :
    let w := (((World.boot heapMm [1]).move ⟨.calm, 1, .ioctl (.take aflSnapshotMmap)⟩).move ⟨.calm, 1, .write 4096 7⟩).move
      ⟨.calm, 1, .ioctl .restore⟩
    ∃ d, w.recordOf 1 = some d ∧ (d.isSnapshottedAddress 8192 = true ↔ ∃ v ∈ d.ss.snapshottedVmas, v.vmStart ≤ 8192 ∧ 8192 < v.vmEnd) := by
  intro w
  have hrun : Run World.move (Retains 1) ((World.boot heapMm [1]).move ⟨.calm, 1, .ioctl (.take aflSnapshotMmap)⟩) w :=
    .step (.step .start fun _ => ⟨nofun, id⟩) fun _ => ⟨nofun, id⟩
  obtain ⟨d, hd, -, -, -, -, hfound⟩ := vmas_listed (heapMm_kept [1]) rfl (fun _ => rfl)
    (take_goes_through (fun _ => rfl) (fun _ => rfl) _ _) hrun
  exact ⟨d, hd, hfound 8192⟩

end
end AflSnapshot
