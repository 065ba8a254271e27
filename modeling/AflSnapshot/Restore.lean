import AflSnapshot.Kernel

/-! Restoring and cleaning the memory snapshot (`memory.c`). -/

namespace AflSnapshot
namespace Core
variable (env : Env) (m : Nat)

/-- `restore_brk`. -/
def restoreBrk (snapshottedBrk : Nat) (c : Core) : Core × Int :=
  let currentBrk := (c.mem.mm m).brk
  if pageAlign currentBrk = pageAlign snapshottedBrk then (c.setBrk m snapshottedBrk, 0)
  else if snapshottedBrk ≤ currentBrk then
    let r := c.doMunmap env m snapshottedBrk (currentBrk - snapshottedBrk)
    if r.2 < 0 then (r.1, -1) else (r.1.setBrk m snapshottedBrk, 0)
  else
    -- `find_vma(mm, current_brk)`
    match (c.mem.mm m).mmap.find? fun v => decide (currentBrk < v.vmEnd) with
    | some next =>
      if next.vmStart < snapshottedBrk + pageSize then (c, -1) else growBrk currentBrk c
    | none => growBrk currentBrk c
where
  growBrk (currentBrk : Nat) (c : Core) : Core × Int :=
    let r := c.vmBrk env m currentBrk (snapshottedBrk - currentBrk)
    if r.2 < 0 then (r.1, -1) else (r.1.setBrk m snapshottedBrk, 0)

/-- The calls of `restore_vmas`. -/
def vmOps : VmOps Core where
  vmas c := (c.mem.mm m).mmap
  munmap start len c := c.doMunmap env m start len
  mmap addr len prot c := c.vmMmap env m addr len prot

/-- Change a record. -/
def modifyData (id : Nat) (f : TaskData → TaskData) (c : Core) : Core :=
  { c with reg := c.reg.setData id (f (c.reg.data id)) }

/-- `in_dirty_list = false` and `list_del`. -/
def dequeue (id page : Nat) (c : Core) : Core :=
  c.modifyData id fun d => (d.modifyPage page SnapshotPage.leaveDirtyList).delDirty page

/-- `do_recover_page`, and what the loop of `recover_memory_snapshot` does after it. The hooks may change the
    entry during the copy. -/
def recoverPage (id : Nat) (sp : SnapshotPage) (c : Core) : Core :=
  let page := sp.pageBase
  let c := (c.copyToUser env m page (sp.pageData.getD fun _ => 0)).1
  let c := c.modifyData id fun d => d.modifyPage page fun sp => { sp with dirty := false, hasHadPte := true }
  -- `walk_page_table`
  if (c.mem.mm m).slot page then
    let c := c.setMem (c.mem.setPte m page ((c.mem.mm m).pte page).wrprotect)
    (c.modifyData id fun d => d.modifyPage page SnapshotPage.setPrivate).dequeue id page
  else c

/-- `do_recover_none_pte`, and what the loop does after it. -/
def recoverNonePte (id page : Nat) (c : Core) : Core :=
  ((c.zapPage m page).modifyData id fun d =>
    d.modifyPage page fun sp => { sp.setNonePte with hasHadPte := false }).dequeue id page

/-- One round of the loop of `recover_memory_snapshot`. -/
def recoverEntry (id : Nat) (c : Core) (page : Nat) : Core :=
  match (c.reg.data id).getSnapshotPage page with
  | none => c
  | some sp =>
    if sp.dirty && sp.hasBeenCopied then c.recoverPage env m id sp
    else if sp.isPrivate then c.dequeue id page
    else if sp.isNonePte && sp.hasHadPte then c.recoverNonePte m id page
    else c.dequeue id page

/-- `recover_memory_snapshot`. A page's round queues no other page, so that the loop sees the list as it is at
    the start. -/
def recoverMemorySnapshot (id : Nat) (c : Core) : Core × Int :=
  let data := c.reg.data id
  let r :=
    if hasFlag data.config aflSnapshotMmap then
      (restoreVmas (vmOps env m) data.ss.allVmas c).getD ({ c with oops := true }, -1)
    else (c, 0)
  if r.2 = 0 then ((r.1.reg.data id).ss.dirtyPages.foldl (recoverEntry env m id) r.1, 0) else r

/-- `clean_memory_snapshot`. -/
def cleanMemorySnapshot (id : Nat) (c : Core) : Core :=
  let c := { c with reg := c.reg.invalidateTaskDataCache (c.reg.data id).tsk }
  c.modifyData id fun d => { d with ss := { d.ss with allVmas := [], snapshottedVmas := [], ssPages := [] } }

/-- `take_memory_snapshot`. -/
def takeMemorySnapshot (id : Nat) (c : Core) : Core × Int :=
  let c := { c with reg := c.reg.invalidateTaskDataCache (c.reg.data id).tsk }
  let r := AflSnapshot.takeMemorySnapshot env.take (c.reg.data id) (c.mem.mm m)
  ({ c with reg := c.reg.setData id r.1.1, mem := c.mem.setMm m r.1.2 }, r.2)

end Core
end AflSnapshot
