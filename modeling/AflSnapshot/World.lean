import AflSnapshot.Walk
import AflSnapshot.Sweep

/-! The state of the system: the memory of the processes, the module's records and caches (`task_data.c` and
the top of `memory.c`), open files and tasks. -/

namespace AflSnapshot

/-! ### Memory -/

/-- A page frame: its bytes, and whether it is anonymous memory (`PageAnon`). -/
structure Frame where
  data : Page
  anon : Bool

/-- The frame of the zero page. -/
def zeroPfn : Nat := 1

/-- The frames, the page cache (the frame that a mapping of a file or of shared memory has for a page) and the
    address spaces. -/
structure Memory where
  frame : Nat → Frame
  /-- The number of the next frame to be allocated. -/
  freshPfn : Nat
  pageCache : Nat → Nat → Nat
  mm : Nat → Mm
  /-- The number of the next address space to be allocated. -/
  freshMm : Nat

namespace Memory
variable (mem : Memory)

def setMm (m : Nat) (mm : Mm) : Memory := { mem with mm := Function.update mem.mm m mm }

def setPte (m page : Nat) (pte : Pte) : Memory := mem.setMm m ((mem.mm m).setPte page pte)

def setFrame (f : Nat) (frame : Frame) : Memory := { mem with frame := Function.update mem.frame f frame }

/-- A new frame; it is anonymous. -/
def newFrame (data : Page) : Memory :=
  { mem with frame := Function.update mem.frame mem.freshPfn ⟨data, true⟩, freshPfn := mem.freshPfn + 1 }

/-- The frame behind a page of a VMA that has no frame of its own there: the object's, or the zero page. -/
def backing (v : VmArea) (page : Nat) : Nat :=
  match v.file with
  | some f => mem.pageCache f page
  | none => zeroPfn

/-- What a page reads as. -/
def content (m page : Nat) : Page :=
  match (mem.mm m).pte page, (mem.mm m).vmaAt page with
  | .present f _, _ => (mem.frame f).data
  | .none, some v => (mem.frame (mem.backing v page)).data
  | .none, none => fun _ => 0

end Memory

/-! ### The records of the module -/

/-- `task_data_list`, newest first, with the records by number, the two per-CPU variables of `memory.c`, and the
    records that are to be freed after a grace period. -/
structure Registry where
  taskDataList : List Nat
  data : Nat → TaskData
  /-- The number of the next record to be allocated. -/
  fresh : Nat
  lastTask : Nat → Option Nat
  lastTaskData : Nat → Option Nat
  rcu : List Nat

namespace Registry
variable (reg : Registry)

def setData (id : Nat) (d : TaskData) : Registry := { reg with data := Function.update reg.data id d }

/-- `get_task_data`. -/
def getTaskData (tsk : Nat) : Option Nat := reg.taskDataList.find? fun id => (reg.data id).tsk == tsk

/-- `ensure_task_data`. -/
def ensureTaskData (tsk : Nat) (alloc : Bool) : Registry × Option Nat :=
  match reg.getTaskData tsk with
  | some id => (reg, some id)
  | none =>
    if alloc then
      ({ reg.setData reg.fresh (.new tsk) with
          taskDataList := reg.fresh :: reg.taskDataList, fresh := reg.fresh + 1 }, some reg.fresh)
    else (reg, none)

/-- `remove_task_data`. -/
def removeTaskData (id : Nat) : Registry :=
  { reg with taskDataList := reg.taskDataList.erase id, rcu := reg.rcu ++ [id] }

/-- `get_task_data_with_cache`. -/
def getTaskDataWithCache (cpu task : Nat) : Registry × Option Nat :=
  if reg.lastTask cpu = some task then (reg, reg.lastTaskData cpu)
  else
    let data := reg.getTaskData task
    ({ reg with
        lastTask := Function.update reg.lastTask cpu (some task)
        lastTaskData := Function.update reg.lastTaskData cpu data }, data)

/-- `invalidate_task_data_cache`. -/
def invalidateTaskDataCache (task : Nat) : Registry :=
  { reg with
    lastTask := fun cpu => if reg.lastTask cpu = some task then none else reg.lastTask cpu
    lastTaskData := fun cpu => if reg.lastTask cpu = some task then none else reg.lastTaskData cpu }

/-- `data && have_snapshot(data)`, for a lookup's result. -/
def ifLive (id : Option Nat) : Option Nat := id.filter fun id => (reg.data id).haveSnapshot

/-- The record of a task that has a live snapshot. -/
def live (tsk : Nat) : Option Nat := reg.ifLive (reg.getTaskData tsk)

end Registry

/-! ### Files and tasks -/

/-- `struct files_struct`: the reference count and the open file behind each descriptor. -/
structure FilesStruct where
  count : Nat
  fds : List (Option Nat)
deriving DecidableEq, Repr

/-- `struct file`, as far as `vfs_llseek` goes. -/
structure OpenFile where
  pos : Int
  seekable : Bool
deriving DecidableEq, Repr

structure Files where
  filesStruct : Nat → FilesStruct
  /-- The number of the next table to be allocated. -/
  fresh : Nat
  file : Nat → OpenFile
  /-- The number of the next file to be opened. -/
  freshFile : Nat

structure Task where
  mm : Nat
  files : Nat
  groupLeader : Nat
  regs : PtRegs
  /-- The task has not exited. -/
  alive : Bool
  sigkill : Bool

/-- `pid_alive`, for a task of a group that a thread is left of: the leader is released last. -/
def Task.pidAlive (task : Task) (t : Nat) : Bool := task.alive || task.groupLeader == t

/-- What the faults and the hooks work on. A null pointer or a freed object that is used is an `oops`. -/
structure Core where
  mem : Memory
  reg : Registry
  oops : Bool

structure World where
  core : Core
  fs : Files
  task : Nat → Task
  /-- The number of the next task to be created. -/
  freshTask : Nat
  /-- The threads of a group in order, the leader first. -/
  threads : Nat → List Nat

/-! ### Outside the module -/

/-- What is decided outside the module while a step of the module runs: the CPU, the outcomes of allocations and
    of other calls into the kernel, and the kernel's own choices. -/
structure Env where
  cpu : Nat
  kzallocTaskData : Bool
  kmallocVmrange : Bool
  take : TakeAlloc
  /-- Allocations of an entry on demand and of the buffer of a page. -/
  snapshotPage : Nat → Bool
  pageData : Nat → Bool
  /-- `copy_to_user` does not fail by itself. -/
  copyToUser : Nat → Bool
  copyFromUser : Bool
  /-- `do_wp_page` makes the frame of a page of an address space writable instead of copying it. -/
  wpReuse : Memory → Nat → Nat → Bool
  /-- A read fault in a shared mapping maps the page writable. -/
  sharedWrite : Nat → Bool
  /-- `mprotect` does not write-protect the page when it leaves its mapping writable. -/
  keepWrite : Nat → Bool
  vmMunmap : Nat → Nat → Bool
  vmMmap : Nat → Nat → Bool
  vmBrk : Nat → Nat → Bool
  dupFd : Bool
  /-- The least size of a new descriptor table. -/
  fdtSize : Nat
  kmallocOffsets : Bool
  /-- Where `vfs_llseek(file, offset, SEEK_SET)` lands. -/
  llseek : Nat → Int → Int

/-- No allocation and no copy fails. -/
structure Env.Allocates (env : Env) : Prop where
  kzallocTaskData : env.kzallocTaskData = true
  kmallocVmrange : env.kmallocVmrange = true
  snapshotVma : ∀ a, env.take.snapshotVma a = true
  takePage : ∀ p, env.take.snapshotPage p = true
  snapshotPage : ∀ p, env.snapshotPage p = true
  pageData : ∀ p, env.pageData p = true
  copyToUser : ∀ p, env.copyToUser p = true

/-- The calls that change the mappings do not fail either. -/
structure Env.Ok (env : Env) : Prop extends Env.Allocates env where
  vmMunmap : ∀ a n, env.vmMunmap a n = true
  vmMmap : ∀ a n, env.vmMmap a n = true
  vmBrk : ∀ a n, env.vmBrk a n = true

/-- The frame is anonymous memory that no other page of any address space maps. -/
structure Memory.Exclusive (mem : Memory) (m page f : Nat) : Prop where
  anon : (mem.frame f).anon = true
  only : ∀ m' p' w, (mem.mm m').pte p' = .present f w → m' = m ∧ p' = page

/-- The kernel makes a frame writable in place only for its one user. -/
def Env.ReuseSound (env : Env) : Prop :=
  ∀ (mem : Memory) m page f w, (mem.mm m).pte page = .present f w → env.wpReuse mem m page = true →
    mem.Exclusive m page f

/-! ### The registry -/

section
variable {reg : Registry} {cpu tsk id : Nat} {d : TaskData}

@[simp] theorem setData_same : (reg.setData id d).data id = d := Function.update_self ..

theorem setData_of_ne {i : Nat} (h : i ≠ id) : (reg.setData id d).data i = reg.data i := Function.update_of_ne h ..

/-- A record without pages and VMAs. -/
def TaskData.Blank (d : TaskData) : Prop :=
  d.ss.allVmas = [] ∧ d.ss.snapshottedVmas = [] ∧ d.ss.ssPages = [] ∧ d.ss.dirtyPages = []

/-- The list has one record for a task at most, and nothing in it before a take. The caches point to records of
    their task, and give the answers that the list gives as far as live snapshots go. -/
structure Registry.Coherent (reg : Registry) : Prop where
  listed : ∀ i ∈ reg.taskDataList, i < reg.fresh
  unique : reg.taskDataList.Pairwise fun i j => (reg.data i).tsk ≠ (reg.data j).tsk
  blank : ∀ i ∈ reg.taskDataList, (reg.data i).haveSnapshot = false → (reg.data i).Blank
  cached : ∀ cpu tsk i, reg.lastTask cpu = some tsk → reg.lastTaskData cpu = some i → (reg.data i).tsk = tsk ∧ i < reg.fresh
  answers : ∀ cpu tsk, reg.lastTask cpu = some tsk → reg.ifLive (reg.lastTaskData cpu) = reg.live tsk

theorem getTaskData_spec (h : reg.getTaskData tsk = some id) : id ∈ reg.taskDataList ∧ (reg.data id).tsk = tsk :=
  ⟨List.mem_of_find?_eq_some h, by simpa using List.find?_some h⟩

theorem live_eq_some : reg.live tsk = some id ↔ reg.getTaskData tsk = some id ∧ (reg.data id).haveSnapshot = true := by
  unfold Registry.live Registry.ifLive
  rw [Option.filter_eq_some_iff]

/-- `reg'` differs from `reg` in the caches only. -/
def Registry.SameButCaches (reg reg' : Registry) : Prop :=
  reg' = { reg with lastTask := reg'.lastTask, lastTaskData := reg'.lastTaskData }

theorem Registry.SameButCaches.live {reg' : Registry} (h : reg.SameButCaches reg') : reg'.live tsk = reg.live tsk := by
  rw [h]
  rfl

theorem Registry.SameButCaches.data {reg' : Registry} (h : reg.SameButCaches reg') : reg'.data = reg.data := by
  rw [h]

/-- A cached lookup leads to the same decision as an uncached one, and keeps the caches so. -/
theorem withCache_spec (h : reg.Coherent) (cpu tsk : Nat) :
    reg.SameButCaches (reg.getTaskDataWithCache cpu tsk).1 ∧ (reg.getTaskDataWithCache cpu tsk).1.Coherent ∧
      reg.ifLive (reg.getTaskDataWithCache cpu tsk).2 = reg.live tsk := by
  unfold Registry.getTaskDataWithCache
  by_cases hc : reg.lastTask cpu = some tsk
  · rw [if_pos hc]
    exact ⟨rfl, h, h.answers cpu tsk hc⟩
  · rw [if_neg hc]
    refine ⟨rfl, ⟨h.listed, h.unique, h.blank, fun cpu' tsk' i hc' hi => ?_, fun cpu' tsk' hc' => ?_⟩, rfl⟩
    · by_cases hcpu : cpu' = cpu
      · subst hcpu
        obtain rfl : tsk = tsk' := by simpa using hc'
        obtain ⟨hin, htsk⟩ := getTaskData_spec (by simpa using hi)
        exact ⟨htsk, h.listed i hin⟩
      · exact h.cached cpu' tsk' i (by simpa [hcpu] using hc') (by simpa [hcpu] using hi)
    · by_cases hcpu : cpu' = cpu
      · subst hcpu
        have htsk : tsk = tsk' := by simpa using hc'
        subst htsk
        simp [Registry.ifLive, Registry.live, Registry.getTaskData]
      · have hc' : reg.lastTask cpu' = some tsk' := by simpa [hcpu] using hc'
        have := h.answers cpu' tsk' hc'
        simpa [hcpu, Registry.ifLive, Registry.live, Registry.getTaskData] using this

/-- The caches of `reg'` hold what they do in `reg`, or records that are listed there. -/
def Registry.CachesFrom (reg reg' : Registry) : Prop :=
  ∀ cpu id, reg'.lastTaskData cpu = some id →
    reg'.lastTask cpu = reg.lastTask cpu ∧ reg.lastTaskData cpu = some id ∨ reg'.lastTask cpu ≠ none ∧ id ∈ reg.taskDataList

theorem Registry.CachesFrom.refl (reg : Registry) : reg.CachesFrom reg := fun _ _ h => Or.inl ⟨rfl, h⟩

theorem Registry.CachesFrom.trans {reg₁ reg₂ : Registry} (h₁ : reg.CachesFrom reg₁) (h₂ : reg₁.CachesFrom reg₂)
    (hlist : reg₁.taskDataList = reg.taskDataList) : reg.CachesFrom reg₂ := fun cpu id hid => by
  rcases h₂ cpu id hid with ⟨htask, hdata⟩ | ⟨htask, hin⟩
  · rw [htask]
    exact h₁ cpu id hdata
  · exact Or.inr ⟨htask, hlist ▸ hin⟩

theorem withCache_caches (reg : Registry) (cpu tsk : Nat) : reg.CachesFrom (reg.getTaskDataWithCache cpu tsk).1 := by
  unfold Registry.getTaskDataWithCache
  split
  · exact .refl reg
  intro cpu' id hid
  by_cases hcpu : cpu' = cpu
  · subst hcpu
    have hget : reg.getTaskData tsk = some id := by simpa using hid
    exact Or.inr ⟨by simp, (getTaskData_spec hget).1⟩
  · exact Or.inl ⟨Function.update_of_ne hcpu .., by simpa [hcpu] using hid⟩

theorem setData_tsk (htsk : d.tsk = (reg.data id).tsk) (i : Nat) : ((reg.setData id d).data i).tsk = (reg.data i).tsk := by
  by_cases hi : i = id
  · rw [hi, setData_same, htsk]
  · rw [setData_of_ne hi]

theorem getTaskData_setData (htsk : d.tsk = (reg.data id).tsk) (t : Nat) :
    (reg.setData id d).getTaskData t = reg.getTaskData t := by
  show List.find? _ reg.taskDataList = _
  simp only [Registry.getTaskData, setData_tsk htsk]

/-- An update of a record that keeps its task and its status changes no answer. -/
theorem setData_live (htsk : d.tsk = (reg.data id).tsk) (hlive : d.haveSnapshot = (reg.data id).haveSnapshot) :
    (∀ o, (reg.setData id d).ifLive o = reg.ifLive o) ∧ ∀ t, (reg.setData id d).live t = reg.live t := by
  have hmade : ∀ i, ((reg.setData id d).data i).haveSnapshot = (reg.data i).haveSnapshot := fun i => by
    by_cases hi : i = id
    · rw [hi, setData_same, hlive]
    · rw [setData_of_ne hi]
  have h1 : ∀ o, (reg.setData id d).ifLive o = reg.ifLive o := fun o => by
    simp only [Registry.ifLive, hmade]
  refine ⟨h1, fun t => ?_⟩
  rw [Registry.live, getTaskData_setData htsk, h1, Registry.live]

theorem Registry.Coherent.setData (h : reg.Coherent) (htsk : d.tsk = (reg.data id).tsk)
    (hlive : d.haveSnapshot = (reg.data id).haveSnapshot)
    (hblank : (reg.data id).haveSnapshot = false → (reg.data id).Blank → d.Blank) : (reg.setData id d).Coherent := by
  obtain ⟨h1, h3⟩ := setData_live htsk hlive
  refine ⟨h.listed, ?_, fun i hi hmade => ?_, fun cpu tsk i hc hi => ?_, fun cpu tsk hc => ?_⟩
  · have := h.unique
    simp only [setData_tsk htsk]
    exact this
  · by_cases hid : i = id
    · subst hid
      rw [setData_same] at hmade ⊢
      exact hblank (hlive ▸ hmade) (h.blank i hi (hlive ▸ hmade))
    · rw [setData_of_ne hid] at hmade ⊢
      exact h.blank i hi hmade
  · rw [setData_tsk htsk]
    exact h.cached cpu tsk i hc hi
  · rw [h1, h3]
    exact h.answers cpu tsk hc

end
end AflSnapshot
