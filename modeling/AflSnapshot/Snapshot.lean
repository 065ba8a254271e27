import AflSnapshot.Files
import AflSnapshot.Restore

/-! The commands of the module (`snapshot.c`, `threads.c`, the rest of `files.c`, and the `ioctl` of `module.c`),
for a calling task. -/

namespace AflSnapshot
namespace World
variable (env : Env) (tsk : Nat) (w : World)

def setTask (t : Nat) (task : Task) : World := { w with task := Function.update w.task t task }

def oops : World := { w with core := { w.core with oops := true } }

def mapCore (f : Core → Core) : World := { w with core := f w.core }

/-- `ensure_task_data(current)`. -/
def ensureTaskData : World × Option Nat :=
  let r := w.core.reg.ensureTaskData tsk env.kzallocTaskData
  (w.mapCore fun c => { c with reg := r.1 }, r.2)

/-! ### The range lists -/

/-- `exclude_vmrange` and `include_vmrange`; a missing record is only used once the node is allocated. -/
def addVmrange (f : RangeLists → RangeLists) : World :=
  match w.ensureTaskData env tsk with
  | (w, none) => if env.kmallocVmrange then w.oops else w
  | (w, some id) =>
    if env.kmallocVmrange then w.mapCore (·.modifyData id fun d => { d with ranges := f d.ranges }) else w

def excludeVmrange (start end_ : Nat) : World := w.addVmrange env tsk (·.exclude start end_)

def includeVmrange (start end_ : Nat) : World := w.addVmrange env tsk (·.include_ start end_)

/-! ### Take -/

/-- `initialize_snapshot`. -/
def initializeSnapshot (id config : Nat) : World :=
  let task := w.task tsk
  w.mapCore (·.modifyData id fun d =>
    { d with
      config
      ss := { d.ss with had := true, made := true, regs := task.regs, oldbrk := (w.core.mem.mm task.mm).brk } })

/-- `take_files_snapshot`. -/
def takeFiles (id : Nat) : World :=
  let r := w.fs.takeFilesSnapshot env (w.task tsk).files (w.core.reg.data id)
  { w with fs := r.1.1 }.mapCore (·.modifyData id fun d => { d with ss := { d.ss with ssFiles := r.1.2 } })

/-- `take_snapshot`. -/
def takeSnapshot (config : Nat) : World × Int :=
  match w.ensureTaskData env tsk with
  | (w, none) => (w.oops, 0)
  | (w, some id) =>
    if (w.core.reg.data id).haveSnapshot then (w, 0)
    else
      let w := w.initializeSnapshot tsk id config
      let w := w.mapCore fun c => (c.takeMemorySnapshot env (w.task tsk).mm id).1
      (w.takeFiles env tsk id, 1)

/-! ### Restore -/

/-- `send_sig(SIGKILL, t, 1)`. -/
def sendSigkill (t : Nat) : World := w.setTask t { w.task t with sigkill := true }

/-- The tasks that the loop of `recover_threads_snapshot` comes to, `next_tid` giving none after one without a process
    number. A leader that has exited keeps its number as long as there are other threads. -/
def tids (task : Nat → Task) : List Nat → List Nat
  | [] => []
  | t :: l => if (task t).pidAlive t then t :: tids task l else [t]

/-- `recover_threads_snapshot`. -/
def recoverThreadsSnapshot : World :=
  (tids w.task (w.threads (w.task tsk).groupLeader)).foldl
    (fun w t => if t = tsk then w else w.sendSigkill t) w

/-- `recover_state`. -/
def recoverState (id : Nat) : World :=
  let data := w.core.reg.data id
  let w := if hasFlag data.config aflSnapshotRegs then w.setTask tsk { w.task tsk with regs := data.ss.regs } else w
  w.mapCore fun c => (c.restoreBrk env (w.task tsk).mm data.ss.oldbrk).1

/-- The loop of `recover_files_snapshot` over the threads. -/
def replaceFiles (old restored : Nat) (w : World) (t : Nat) : World :=
  if (w.task t).files = old then
    let fs := if t = tsk then w.fs else w.fs.addCount restored 1
    { w.setTask t { w.task t with files := restored } with fs := fs.putFilesStruct old }
  else w

/-- `recover_files_snapshot`. -/
def recoverFilesSnapshot (id : Nat) : World × Int :=
  let data := w.core.reg.data id
  if hasFlag data.config aflSnapshotFds then
    match data.ss.ssFiles with
    | ⟨some files, some offsets⟩ =>
      match w.fs.dupFd env files with
      | (fs, none) => ({ w with fs }, -12)
      | (fs, some restored) =>
        let r := iterateFd (Files.restoreFileOffset env offsets) (fs.filesStruct restored).fds 0 fs
        let w := { w with fs := r.1 }
        if r.2 = 0 then
          ((w.threads (w.task tsk).groupLeader).foldl (replaceFiles tsk (w.task tsk).files restored) w, 0)
        else ({ w with fs := w.fs.putFilesStruct restored }, r.2)
    | _ => (w, -22)
  else (w, 0)

/-- `restore_snapshot`. -/
def restoreSnapshot (id : Nat) : World :=
  let w := w.recoverThreadsSnapshot tsk
  let w := w.recoverState env tsk id
  let w := w.mapCore fun c => (c.recoverMemorySnapshot env (w.task tsk).mm id).1
  (w.recoverFilesSnapshot env tsk id).1

/-- `recover_snapshot`. -/
def recoverSnapshot : World × Int :=
  match w.core.reg.getTaskData tsk with
  | none => (w, 1)
  | some id => (w.restoreSnapshot env tsk id, 0)

/-! ### Clean -/

/-- `clean_snapshot`. -/
def cleanSnapshot : World :=
  match w.core.reg.getTaskData tsk with
  | none => w
  | some id =>
    let w := w.mapCore (·.cleanMemorySnapshot id)
    let r := w.fs.cleanFilesSnapshot (w.core.reg.data id)
    { w with fs := r.1 }.mapCore fun c =>
      let c := c.modifyData id fun d => { d with ss := { d.ss with ssFiles := r.2 } }
      let c := c.modifyData id TaskData.clearSnapshot
      { c with reg := c.reg.removeTaskData id }

/-! ### Exit -/

/-- `do_exit` itself: the task leaves its group, and its descriptor table. -/
def doExitOrig : World :=
  let task := w.task tsk
  let w := w.setTask tsk { task with alive := false }
  { w with
    fs := w.fs.putFilesStruct task.files
    threads := Function.update w.threads task.groupLeader
      (if task.groupLeader = tsk then w.threads task.groupLeader else (w.threads task.groupLeader).erase tsk) }

/-- `do_exit_hook`. -/
def doExitHook : World :=
  match w.core.reg.getTaskData tsk with
  | none => w.doExitOrig tsk
  | some id => if (w.core.reg.data id).hadSnapshot then (w.cleanSnapshot tsk).doExitOrig tsk else w.doExitOrig tsk

/-- `exit_snapshot`. -/
def exitSnapshot : World × Int :=
  match w.core.reg.getTaskData tsk with
  | none => (w, 1)
  | some id =>
    let data := w.core.reg.data id
    if hasFlag data.config aflSnapshotExit && data.haveSnapshot then (w.restoreSnapshot env tsk id, 0)
    else if data.hadSnapshot then (w.cleanSnapshot tsk, 1)
    else (w, 1)

/-- `sys_exit_group_hook`; `exit_group` kills the other threads and exits. -/
def sysExitGroupHook : World :=
  match w.exitSnapshot env tsk with
  | (w, 0) => w
  | (w, _) => (w.recoverThreadsSnapshot tsk).doExitHook tsk

/-! ### The device -/

end World

/-- The commands that `mod_dev_ioctl` knows. -/
inductive Ioctl where
  | excludeVmrange (start end_ : Nat)
  | includeVmrange (start end_ : Nat)
  | take (config : Nat)
  | do_
  | restore
  | clean
deriving DecidableEq, Repr

/-- `mod_dev_ioctl`. -/
def World.ioctl (env : Env) (tsk : Nat) (w : World) : Ioctl → World × Int
  | .excludeVmrange start end_ => if env.copyFromUser then (w.excludeVmrange env tsk start end_, 0) else (w, -22)
  | .includeVmrange start end_ => if env.copyFromUser then (w.includeVmrange env tsk start end_, 0) else (w, -22)
  | .take config => w.takeSnapshot env tsk config
  | .do_ => w.takeSnapshot env tsk (aflSnapshotMmap ||| aflSnapshotFds ||| aflSnapshotRegs ||| aflSnapshotExit)
  | .restore => w.recoverSnapshot env tsk
  | .clean => (w.cleanSnapshot tsk, 0)

/-! ### The system -/

namespace World
variable (env : Env) (tsk : Nat) (w : World)

/-- `fork` by a single-threaded process; the child is a process of its own. -/
def fork : World :=
  let parent := w.task tsk
  let child := w.freshTask
  let files := w.fs.fresh
  { core := w.core.setMem (w.core.mem.dupMm parent.mm child)
    fs := { w.fs with
      filesStruct := Function.update w.fs.filesStruct files ⟨1, (w.fs.filesStruct parent.files).fds⟩
      fresh := files + 1 }
    task := Function.update w.task child
      { parent with mm := w.core.mem.freshMm, files, groupLeader := child, sigkill := false }
    freshTask := child + 1
    threads := Function.update w.threads child [child] }

end World

/-- What a process does, and what the kernel does to its pages. A page that is discarded or swapped out loses its
    page-table entry. -/
inductive Op where
  | read (addr : Nat)
  | write (addr : Nat) (byte : UInt8)
  | discard (addr : Nat)
  | munmap (start len : Nat)
  | brk (brk : Nat)
  | mprotect (start len prot : Nat)
  | mmap (start len prot : Nat) (object : Option Nat) (shared : Bool)
  | movePages (old new len : Nat)
  | swapIn (addr : Nat) (data : Page) (write : Bool)
  | file (op : FileOp)
  | fork
  | ioctl (cmd : Ioctl)
  | exit
  | exitGroup

/-- A task takes a step. -/
def World.step (env : Env) (tsk : Nat) (w : World) : Op → World
  | .read addr => w.mapCore (·.readByte env (w.task tsk).mm addr)
  | .write addr byte => w.mapCore (·.writeByte env (w.task tsk).mm addr byte)
  | .discard addr => w.mapCore (·.zapPage (w.task tsk).mm (pageBase addr))
  | .munmap start len => w.mapCore fun c => (c.doMunmap env (w.task tsk).mm start len).1
  | .brk brk => w.mapCore (·.brkShrink env (w.task tsk).mm brk)
  | .mprotect start len prot => w.mapCore (·.mprotect env (w.task tsk).mm start len prot)
  | .mmap start len prot object shared => w.mapCore (·.mmapFixed env (w.task tsk).mm start len prot object shared)
  | .movePages old new len => w.mapCore (·.movePages (w.task tsk).mm old new len)
  | .swapIn addr data write => w.mapCore (·.swapIn (w.task tsk).mm (pageBase addr) data write)
  | .file op => { w with fs := w.fs.call (w.task tsk).files op }
  | .fork => w.fork tsk
  | .ioctl cmd => (w.ioctl env tsk cmd).1
  | .exit => w.doExitHook tsk
  | .exitGroup => w.sysExitGroupHook env tsk

end AflSnapshot
