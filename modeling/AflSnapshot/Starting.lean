import AflSnapshot.Loading
import AflSnapshot.Snapshot

/-! The module while `mod_init` runs: the steps of `mod_init`, and what tasks do to the module between them. -/

namespace AflSnapshot

/-- A step of `mod_init`, in order or on its way back. -/
inductive LoadStep where
  | miscRegister
  | fhResolveHookAddress (hook : FtraceHook) (i : Nat)
  | ftraceSetFilterIp (i : Nat)
  | registerFtraceFunction (i : Nat)
  | tryHook (hook : Hook)
  | resolve (f : KernelFn) (name : String)
  | checkResolved
  | fhRemoveHook (i : Nat)
  | unhook (n : Nat)
  | miscDeregister

namespace LoadStep
variable (env : LoadEnv) (m : Module)

/-- The step, with what tells `mod_init` to go on. -/
def run : LoadStep → Module × Int
  | .miscRegister => if env.miscRegister ≠ 0 then (m, env.miscRegister) else ({ m with device := true }, 0)
  | .fhResolveHookAddress hook i => m.fhResolveHookAddress env hook i
  | .ftraceSetFilterIp i => m.ftraceSetFilterIp env i
  | .registerFtraceFunction i => m.registerFtraceFunction env (.hook i)
  | .tryHook hook => m.tryHook env hook.symbolName hook.func
  | .resolve f name => (m.setPointer f (env.kallsymsLookupName name), 0)
  | .checkResolved => (m, if Module.nonExportedSymbols.any fun s => m.pointer s.1 == 0 then -2 else 0)
  | .fhRemoveHook i => (m.fhRemoveHook i, 0)
  | .unhook n => ({ (m.setRegistered (.node n) false).freeHook n with hooks := m.hooks.erase n }, 0)
  | .miscDeregister => (m.miscDeregister, 0)

/-- The steps that are left when the step has failed. -/
def unwind : LoadStep → List LoadStep
  | .fhResolveHookAddress _ i | .ftraceSetFilterIp i | .registerFtraceFunction i =>
    (List.range i).reverse.map .fhRemoveHook ++ [.miscDeregister]
  | .tryHook _ | .checkResolved => m.hooks.map .unhook ++ [.miscDeregister]
  | _ => []

end LoadStep

/-- The steps of `fh_install_hook` for the elements of the array from number `i` on. -/
def installSteps : List FtraceHook → Nat → List LoadStep
  | [], _ => []
  | hook :: hooks, i =>
    .fhResolveHookAddress hook i :: .ftraceSetFilterIp i :: .registerFtraceFunction i :: installSteps hooks (i + 1)

/-- The steps of `mod_init`. -/
def loadSteps : List LoadStep :=
  .miscRegister :: installSteps Module.ftraceHooks 0 ++ Module.triedHooks.map .tryHook ++
    Module.nonExportedSymbols.map (fun s => .resolve s.1 s.2) ++ [.checkResolved]

/-- The steps in a row. -/
def runSteps (env : LoadEnv) : List LoadStep → Module → Module
  | [], m => m
  | l :: todo, m =>
    let r := l.run env m
    if r.2 = 0 then runSteps env todo r.1 else (l.unwind r.1).foldl (fun m l => (l.run env m).1) r.1

/-! ### Handlers -/

namespace Module
variable (m : Module)

/-- A hook of the array with the handler is registered. -/
def ArrayRuns (handler : Handler) : Prop :=
  ∃ i hook, ftraceHooks[i]? = some hook ∧ hook.function = handler ∧ m.registered (.hook i) = true

/-- A hook of the list with the handler is registered. -/
def ListRuns (handler : Handler) : Prop := ∃ n, (m.node n).func = handler ∧ m.registered (.node n) = true

end Module

namespace World
variable (env : Env) (tsk : Nat) (w : World)

/-- The pointers that a take calls through: it walks every VMA that it links, flushes every entry that it
    write-protects, and puts the copied table back where it cannot have an array of offsets. -/
def TakeCalls (config : Nat) (f : KernelFn) : Prop :=
  match w.ensureTaskData env tsk with
  | (_, none) => False
  | (w, some id) =>
    if (w.core.reg.data id).haveSnapshot then False
    else
      let w := w.initializeSnapshot tsk id config
      let m := (w.task tsk).mm
      let c := (w.core.takeMemorySnapshot env m id).1
      match f with
      | .walkPageVma => (c.reg.data id).ss.snapshottedVmas ≠ (w.core.reg.data id).ss.snapshottedVmas
      | .flushTlbMmRange => ∃ page, (c.mem.mm m).pte page ≠ (w.core.mem.mm m).pte page
      | .dupFd => hasFlag config aflSnapshotFds = true
      | .putFilesStruct => hasFlag config aflSnapshotFds = true ∧ env.dupFd = true ∧ env.kmallocOffsets = false
      | _ => False

/-- A clean puts a table that the snapshot holds. -/
def CleanCalls (f : KernelFn) : Prop :=
  f = .putFilesStruct ∧ ∃ id, w.core.reg.getTaskData tsk = some id ∧ (w.core.reg.data id).ss.ssFiles.files.isSome = true

/-- The pointers that `do_exit_hook` calls through. -/
def DoExitCalls (f : KernelFn) : Prop :=
  f = .doExit ∨ ∃ id, w.core.reg.getTaskData tsk = some id ∧ (w.core.reg.data id).hadSnapshot = true ∧ w.CleanCalls tsk f

/-- `exit_snapshot` restores. -/
def exitRestores : Bool :=
  (w.core.reg.getTaskData tsk).any fun id =>
    hasFlag (w.core.reg.data id).config aflSnapshotExit && (w.core.reg.data id).haveSnapshot

/-- The pointers that `sys_exit_group_hook` calls through, where it does not restore. -/
def ExitGroupCalls (f : KernelFn) : Prop :=
  w.exitRestores tsk = false ∧ (f = .sysExitGroup ∨
    ∃ id, w.core.reg.getTaskData tsk = some id ∧ (w.core.reg.data id).hadSnapshot = true ∧ w.CleanCalls tsk f)

/-- `sys_exit_group_hook` as far as its call of the original. -/
def exitGroupHook : World :=
  match w.core.reg.getTaskData tsk with
  | none => w
  | some id =>
    if w.exitRestores tsk then w.recoverThreadsSnapshot tsk
    else if (w.core.reg.data id).hadSnapshot then w.cleanSnapshot tsk
    else w

/-- The pointers that a round of the loop of `recover_memory_snapshot` calls through. -/
def EntryCalls (page : Nat) (f : KernelFn) : Prop :=
  ∃ id sp, w.core.reg.getTaskData tsk = some id ∧ (w.core.reg.data id).getSnapshotPage page = some sp ∧
    match f with
    | .flushTlbMmRange => (sp.dirty && sp.hasBeenCopied) = true ∧ (w.core.mem.mm (w.task tsk).mm).slot page = true
    | .zapPageRange => (sp.dirty && sp.hasBeenCopied) = false ∧ sp.isPrivate = false ∧ (sp.isNonePte && sp.hasHadPte) = true
    | _ => False

/-- A round of the loop of `recover_memory_snapshot`, without the faults of its copy. -/
def recoverEntry (page : Nat) : World :=
  match w.core.reg.getTaskData tsk with
  | none => w
  | some id => w.mapCore (·.recoverEntry { env with copyToUser := fun _ => false } (w.task tsk).mm id page)

/-- The pointers that `recover_files_snapshot` calls through. -/
def FilesCalls (f : KernelFn) : Prop :=
  ∃ id files offsets, w.core.reg.getTaskData tsk = some id ∧ hasFlag (w.core.reg.data id).config aflSnapshotFds = true ∧
    (w.core.reg.data id).ss.ssFiles = ⟨some files, some offsets⟩ ∧
    (f = .dupFd ∨ f = .putFilesStruct ∧ env.dupFd = true)

/-- `recover_files_snapshot` of a task that has a record. -/
def recoverFiles : World :=
  match w.core.reg.getTaskData tsk with
  | none => w
  | some id => (w.recoverFilesSnapshot env tsk id).1

end World

/-! ### The system -/

/-- The system while the module is loaded. -/
structure Starting where
  world : World
  mod : Module
  /-- The steps of `mod_init` that are left. -/
  todo : List LoadStep
  /-- A process has opened the device. -/
  opened : Bool

/-- What happens meanwhile. A restore, by a command or at an exit, goes on with the rounds over its dirty pages and its
    files, in steps of their own; what it makes the kernel do is done by `system`, with the hooks on the way. -/
inductive StartEvent where
  | load
  | openDevice
  | ioctl (env : Env) (tsk : Nat) (cmd : Ioctl)
  | recoverEntry (env : Env) (tsk page : Nat)
  | recoverFiles (env : Env) (tsk : Nat)
  | doWpPageHook (env : Env) (m page : Nat)
  | pageAddNewAnonRmapHook (env : Env) (m page : Nat)
  | doMunmapHook (env : Env) (m start len : Nat)
  | sysExitGroupHook (tsk : Nat)
  | doExitHook (tsk : Nat)
  /-- The kernel and the processes do anything that is not the module's. -/
  | system (w : World)

namespace Starting
variable (lenv : LoadEnv) (s : Starting)

/-- The system as `mod_init` starts: the module has no records. -/
def start (w : World) : Starting where
  world := { w with core := { w.core with reg := ⟨[], fun _ => .new 0, 0, fun _ => none, fun _ => none, []⟩ } }
  mod := .loaded
  todo := loadSteps
  opened := false

/-- The next step of `mod_init`. -/
def load : Starting :=
  match s.todo with
  | [] => s
  | l :: todo =>
    let r := l.run lenv s.mod
    { s with mod := r.1, todo := if r.2 = 0 then todo else l.unwind r.1 }

/-- A command; a restore begins with the threads. -/
def command (env : Env) (tsk : Nat) : Ioctl → World
  | .restore =>
    match s.world.core.reg.getTaskData tsk with
    | none => s.world
    | some _ => s.world.recoverThreadsSnapshot tsk
  | cmd => (s.world.ioctl env tsk cmd).1

def step (s : Starting) : StartEvent → Starting
  | .load => s.load lenv
  | .openDevice => { s with opened := true }
  | .ioctl env tsk cmd => { s with world := s.command env tsk cmd }
  | .recoverEntry env tsk page => { s with world := s.world.recoverEntry env tsk page }
  | .recoverFiles env tsk => { s with world := s.world.recoverFiles env tsk }
  | .doWpPageHook env m page => { s with world := s.world.mapCore fun c => (c.doWpPageHook env m page).1 }
  | .pageAddNewAnonRmapHook env m page => { s with world := s.world.mapCore (·.pageAddNewAnonRmapHook env m page) }
  | .doMunmapHook env m start len => { s with world := s.world.mapCore (·.doMunmapHook env m start len) }
  | .sysExitGroupHook tsk => { s with world := s.world.exitGroupHook tsk }
  | .doExitHook tsk => { s with world := s.world.doExitHook tsk }
  | .system w => { s with world := { w with core := { w.core with reg := s.world.core.reg } } }

/-- The device can be opened once it is registered, and stays open; a hook can run while it is registered. -/
def Possible : StartEvent → Prop
  | .openDevice => s.mod.device = true
  | .ioctl .. => s.opened = true
  | .doWpPageHook .. => s.mod.ListRuns .doWpPageHook
  | .pageAddNewAnonRmapHook .. => s.mod.ListRuns .pageAddNewAnonRmapHook
  | .doMunmapHook .. => s.mod.ListRuns .doMunmapHook
  | .sysExitGroupHook _ => s.mod.ArrayRuns .sysExitGroupHook
  | .doExitHook _ => s.mod.ArrayRuns .doExitHook
  | _ => True

/-- The pointers that the module calls through in an event. -/
def Calls : StartEvent → KernelFn → Prop
  | .ioctl env tsk (.take config) => s.world.TakeCalls env tsk config
  | .ioctl env tsk .do_ => s.world.TakeCalls env tsk (aflSnapshotMmap ||| aflSnapshotFds ||| aflSnapshotRegs ||| aflSnapshotExit)
  | .ioctl _ tsk .clean => s.world.CleanCalls tsk
  | .recoverEntry _ tsk page => s.world.EntryCalls tsk page
  | .recoverFiles env tsk => s.world.FilesCalls env tsk
  | .doWpPageHook env m page => fun f => f = .flushTlbMmRange ∧ (s.world.core.doWpPageHook env m page).2 = true
  | .doMunmapHook env m _ _ => fun f => f = .walkPageRange ∧ (s.world.core.ownerLive env m).2.isSome = true
  | .sysExitGroupHook tsk => s.world.ExitGroupCalls tsk
  | .doExitHook tsk => s.world.DoExitCalls tsk
  | _ => fun _ => False

end Starting
end AflSnapshot
