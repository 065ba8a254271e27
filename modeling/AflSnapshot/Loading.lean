import AflSnapshot.Lib.Keyed
import AflSnapshot.Types
import Mathlib.Logic.Function.Basic

/-! Loading and unloading the module: the two kinds of hooks (`ftrace_helper.h`, `hook.c`), `mod_init` and `mod_exit`. -/

namespace AflSnapshot

/-- The kernel functions that the module calls through a pointer: those that are not exported, and the originals of the
    two that it replaces. -/
inductive KernelFn
  | flushTlbMmRange
  | zapPageRange
  | dupFd
  | putFilesStruct
  | walkPageVma
  | walkPageRange
  | sysExitGroup
  | doExit
deriving DecidableEq, Repr

inductive Handler
  | sysExitGroupHook
  | doExitHook
  | doWpPageHook
  | pageAddNewAnonRmapHook
  | doMunmapHook
deriving DecidableEq, Repr

/-- `struct ftrace_hook`, less what is set when it is installed. -/
structure FtraceHook where
  name : String
  function : Handler
  original : KernelFn

/-- `struct hook`, less its operations and its list node. -/
structure Hook where
  symbolName : String
  func : Handler

/-- The `struct ftrace_ops` of the module: in an element of the array, and in a node of the list, by number. -/
inductive FtraceOps
  | hook (i : Nat)
  | node (n : Nat)
deriving DecidableEq

/-- The module, and what the kernel has of it. -/
structure Module where
  /-- `misc_dev` is registered. -/
  device : Bool
  registered : FtraceOps → Bool
  /-- The operations have a filter. -/
  filtered : FtraceOps → Bool
  /-- `hook->address` of an element of the array. -/
  address : Nat → Nat
  /-- The list `hooks`, newest first, with the nodes by number, and those of them that are allocated. -/
  hooks : List Nat
  node : Nat → Hook
  allocated : Nat → Bool
  /-- The number of the next node to be allocated. -/
  fresh : Nat
  /-- The pointers, 0 before they are resolved. -/
  pointer : KernelFn → Nat

/-- The results of the calls into the kernel. -/
structure LoadEnv where
  miscRegister : Int
  kallsymsLookupName : String → Nat
  ftraceSetFilterIp : Nat → Int
  kzallocHook : Nat → Bool
  ftraceSetFilter : Nat → Int
  registerFtraceFunction : FtraceOps → Int

namespace Module
variable (env : LoadEnv) (m : Module)

/-- The module as the kernel loads it. -/
def loaded : Module where
  device := false
  registered _ := false
  filtered _ := false
  address _ := 0
  hooks := []
  node _ := ⟨"", .doWpPageHook⟩
  allocated _ := false
  fresh := 0
  pointer _ := 0

def setRegistered (ops : FtraceOps) (b : Bool) : Module := { m with registered := Function.update m.registered ops b }

def setFiltered (ops : FtraceOps) (b : Bool) : Module := { m with filtered := Function.update m.filtered ops b }

def setPointer (f : KernelFn) (address : Nat) : Module := { m with pointer := Function.update m.pointer f address }

/-- `register_ftrace_function`. -/
def registerFtraceFunction (ops : FtraceOps) : Module × Int :=
  let err := env.registerFtraceFunction ops
  if err = 0 then (m.setRegistered ops true, 0) else (m, err)

/-! ### The array -/

/-- `fh_resolve_hook_address`. -/
def fhResolveHookAddress (hook : FtraceHook) (i : Nat) : Module × Int :=
  let address := env.kallsymsLookupName hook.name
  let m := { m with address := Function.update m.address i address }
  if address = 0 then (m, -2) else (m.setPointer hook.original address, 0)

/-- `ftrace_set_filter_ip` with the address of an element of the array. -/
def ftraceSetFilterIp (i : Nat) : Module × Int :=
  let err := env.ftraceSetFilterIp i
  if err = 0 then (m.setFiltered (.hook i) true, 0) else (m, err)

/-- `fh_install_hook`. -/
def fhInstallHook (hook : FtraceHook) (i : Nat) : Module × Int :=
  let r := m.fhResolveHookAddress env hook i
  if r.2 ≠ 0 then r
  else
    let r := r.1.ftraceSetFilterIp env i
    if r.2 ≠ 0 then r else r.1.registerFtraceFunction env (.hook i)

/-- `fh_remove_hook`. -/
def fhRemoveHook (i : Nat) : Module := (m.setRegistered (.hook i) false).setFiltered (.hook i) false

/-- `while (i != 0) fh_remove_hook(&hooks[--i])`. -/
def fhRollBack : Nat → Module → Module
  | 0, m => m
  | i + 1, m => fhRollBack i (m.fhRemoveHook i)

/-- `fh_install_hooks`, from the element number `i` on. -/
def fhInstallHooks : List FtraceHook → Nat → Module → Module × Int
  | [], _, m => (m, 0)
  | hook :: hooks, i, m =>
    let r := m.fhInstallHook env hook i
    if r.2 ≠ 0 then (fhRollBack i r.1, r.2) else fhInstallHooks hooks (i + 1) r.1

/-- `fh_remove_hooks`. -/
def fhRemoveHooks (count : Nat) : Module := (List.range count).foldl fhRemoveHook m

/-! ### The list -/

/-- `kfree`. -/
def freeHook (n : Nat) : Module := { m with allocated := Function.update m.allocated n false }

/-- `try_hook`. -/
def tryHook (funcName : String) (handler : Handler) : Module × Int :=
  let n := m.fresh
  if env.kzallocHook n then
    let m := { m with
      node := Function.update m.node n ⟨funcName, handler⟩
      allocated := Function.update m.allocated n true
      fresh := n + 1 }
    let err := env.ftraceSetFilter n
    if err ≠ 0 then (m.freeHook n, err)
    else
      let r := (m.setFiltered (.node n) true).registerFtraceFunction env (.node n)
      if r.2 ≠ 0 then (r.1.freeHook n, r.2) else ({ r.1 with hooks := n :: r.1.hooks }, 0)
  else (m, -12)

/-- `unhook_all`. -/
def unhookAll : Module :=
  { m.hooks.foldl (fun m n => (m.setRegistered (.node n) false).freeHook n) m with hooks := [] }

/-- `unhook`: the newest hook of the function. -/
def unhook (funcName : String) : Module :=
  match Keyed.get (fun n => (m.node n).symbolName) m.hooks funcName with
  | some n => { (m.setRegistered (.node n) false).freeHook n with hooks := m.hooks.erase n }
  | none => m

/-- The calls of `try_hook` in a row. -/
def tryHooks : List Hook → Module → Module × Int
  | [], m => (m, 0)
  | hook :: hooks, m =>
    let r := m.tryHook env hook.symbolName hook.func
    if r.2 ≠ 0 then (r.1, -2) else tryHooks hooks r.1

/-! ### The module -/

def nonExportedSymbols : List (KernelFn × String) :=
  [(.flushTlbMmRange, "flush_tlb_mm_range"), (.zapPageRange, "zap_page_range"), (.dupFd, "dup_fd"),
    (.putFilesStruct, "put_files_struct"), (.walkPageVma, "walk_page_vma"), (.walkPageRange, "walk_page_range")]

/-- `resolve_non_exported_symbols`. -/
def resolveNonExportedSymbols : Module × Int :=
  let m := nonExportedSymbols.foldl (fun m s => m.setPointer s.1 (env.kallsymsLookupName s.2)) m
  if nonExportedSymbols.any fun s => m.pointer s.1 == 0 then (m, -2) else (m, 0)

def miscDeregister : Module := { m with device := false }

/-- The label `err_hooks`, and what follows it. -/
def errHooks : Module := m.unhookAll.miscDeregister

/-- `mod_init`, for an array of hooks and the calls of `try_hook` after it. -/
def modInitWith (ftraceHooks : List FtraceHook) (tried : List Hook) : Module × Int :=
  if env.miscRegister ≠ 0 then (m, env.miscRegister)
  else
    let r := fhInstallHooks env ftraceHooks 0 { m with device := true }
    if r.2 ≠ 0 then (r.1.miscDeregister, r.2)
    else
      let r := tryHooks env tried r.1
      if r.2 ≠ 0 then (r.1.errHooks, r.2)
      else
        let r := r.1.resolveNonExportedSymbols env
        if r.2 ≠ 0 then (r.1.errHooks, r.2) else (r.1, 0)

/-- The array of `module.c`. -/
def ftraceHooks : List FtraceHook :=
  [⟨"__x64_sys_exit_group", .sysExitGroupHook, .sysExitGroup⟩, ⟨"do_exit", .doExitHook, .doExit⟩]

def triedHooks : List Hook :=
  [⟨"do_wp_page", .doWpPageHook⟩, ⟨"page_add_new_anon_rmap", .pageAddNewAnonRmapHook⟩, ⟨"__do_munmap", .doMunmapHook⟩]

/-- `mod_init`. -/
def modInit : Module × Int := m.modInitWith env ftraceHooks triedHooks

/-- `mod_exit`. -/
def modExit : Module := (m.unhookAll.fhRemoveHooks ftraceHooks.length).miscDeregister

end Module
end AflSnapshot
