import AflSnapshot.Lib.Keyed
import AflSnapshot.Lib.Spans
import AflSnapshot.Lib.PageWalk
import AflSnapshot.Lib.LinkRing
import Mathlib.Tactic.Linarith

/-! The data of the module (`snapshot.h`, `task_data.h`, `afl_snapshot.h`) and of the kernel's address
spaces that it works on. Addresses, lengths and the words of flags are natural numbers; a pointer to a
kernel object is the object's number. -/

namespace AflSnapshot
open PageWalk (Level)

/-! ### Addresses -/

abbrev pageSize : Nat := 4096

def ulongMax : Nat := 2 ^ 64 - 1

/-- `addr & PAGE_MASK`. -/
def pageBase (addr : Nat) : Nat := addr - addr % pageSize

/-- `PAGE_ALIGN(addr)`. -/
def pageAlign (addr : Nat) : Nat := pageBase (addr + (pageSize - 1))

/-- The bytes of a page. -/
abbrev Page := Fin pageSize → UInt8

/-! ### Flags -/

def aflSnapshotMmap : Nat := 1
def aflSnapshotBlock : Nat := 2
def aflSnapshotFds : Nat := 4
def aflSnapshotRegs : Nat := 8
def aflSnapshotExit : Nat := 16
def aflSnapshotNostack : Nat := 64

def vmRead : Nat := 1
def vmWrite : Nat := 2
def vmExec : Nat := 4
def vmShared : Nat := 8

def protRead : Nat := 1
def protWrite : Nat := 2
def protExec : Nat := 4

/-- `flags & flag`, as a condition. -/
def hasFlag (flags flag : Nat) : Bool := flags &&& flag != 0

/-! ### Address spaces -/

/-- `pte_t`: empty, or mapping the frame number `pfn`. -/
inductive Pte where
  | none
  | present (pfn : Nat) (write : Bool)
deriving DecidableEq, Repr

namespace Pte

/-- `pte_pfn`; the word of an empty entry holds frame number 0. -/
def pfn : Pte → Nat
  | .none => 0
  | .present f _ => f

def isNone : Pte → Bool
  | .none => true
  | .present _ _ => false

/-- `pte_write`. -/
def write : Pte → Bool
  | .none => false
  | .present _ w => w

/-- `pte_wrprotect`. -/
def wrprotect : Pte → Pte
  | .none => .none
  | .present f _ => .present f false

/-- `pte_mkwrite`. -/
def mkwrite : Pte → Pte
  | .none => .none
  | .present f _ => .present f true

end Pte

/-- `struct vm_area_struct`. A mapping of a file or of shared memory names the object's mapping; a
    private anonymous one names none. -/
structure VmArea where
  id : Nat
  vmStart : Nat
  vmEnd : Nat
  vmFlags : Nat
  file : Option Nat
deriving DecidableEq, Repr

instance : Ranged VmArea := ⟨VmArea.vmStart, VmArea.vmEnd⟩

namespace VmArea

def readable (v : VmArea) : Bool := hasFlag v.vmFlags vmRead
def writable (v : VmArea) : Bool := hasFlag v.vmFlags vmWrite
def shared (v : VmArea) : Bool := hasFlag v.vmFlags vmShared

/-- `vma_is_anonymous`. -/
def isAnonymous (v : VmArea) : Bool := v.file.isNone

end VmArea

/-- `struct mm_struct`, with the page tables. The entry of a page is meant only where the page has a
    slot, that is where the levels above are populated. -/
structure Mm where
  mmap : List VmArea
  /-- The number of the next `vm_area_struct` to be allocated. -/
  freshVma : Nat
  pgd : Level pageSize
  p4d : Level pageSize
  pud : Level pageSize
  pmd : Level pageSize
  pte : Nat → Pte
  brk : Nat
  startStack : Nat
  owner : Nat

namespace Mm
variable (mm : Mm)

/-- The page table has a slot for the page. -/
def slot (page : Nat) : Bool :=
  mm.pgd.populated (page / mm.pgd.size) && mm.p4d.populated (page / mm.p4d.size) &&
    mm.pud.populated (page / mm.pud.size) && mm.pmd.populated (page / mm.pmd.size)

/-- `find_vma` restricted to the VMA that contains the address. -/
def vmaAt (addr : Nat) : Option VmArea := Spans.find mm.mmap addr

def setPte (page : Nat) (pte : Pte) : Mm := { mm with pte := Function.update mm.pte page pte }

end Mm

/-- The levels of x86-64 with four-level page tables, the p4d folded into the pgd, and nothing mapped. -/
def x86_64 : Mm where
  mmap := []
  freshVma := 0
  pgd := ⟨2 ^ 39, fun _ => false, by decide, by decide⟩
  p4d := ⟨2 ^ 39, fun _ => false, by decide, by decide⟩
  pud := ⟨2 ^ 30, fun _ => false, by decide, by decide⟩
  pmd := ⟨2 ^ 21, fun _ => false, by decide, by decide⟩
  pte := fun _ => .none
  brk := 0
  startStack := 0
  owner := 0

/-- A populated entry for one more address. -/
def populateLevel (l : Level pageSize) (page : Nat) : Level pageSize :=
  { l with populated := fun i => i == page / l.size || l.populated i }

/-- Allocate the page tables of a page (`pte_alloc`). -/
def Mm.populate (mm : Mm) (page : Nat) : Mm :=
  { mm with
    pgd := populateLevel mm.pgd page
    p4d := populateLevel mm.p4d page
    pud := populateLevel mm.pud page
    pmd := populateLevel mm.pmd page }

/-! ### Snapshots -/

/-- `struct snapshot_vma`. -/
structure SnapshotVma where
  vmStart : Nat
  vmEnd : Nat
  isAnonymousPrivate : Bool
  prot : Nat
deriving DecidableEq, Repr

instance : Ranged SnapshotVma := ⟨SnapshotVma.vmStart, SnapshotVma.vmEnd⟩

/-- The bits of `page_prot`. -/
structure PageProt where
  snapshotPrivate : Bool
  snapshotCow : Bool
  snapshotNonePte : Bool
deriving DecidableEq, Repr

/-- `struct snapshot_page`. The entry's place in the dirty list is kept by the list. -/
structure SnapshotPage where
  pageBase : Nat
  pageProt : PageProt
  pageData : Option Page
  hasBeenCopied : Bool
  hasHadPte : Bool
  dirty : Bool
  inDirtyList : Bool

namespace SnapshotPage
variable (sp : SnapshotPage)

def isNonePte : Bool := sp.pageProt.snapshotNonePte
def isCow : Bool := sp.pageProt.snapshotCow
def isPrivate : Bool := sp.pageProt.snapshotPrivate

def setNonePte : SnapshotPage := { sp with pageProt := { sp.pageProt with snapshotNonePte := true } }
def setPrivate : SnapshotPage := { sp with pageProt := { sp.pageProt with snapshotPrivate := true } }
def setCow : SnapshotPage := { sp with pageProt := { sp.pageProt with snapshotCow := true } }
def leaveDirtyList : SnapshotPage := { sp with inDirtyList := false }

end SnapshotPage

/-- `struct open_files_snapshot`. -/
structure OpenFilesSnapshot where
  files : Option Nat
  offsets : Option (List Int)
deriving DecidableEq, Repr

/-- The saved registers. -/
abbrev PtRegs := Nat → Nat

/-- `struct snapshot`, `status` by its two bits. `ssPages` are the entries of the hash table and
    `dirtyPages` the entries of the dirty list, by page. -/
structure Snapshot where
  made : Bool
  had : Bool
  oldbrk : Nat
  allVmas : List SnapshotVma
  snapshottedVmas : List SnapshotVma
  regs : PtRegs
  ssFiles : OpenFilesSnapshot
  ssPages : List SnapshotPage
  dirtyPages : List Nat

/-- `struct vmrange`, less its list node. -/
structure VmRange where
  start : Nat
  end_ : Nat
deriving DecidableEq, Repr

/-- The memory of the two range lists of a task: their nodes and the ranges around the nodes, by address. -/
structure RangeLists where
  node : LinkRing.Heap
  range : Nat → VmRange
  /-- The address of the next node to be allocated. -/
  fresh : Nat

/-- `struct task_data`. -/
structure TaskData where
  tsk : Nat
  ss : Snapshot
  ranges : RangeLists
  config : Nat

namespace TaskData
variable (data : TaskData)

def haveSnapshot : Bool := data.ss.made
def hadSnapshot : Bool := data.ss.had
def setSnapshot : TaskData := { data with ss := { data.ss with made := true } }
def clearSnapshot : TaskData := { data with ss := { data.ss with made := false } }
def setHadSnapshot : TaskData := { data with ss := { data.ss with had := true } }

end TaskData
end AflSnapshot
