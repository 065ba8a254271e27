import AflSnapshot.Lib.Slab
import AflSnapshot.Snapshot

/-! The snapshots with the objects that they are made of. Every `snapshot_vma`, `snapshot_page`, buffer of a page,
`files_struct` and array of offsets is allocated and freed in one memory, and a record holds addresses: the two lists of
VMAs share their objects, and so do the hash table and the dirty list.

These are the functions of `memory.c`, `files.c`, `task_data.c` and `snapshot.c` that allocate, link or free, once more at
this level. What the kernel and the processes do is given to them: the page tables that are walked, the calls of the hooks
that come while another function runs, and what fails. -/

namespace AflSnapshot
open PageWalk

/-! ### Objects -/

/-- `struct snapshot_page`, with the address of its buffer. -/
structure PageObject where
  pageBase : Nat
  pageProt : PageProt
  pageData : Option Nat
  hasBeenCopied : Bool
  hasHadPte : Bool
  dirty : Bool
  inDirtyList : Bool

namespace PageObject
variable (sp : PageObject)

def isNonePte : Bool := sp.pageProt.snapshotNonePte
def isPrivate : Bool := sp.pageProt.snapshotPrivate

def setNonePte : PageObject := { sp with pageProt := { sp.pageProt with snapshotNonePte := true } }
def setPrivate : PageObject := { sp with pageProt := { sp.pageProt with snapshotPrivate := true } }
def setCow : PageObject := { sp with pageProt := { sp.pageProt with snapshotCow := true } }

end PageObject

inductive Object where
  | snapshotVma (v : SnapshotVma)
  | snapshotPage (sp : PageObject)
  | pageData (bytes : Page)
  | filesStruct (s : FilesStruct)
  | offsets (offsets : List Int)

namespace Object

def toVma : Object → Option SnapshotVma
  | .snapshotVma v => some v
  | _ => none

def toPage : Object → Option PageObject
  | .snapshotPage sp => some sp
  | _ => none

def toBytes : Object → Option Page
  | .pageData bytes => some bytes
  | _ => none

def toTable : Object → Option FilesStruct
  | .filesStruct s => some s
  | _ => none

def toOffsets : Object → Option (List Int)
  | .offsets l => some l
  | _ => none

def mapPage (f : PageObject → PageObject) : Object → Object
  | .snapshotPage sp => .snapshotPage (f sp)
  | x => x

end Object

section
variable (slab : Slab Object) (a : Nat)

def ssVmaAt : Option SnapshotVma := (slab.obj a).bind Object.toVma
def pageAt : Option PageObject := (slab.obj a).bind Object.toPage
def bytesAt : Option Page := (slab.obj a).bind Object.toBytes
def tableAt : Option FilesStruct := (slab.obj a).bind Object.toTable
def offsetsAt : Option (List Int) := (slab.obj a).bind Object.toOffsets

/-- The buffer of the entry at an address. -/
def bufferAt : Option Nat := (pageAt slab a).bind PageObject.pageData

/-- `put_files_struct`. -/
def putFilesStruct : Slab Object :=
  match tableAt slab a with
  | some s => if s.count ≤ 1 then slab.free a else slab.modify a fun _ => .filesStruct { s with count := s.count - 1 }
  | none => slab

/-- `kfree`, of an address or of `NULL`. -/
def kfree : Option Nat → Slab Object
  | some a => slab.free a
  | none => slab

end

/-- The entry with the bytes of its buffer. -/
def PageObject.view (slab : Slab Object) (sp : PageObject) : SnapshotPage where
  pageBase := sp.pageBase
  pageProt := sp.pageProt
  pageData := sp.pageData.bind (bytesAt slab)
  hasBeenCopied := sp.hasBeenCopied
  hasHadPte := sp.hasHadPte
  dirty := sp.dirty
  inDirtyList := sp.inDirtyList

/-- `struct task_data`. -/
structure TaskNode where
  tsk : Nat
  made : Bool
  had : Bool
  oldbrk : Nat
  regs : PtRegs
  ranges : RangeLists
  config : Nat
  allVmas : List Nat
  snapshottedVmas : List Nat
  /-- The buckets of the hash table. -/
  ssPages : Fin 256 → List Nat
  dirtyPages : List Nat
  files : Option Nat
  offsets : Option Nat

/-- The entries of the table, bucket by bucket. -/
def TaskNode.pages (node : TaskNode) : List Nat := (List.finRange 256).flatMap node.ssPages

/-- A record with the memory. -/
structure TaskMemory where
  slab : Slab Object
  node : TaskNode

namespace TaskMemory

/-- What the addresses of the record lead to. -/
def view (t : TaskMemory) : TaskData where
  tsk := t.node.tsk
  ss := {
    made := t.node.made
    had := t.node.had
    oldbrk := t.node.oldbrk
    allVmas := t.node.allVmas.filterMap (ssVmaAt t.slab)
    snapshottedVmas := t.node.snapshottedVmas.filterMap (ssVmaAt t.slab)
    regs := t.node.regs
    ssFiles := ⟨t.node.files, t.node.offsets.bind (offsetsAt t.slab)⟩
    ssPages := t.node.pages.filterMap fun a => (pageAt t.slab a).map (PageObject.view t.slab)
    dirtyPages := t.node.dirtyPages.filterMap fun a => (pageAt t.slab a).map PageObject.pageBase }
  ranges := t.node.ranges
  config := t.node.config

/-- The objects of the snapshot, in the order in which they are freed. -/
def objects (t : TaskMemory) : List Nat :=
  t.node.allVmas ++ (t.node.pages.flatMap fun a => (bufferAt t.slab a).toList ++ [a]) ++
    t.node.files.toList ++ t.node.offsets.toList

/-! ### Entries -/

section
variable (hash : Nat → Fin 256) (t : TaskMemory)

def getSnapshotPage (page : Nat) : Option Nat :=
  (t.node.ssPages (hash page)).find? fun a => (pageAt t.slab a).any fun sp => sp.pageBase == page

def modifyPage (a : Nat) (f : PageObject → PageObject) : TaskMemory :=
  { t with slab := t.slab.modify a (Object.mapPage f) }

/-- `hash_add`. -/
def hashAdd (page a : Nat) : TaskMemory :=
  { t with node := { t.node with
      ssPages := Function.update t.node.ssPages (hash page) (a :: t.node.ssPages (hash page)) } }

/-- `in_dirty_list = true` and `list_add_tail(&sp->dirty_list, &data->ss.dirty_pages)`. -/
def enqueue (a : Nat) : TaskMemory :=
  let t := t.modifyPage a fun sp => { sp with inDirtyList := true }
  { t with node := { t.node with dirtyPages := t.node.dirtyPages ++ [a] } }

/-- `in_dirty_list = false` and `list_del(&sp->dirty_list)`. -/
def dequeue (a : Nat) : TaskMemory :=
  let t := t.modifyPage a fun sp => { sp with inDirtyList := false }
  { t with node := { t.node with dirtyPages := t.node.dirtyPages.erase a } }

/-- `add_snapshot_page`. -/
def addSnapshotPage (page : Nat) (attemptReuse alloc : Bool) : Option (TaskMemory × Nat) :=
  match if attemptReuse then t.getSnapshotPage hash page else none with
  | some a =>
    some (t.modifyPage a fun sp =>
      { sp with pageProt := ⟨false, false, false⟩, hasBeenCopied := false, dirty := false, inDirtyList := false }, a)
  | none =>
    if alloc then
      let r := t.slab.alloc (.snapshotPage {
        pageBase := page, pageProt := ⟨false, false, false⟩, pageData := none, hasBeenCopied := false,
        hasHadPte := false, dirty := false, inDirtyList := false })
      some (({ t with slab := r.1 } : TaskMemory).hashAdd hash page r.2, r.2)
    else none

/-- `make_snapshot_page`. -/
def makeSnapshotPage (mm : Mm) (addr : Nat) (alloc : Bool) : (TaskMemory × Mm) × Int :=
  match t.addSnapshotPage hash addr true alloc with
  | none => ((t, mm), -12)
  | some (t, a) =>
    let pte := mm.pte addr
    if pte.isNone then ((t.modifyPage a fun sp => { sp with hasHadPte := false }.setNonePte, mm), 0)
    else if pte.write then
      ((t.modifyPage a fun sp => { sp with hasHadPte := true }.setPrivate, mm.setPte addr pte.wrprotect), 0)
    else ((t.modifyPage a fun sp => { sp with hasHadPte := true }.setCow, mm), 0)

/-- `record_dirty_page`. -/
def recordDirtyPage (page : Nat) (original : Page) (alloc : Bool) : TaskMemory × Option Nat :=
  match t.getSnapshotPage hash page with
  | none => (t, none)
  | some a =>
    match pageAt t.slab a with
    | none => (t, none)
    | some sp =>
      if sp.dirty || sp.isNonePte then (t, none)
      else
        let t := t.modifyPage a fun sp => { sp with dirty := true }
        let t := if sp.inDirtyList then t else t.enqueue a
        if sp.hasBeenCopied then (t, some a)
        else
          match sp.pageData with
          | some b =>
            let t := { t with slab := t.slab.modify b fun _ => .pageData original }
            (t.modifyPage a fun sp => { sp with hasBeenCopied := true }, some a)
          | none =>
            if alloc then
              let r := t.slab.alloc (.pageData original)
              let t := { t with slab := r.1 }
              (t.modifyPage a fun sp => { sp with pageData := some r.2, hasBeenCopied := true }, some a)
            else (t, none)

/-- The end of `page_add_new_anon_rmap_hook`. -/
def notePte (a : Nat) : TaskMemory :=
  let t := t.modifyPage a fun sp => { sp with hasHadPte := true }
  match pageAt t.slab a with
  | some sp => if sp.isNonePte && !sp.inDirtyList then t.enqueue a else t
  | none => t

/-- `page_add_new_anon_rmap_hook` for a task with a live snapshot; no result where the entry cannot be allocated. -/
def pageAddNewAnonRmap (page : Nat) (alloc : Bool) : Option TaskMemory :=
  match t.getSnapshotPage hash page with
  | some a => some (t.notePte a)
  | none =>
    if t.view.isSnapshottedAddress page then
      match t.addSnapshotPage hash page false alloc with
      | none => none
      | some (t, a) => some ((t.modifyPage a PageObject.setNonePte).notePte a)
    else some t

/-- `munmap_pte_entry` for the pages of a range. -/
def recordDirtyPages (original : Nat → Page) (alloc : Nat → Bool) (addrs : List Nat) : TaskMemory :=
  addrs.foldl (fun t addr => (t.recordDirtyPage hash addr (original addr) (alloc addr)).1) t

end

/-! ### Take -/

/-- `add_snapshot_vma`. -/
def addSnapshotVma (t : TaskMemory) (vma : VmArea) (garbage : Nat) (alloc : Bool) : Option (TaskMemory × Nat) :=
  if alloc then
    let r := t.slab.alloc (.snapshotVma (TaskData.snapshotVmaOf vma garbage))
    some (⟨r.1, { t.node with allVmas := t.node.allVmas ++ [r.2] }⟩, r.2)
  else none

/-- `list_add_tail(&ss_vma->snapshotted_vmas_node, &data->ss.snapshotted_vmas)`. -/
def addSnapshotted (t : TaskMemory) (a : Nat) : TaskMemory :=
  { t with node := { t.node with snapshottedVmas := t.node.snapshottedVmas ++ [a] } }

end TaskMemory

/-- What the callbacks of the walk read and write. -/
structure TakeState where
  t : TaskMemory
  mm : Mm
  walkData : SnapshotWalkData

namespace TakeState

def upperEntry (addr next : Nat) (s : TakeState) : TakeState × Action :=
  ({ s with walkData := (snapshotWalkCheckRange s.t.view addr next s.walkData).1 }, .subtree)

def lowerEntry (addr next : Nat) (s : TakeState) : TakeState × Action :=
  let r := snapshotWalkCheckRange s.t.view addr next s.walkData
  ({ s with walkData := r.1 }, r.2)

def pteEntry (hash : Nat → Fin 256) (alloc : Nat → Bool) (addr next : Nat) (s : TakeState) : TakeState × Int :=
  let r := snapshotWalkCheckRange s.t.view addr next s.walkData
  let s := { s with walkData := r.1 }
  if r.2 = .skip then (s, 0)
  else
    let m := s.t.makeSnapshotPage hash s.mm addr (alloc addr)
    ({ s with t := m.1.1, mm := m.1.2 }, m.2)

def walkOps (mm : Mm) : List (Stage pageSize TakeState) :=
  [⟨mm.pgd, upperEntry⟩, ⟨mm.p4d, upperEntry⟩, ⟨mm.pud, lowerEntry⟩, ⟨mm.pmd, lowerEntry⟩]

def walkPageVma (hash : Nat → Fin 256) (alloc : Nat → Bool) (vma : VmArea) (s : TakeState) : TakeState × Int :=
  walk (pteEntry hash alloc) (walkOps s.mm) vma.vmStart vma.vmEnd s

/-- The loop of `take_memory_snapshot`. -/
def takeVmas (hash : Nat → Fin 256) (alloc : TakeAlloc) : List VmArea → TakeState → TakeState × Int
  | [], s => (s, 0)
  | vma :: vmas, s =>
    match s.t.addSnapshotVma vma (alloc.garbage vma.vmStart) (alloc.snapshotVma vma.vmStart) with
    | none => (s, -12)
    | some (t, a) =>
      let s := { s with t }
      if skipsVma s.t.view s.mm vma then takeVmas hash alloc vmas s
      else
        let r := walkPageVma hash alloc.snapshotPage vma { s with t := s.t.addSnapshotted a }
        if r.2 = 0 then takeVmas hash alloc vmas r.1 else r

end TakeState

namespace TaskMemory

/-- `take_memory_snapshot`. -/
def takeMemorySnapshot (hash : Nat → Fin 256) (alloc : TakeAlloc) (mm : Mm) (t : TaskMemory) : TaskMemory :=
  (TakeState.takeVmas hash alloc mm.mmap ⟨t, mm, ⟨0, 0⟩⟩).1.t

/-- `take_files_snapshot`, for a task with the table `files`. -/
def takeFilesSnapshot (env : Env) (fs : Files) (files : Nat) (t : TaskMemory) : TaskMemory × Int :=
  if hasFlag t.node.config aflSnapshotFds then
    if env.dupFd then
      let fds := resizeFds env.fdtSize (fs.filesStruct files).fds
      let copy := t.slab.alloc (.filesStruct ⟨1, fds⟩)
      if env.kmallocOffsets then
        let offsets := copy.1.alloc (.offsets (List.replicate fds.length (-1)))
        let r := iterateFd fs.saveFileOffset fds 0 (List.replicate fds.length (-1))
        let slab := offsets.1.modify offsets.2 fun _ => .offsets r.1
        if r.2 = 0 then (⟨slab, { t.node with files := some copy.2, offsets := some offsets.2 }⟩, 0)
        else (⟨kfree (putFilesStruct slab copy.2) (some offsets.2), t.node⟩, r.2)
      else (⟨kfree (putFilesStruct copy.1 copy.2) none, t.node⟩, -12)
    else (t, -12)
  else (⟨t.slab, { t.node with files := none, offsets := none }⟩, 0)

/-- `initialize_snapshot`. -/
def initializeSnapshot (config : Nat) (regs : PtRegs) (brk : Nat) (t : TaskMemory) : TaskMemory :=
  { t with node := { t.node with config, had := true, made := true, regs, oldbrk := brk } }

/-! ### Clean -/

/-- `clean_snapshot_vmas`. -/
def cleanSnapshotVmas (t : TaskMemory) : TaskMemory :=
  t.node.allVmas.foldl (fun t a =>
    ⟨t.slab.free a, { t.node with
      allVmas := t.node.allVmas.erase a, snapshottedVmas := t.node.snapshottedVmas.erase a }⟩) t

/-- The loop of `clean_memory_snapshot` over the table. -/
def cleanPages (t : TaskMemory) : TaskMemory :=
  (List.finRange 256).foldl (fun t i => (t.node.ssPages i).foldl (fun t a =>
    let slab := kfree t.slab (bufferAt t.slab a)
    ⟨slab.free a, { t.node with
      ssPages := Function.update t.node.ssPages i ((t.node.ssPages i).erase a) }⟩) t) t

/-- `clean_memory_snapshot`, after the caches are invalidated. -/
def cleanMemorySnapshot (t : TaskMemory) : TaskMemory := t.cleanSnapshotVmas.cleanPages

/-- `clean_files_snapshot`. -/
def cleanFilesSnapshot (t : TaskMemory) : TaskMemory :=
  let slab := match t.node.files with
    | some files => putFilesStruct t.slab files
    | none => t.slab
  ⟨kfree slab t.node.offsets, { t.node with files := none, offsets := none }⟩

end TaskMemory

/-! ### The module -/

/-- A call of a hook: for the record of the owner of an address space, with what the page tables hold and which
    allocations go through. -/
inductive HookCall where
  | doWpPage (owner page : Nat) (original : Page) (alloc : Bool)
  | pageAddNewAnonRmap (owner page : Nat) (alloc : Bool)
  | doMunmap (owner : Nat) (addrs : List Nat) (original : Nat → Page) (alloc : Nat → Bool)

/-- A call of a hook for a page that is being copied to. -/
inductive PageHook where
  | doWpPage (owner : Nat) (original : Page) (alloc : Bool)
  | pageAddNewAnonRmap (owner : Nat) (alloc : Bool)

def PageHook.call (page : Nat) : PageHook → HookCall
  | .doWpPage owner original alloc => .doWpPage owner page original alloc
  | .pageAddNewAnonRmap owner alloc => .pageAddNewAnonRmap owner page alloc

/-- What happens outside the module while a snapshot is restored. -/
structure Restoring where
  env : Env
  /-- The hooks that are called from `restore_brk`, from `restore_vmas`, and while a page is copied. -/
  brk : List HookCall
  vmas : List HookCall
  copy : Nat → List PageHook
  /-- The result of `restore_vmas`. -/
  res : Int
  /-- `walk_page_table` finds the page. -/
  slot : Nat → Bool
  fs : Files
  /-- The table that the caller and so many threads in all have. -/
  files : Nat
  threads : Nat

/-- The records and the objects. `tables` are the duplicates that a restore has given to the threads of a process. -/
structure ModuleMemory where
  slab : Slab Object
  taskDataList : List Nat
  node : Nat → TaskNode
  fresh : Nat
  rcu : List Nat
  tables : List Nat
  oops : Bool

/-- `kzalloc` and the initialisation in `ensure_task_data`. -/
def TaskNode.new (tsk : Nat) : TaskNode where
  tsk := tsk
  made := false
  had := false
  oldbrk := 0
  regs := fun _ => 0
  ranges := (TaskData.new tsk).ranges
  config := 0
  allVmas := []
  snapshottedVmas := []
  ssPages := fun _ => []
  dirtyPages := []
  files := none
  offsets := none

namespace ModuleMemory

/-- Nothing is allocated yet. -/
def loaded : ModuleMemory := ⟨⟨fun _ => none, 0, []⟩, [], TaskNode.new, 0, [], [], false⟩

section
variable (m : ModuleMemory)

def memory (id : Nat) : TaskMemory := ⟨m.slab, m.node id⟩

def store (id : Nat) (t : TaskMemory) : ModuleMemory :=
  { m with slab := t.slab, node := Function.update m.node id t.node }

def getTaskData (tsk : Nat) : Option Nat := m.taskDataList.find? fun id => (m.node id).tsk == tsk

/-- The record of a task that has a live snapshot. -/
def live (tsk : Nat) : Option Nat := (m.getTaskData tsk).filter fun id => (m.node id).made

def ensureTaskData (tsk : Nat) (alloc : Bool) : ModuleMemory × Option Nat :=
  match m.getTaskData tsk with
  | some id => (m, some id)
  | none =>
    if alloc then
      ({ m with
          node := Function.update m.node m.fresh (.new tsk)
          taskDataList := m.fresh :: m.taskDataList
          fresh := m.fresh + 1 }, some m.fresh)
    else (m, none)

def removeTaskData (id : Nat) : ModuleMemory := { m with taskDataList := m.taskDataList.erase id, rcu := m.rcu ++ [id] }

/-- A process lets go of a table. -/
def putTable (a : Nat) : ModuleMemory :=
  if a ∈ m.tables then
    let slab := putFilesStruct m.slab a
    { m with slab, tables := if (slab.obj a).isSome then m.tables else m.tables.erase a }
  else m

end

section
variable (hash : Nat → Fin 256) (m : ModuleMemory)

def hook : HookCall → ModuleMemory
  | .doWpPage owner page original alloc =>
    match m.live owner with
    | none => m
    | some id => m.store id ((m.memory id).recordDirtyPage hash page original alloc).1
  | .pageAddNewAnonRmap owner page alloc =>
    match m.live owner with
    | none => m
    | some id =>
      match (m.memory id).pageAddNewAnonRmap hash page alloc with
      | none => { m with oops := true }
      | some t => m.store id t
  | .doMunmap owner addrs original alloc =>
    match m.live owner with
    | none => m
    | some id => m.store id ((m.memory id).recordDirtyPages hash original alloc addrs)

def hooks (calls : List HookCall) : ModuleMemory := calls.foldl (hook hash) m

/-- `exclude_vmrange` and `include_vmrange`. -/
def addVmrange (tsk : Nat) (env : Env) (f : RangeLists → RangeLists) : ModuleMemory :=
  match m.ensureTaskData tsk env.kzallocTaskData with
  | (m, none) => if env.kmallocVmrange then { m with oops := true } else m
  | (m, some id) =>
    if env.kmallocVmrange then m.store id ⟨m.slab, { m.node id with ranges := f (m.node id).ranges }⟩ else m

/-- `take_snapshot`. -/
def takeSnapshot (tsk config : Nat) (env : Env) (mm : Mm) (regs : PtRegs) (fs : Files) (files : Nat) : ModuleMemory :=
  match m.ensureTaskData tsk env.kzallocTaskData with
  | (m, none) => { m with oops := true }
  | (m, some id) =>
    if (m.node id).made then m
    else
      let t := (m.memory id).initializeSnapshot config regs mm.brk
      let t := t.takeMemorySnapshot hash env.take mm
      m.store id (t.takeFilesSnapshot env fs files).1

/-- One round of the loop of `recover_memory_snapshot`. -/
def recoverEntry (r : Restoring) (id : Nat) (m : ModuleMemory) (a : Nat) : ModuleMemory :=
  match pageAt m.slab a with
  | none => { m with oops := true }
  | some sp =>
    if sp.dirty && sp.hasBeenCopied then
      let m := m.hooks hash ((r.copy sp.pageBase).map (PageHook.call sp.pageBase))
      let t := (m.memory id).modifyPage a fun sp => { sp with dirty := false, hasHadPte := true }
      if r.slot sp.pageBase then m.store id ((t.modifyPage a PageObject.setPrivate).dequeue a) else m.store id t
    else if sp.isPrivate then m.store id ((m.memory id).dequeue a)
    else if sp.isNonePte && sp.hasHadPte then
      m.store id (((m.memory id).modifyPage a fun sp => { sp.setNonePte with hasHadPte := false }).dequeue a)
    else m.store id ((m.memory id).dequeue a)

/-- `recover_memory_snapshot`. A page's round queues no other page, so that the loop sees the list as it is at the
    start. -/
def recoverMemorySnapshot (r : Restoring) (id : Nat) : ModuleMemory :=
  let mmap := hasFlag (m.node id).config aflSnapshotMmap
  let m := if mmap then m.hooks hash r.vmas else m
  if mmap && r.res != 0 then m else (m.node id).dirtyPages.foldl (recoverEntry hash r id) m

/-- `recover_files_snapshot`. -/
def recoverFilesSnapshot (r : Restoring) (id : Nat) : ModuleMemory :=
  if hasFlag (m.node id).config aflSnapshotFds then
    match (m.node id).files, (m.node id).offsets with
    | some files, some offsets =>
      match tableAt m.slab files, offsetsAt m.slab offsets with
      | some s, some saved =>
        if r.env.dupFd then
          let fds := resizeFds r.env.fdtSize s.fds
          let restored := m.slab.alloc (.filesStruct ⟨1, fds⟩)
          if (iterateFd (Files.restoreFileOffset r.env saved) fds 0 r.fs).2 = 0 then
            -- The threads that have the caller's table get the duplicate, and let go of the former.
            let slab := restored.1.modify restored.2 fun _ => .filesStruct ⟨r.threads + 1, fds⟩
            let m := { m with slab, tables := restored.2 :: m.tables }
            (List.range (r.threads + 1)).foldl (fun m _ => m.putTable r.files) m
          else { m with slab := putFilesStruct restored.1 restored.2 }
        else m
      | _, _ => { m with oops := true }
    | _, _ => m
  else m

/-- `restore_snapshot`. -/
def restoreSnapshot (r : Restoring) (id : Nat) : ModuleMemory :=
  let m := m.hooks hash r.brk
  let m := m.recoverMemorySnapshot hash r id
  m.recoverFilesSnapshot r id

def recoverSnapshot (tsk : Nat) (r : Restoring) : ModuleMemory :=
  match m.getTaskData tsk with
  | none => m
  | some id => m.restoreSnapshot hash r id

end

/-- `clean_snapshot`. -/
def cleanSnapshot (tsk : Nat) (m : ModuleMemory) : ModuleMemory :=
  match m.getTaskData tsk with
  | none => m
  | some id =>
    let t := (m.memory id).cleanMemorySnapshot.cleanFilesSnapshot
    (m.store id { t with node := { t.node with made := false } }).removeTaskData id

/-- `do_exit_hook`. -/
def doExitHook (tsk : Nat) (m : ModuleMemory) : ModuleMemory :=
  match m.getTaskData tsk with
  | none => m
  | some id => if (m.node id).had then m.cleanSnapshot tsk else m

/-- `exit_snapshot`; true where the process goes on to exit. -/
def exitSnapshot (hash : Nat → Fin 256) (tsk : Nat) (r : Restoring) (m : ModuleMemory) : ModuleMemory × Bool :=
  match m.getTaskData tsk with
  | none => (m, true)
  | some id =>
    if hasFlag (m.node id).config aflSnapshotExit && (m.node id).made then (m.restoreSnapshot hash r id, false)
    else if (m.node id).had then (m.cleanSnapshot tsk, true)
    else (m, true)

def sysExitGroupHook (hash : Nat → Fin 256) (tsk : Nat) (r : Restoring) (m : ModuleMemory) : ModuleMemory :=
  match m.exitSnapshot hash tsk r with
  | (m, false) => m
  | (m, true) => m.doExitHook tsk

end ModuleMemory

/-- What is called of the module, and what else happens to the objects that it has allocated. -/
inductive ModuleCall where
  | excludeVmrange (tsk start end_ : Nat) (env : Env)
  | includeVmrange (tsk start end_ : Nat) (env : Env)
  | take (tsk config : Nat) (env : Env) (mm : Mm) (regs : PtRegs) (fs : Files) (files : Nat)
  | hook (call : HookCall)
  | restore (tsk : Nat) (r : Restoring)
  | clean (tsk : Nat)
  | exit (tsk : Nat)
  | exitGroup (tsk : Nat) (r : Restoring)
  | putTable (a : Nat)

def ModuleMemory.step (hash : Nat → Fin 256) (m : ModuleMemory) : ModuleCall → ModuleMemory
  | .excludeVmrange tsk start end_ env => m.addVmrange tsk env (·.exclude start end_)
  | .includeVmrange tsk start end_ env => m.addVmrange tsk env (·.include_ start end_)
  | .take tsk config env mm regs fs files => m.takeSnapshot hash tsk config env mm regs fs files
  | .hook call => m.hook hash call
  | .restore tsk r => m.recoverSnapshot hash tsk r
  | .clean tsk => m.cleanSnapshot tsk
  | .exit tsk => m.doExitHook tsk
  | .exitGroup tsk r => m.sysExitGroupHook hash tsk r
  | .putTable a => m.putTable a

end AflSnapshot
