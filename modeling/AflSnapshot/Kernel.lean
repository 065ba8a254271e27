import AflSnapshot.Hooks

/-! What the kernel does with the address spaces under the module: page faults with the hooked functions on
their way, accesses, the calls that map, unmap, move and protect memory, and `fork`. -/

namespace AflSnapshot
open PageWalk (Level)

/-! ### Page faults -/

namespace Core
variable (env : Env) (m : Nat)

def setMem (c : Core) (mem : Memory) : Core := { c with mem }

/-- A private mapping gets a new anonymous page, with the bytes of a frame. -/
def newAnonPage (page source : Nat) (c : Core) : Core :=
  let c := c.pageAddNewAnonRmapHook env m page
  c.setMem ((c.mem.newFrame (c.mem.frame source).data).setPte m page (.present c.mem.freshPfn true))

/-- `do_wp_page`, for a read-only entry that maps frame `f`. -/
def doWpPage (v : VmArea) (page f : Nat) (c : Core) : Core :=
  match c.doWpPageHook env m page with
  | (c, true) => c
  | (c, false) =>
    if v.shared || env.wpReuse c.mem m page then c.setMem (c.mem.setPte m page (.present f true))
    else c.newAnonPage env m page f

/-- What a read at a page does before it reads. No result where it is refused. -/
def readFault (page : Nat) (c : Core) : Option Core :=
  match (c.mem.mm m).vmaAt page with
  | none => none
  | some v =>
    if v.readable then
      match (c.mem.mm m).pte page with
      | .present _ _ => some c
      | .none =>
        some <| c.setMem <| (c.mem.setMm m ((c.mem.mm m).populate page)).setPte m page
          (.present (c.mem.backing v page) (v.shared && v.writable && env.sharedWrite page))
    else none

/-- What a write at a page does before it writes. -/
def writeFault (page : Nat) (c : Core) : Option Core :=
  match (c.mem.mm m).vmaAt page with
  | none => none
  | some v =>
    if v.writable then
      match (c.mem.mm m).pte page with
      | .present _ true => some c
      | .present f false => some (c.doWpPage env m v page f)
      | .none =>
        let c := c.setMem (c.mem.setMm m ((c.mem.mm m).populate page))
        some <| if v.shared then c.setMem (c.mem.setPte m page (.present (c.mem.backing v page) true))
          else c.newAnonPage env m page (c.mem.backing v page)
    else none

/-! ### Accesses -/

/-- Change the bytes of the frame that a page maps. -/
def store (page : Nat) (g : Page → Page) (c : Core) : Core :=
  match (c.mem.mm m).pte page with
  | .present f _ => c.setMem (c.mem.setFrame f { c.mem.frame f with data := g (c.mem.frame f).data })
  | .none => c

/-- The process writes a byte; a refused write changes nothing. -/
def writeByte (addr : Nat) (byte : UInt8) (c : Core) : Core :=
  match c.writeFault env m (pageBase addr) with
  | some c => c.store m (pageBase addr) fun data =>
      Function.update data ⟨addr % pageSize, Nat.mod_lt _ (by decide)⟩ byte
  | none => c

/-- The process reads. -/
def readByte (addr : Nat) (c : Core) : Core := (c.readFault env m (pageBase addr)).getD c

/-- `copy_to_user` of a page; true where all was copied. -/
def copyToUser (page : Nat) (data : Page) (c : Core) : Core × Bool :=
  if env.copyToUser page then
    match c.writeFault env m page with
    | some c => (c.store m page fun _ => data, true)
    | none => (c, false)
  else (c, false)

/-- `zap_page_range` of a page, from the first VMA on; `madvise(MADV_DONTNEED)` of a page. -/
def zapPage (page : Nat) (c : Core) : Core :=
  match (c.mem.mm m).vmaAt page with
  | some _ => c.setMem (c.mem.setPte m page .none)
  | none => c

end Core

/-! ### Mappings -/

/-- A level without the tables under which the unmapping of `[start, end_)` leaves no VMA (`free_pgtables`). -/
def freeLevel (vmas : List VmArea) (start end_ : Nat) (l : Level pageSize) : Level pageSize :=
  { l with populated := fun i => l.populated i &&
      !(decide (start < (i + 1) * l.size) && decide (i * l.size < end_) &&
        vmas.all fun v => decide (v.vmEnd ≤ i * l.size) || decide ((i + 1) * l.size ≤ v.vmStart)) }

namespace Mm
variable (mm : Mm)

def unmap (start end_ : Nat) : Mm :=
  let vmas := unmapVmas start end_ mm.freshVma mm.mmap
  { mm with
    mmap := vmas
    freshVma := mm.freshVma + 1
    pgd := freeLevel vmas start end_ mm.pgd
    p4d := freeLevel vmas start end_ mm.p4d
    pud := freeLevel vmas start end_ mm.pud
    pmd := freeLevel vmas start end_ mm.pmd
    pte := fun p => if start ≤ p ∧ p < end_ then .none else mm.pte p }

/-- Map anonymous private memory, in a VMA of its own. -/
def mapAnon (start end_ prot : Nat) : Mm :=
  { mm with
    mmap := insertVma ⟨mm.freshVma, start, end_, prot &&& (protRead ||| protWrite ||| protExec), none⟩ mm.mmap
    freshVma := mm.freshVma + 1 }

/-- Map an object, or anonymous memory where there is none, in a VMA of its own. -/
def mapVma (start end_ flags : Nat) (file : Option Nat) : Mm :=
  { mm with mmap := insertVma ⟨mm.freshVma, start, end_, flags, file⟩ mm.mmap, freshVma := mm.freshVma + 1 }

/-- Allocate the tables of a range. -/
def populateRange (start end_ : Nat) : Mm :=
  let fill (l : Level pageSize) : Level pageSize :=
    { l with populated := fun i => l.populated i || decide (start < (i + 1) * l.size) && decide (i * l.size < end_) }
  { mm with pgd := fill mm.pgd, p4d := fill mm.p4d, pud := fill mm.pud, pmd := fill mm.pmd }

/-- `move_page_tables`. -/
def movePtes (old new len : Nat) : Mm :=
  { mm.populateRange new (new + len) with
    pte := fun p =>
      if new ≤ p ∧ p < new + len then mm.pte (p - new + old)
      else if old ≤ p ∧ p < old + len then .none else mm.pte p }

/-- All of the range is mapped privately. -/
def mappedPrivate (start end_ : Nat) : Bool :=
  (List.range (end_ - start)).all fun i => (mm.vmaAt (start + i)).any fun v => !v.shared

/-- Nothing is mapped in the range. -/
def unmapped (start end_ : Nat) : Bool :=
  mm.mmap.all fun v => decide (v.vmEnd ≤ start) || decide (end_ ≤ v.vmStart)

end Mm

/-- The parts of a VMA when the protection of `[start, end_)` changes. The lowest part keeps the VMA. -/
def protectVma (start end_ prot fresh : Nat) (v : VmArea) : List VmArea :=
  let flags := v.vmFlags >>> 3 <<< 3 ||| prot &&& (vmRead ||| vmWrite ||| vmExec)
  if v.vmEnd ≤ start ∨ end_ ≤ v.vmStart then [v]
  else if v.vmStart < start then
    if end_ < v.vmEnd then
      [{ v with vmEnd := start }, { v with id := fresh, vmStart := start, vmEnd := end_, vmFlags := flags },
        { v with id := fresh + 1, vmStart := end_ }]
    else [{ v with vmEnd := start }, { v with id := fresh, vmStart := start, vmFlags := flags }]
  else if end_ < v.vmEnd then [{ v with vmEnd := end_, vmFlags := flags }, { v with id := fresh + 1, vmStart := end_ }]
  else [{ v with vmFlags := flags }]

/-- `mprotect`; where the new protection lets the process write, some entries keep their write bit. -/
def Mm.protect (mm : Mm) (keepWrite : Nat → Bool) (start end_ prot : Nat) : Mm :=
  { mm with
    mmap := mm.mmap.flatMap (protectVma start end_ prot mm.freshVma)
    freshVma := mm.freshVma + 2
    pte := fun p =>
      if start ≤ p ∧ p < end_ ∧ !(hasFlag prot protWrite && keepWrite p) then (mm.pte p).wrprotect else mm.pte p }

namespace Core
variable (env : Env) (m : Nat)

/-- `__do_munmap`, with its result. -/
def doMunmap (start len : Nat) (c : Core) : Core × Int :=
  let c := c.doMunmapHook env m start len
  if start % pageSize ≠ 0 ∨ len = 0 then (c, -22)
  else if env.vmMunmap start len then
    (c.setMem (c.mem.setMm m ((c.mem.mm m).unmap start (start + pageAlign len))), 0)
  else (c, -12)

/-- `vm_mmap(NULL, addr, len, prot, MAP_PRIVATE | MAP_FIXED_NOREPLACE, 0)`; no result where it fails. -/
def vmMmap (addr len prot : Nat) (c : Core) : Core × Option Nat :=
  if addr % pageSize = 0 ∧ 0 < len ∧ (c.mem.mm m).unmapped addr (addr + pageAlign len) ∧ env.vmMmap addr len then
    (c.setMem (c.mem.setMm m ((c.mem.mm m).mapAnon addr (addr + pageAlign len) prot)), some addr)
  else (c, none)

/-- `vm_brk`, which unmaps what is in the way. -/
def vmBrk (addr request : Nat) (c : Core) : Core × Int :=
  if request = 0 then (c, 0)
  else if addr % pageSize ≠ 0 then (c, -22)
  else
    let r := if (c.mem.mm m).unmapped addr (addr + pageAlign request) then (c, 0)
      else c.doMunmap env m addr (pageAlign request)
    if r.2 = 0 ∧ env.vmBrk addr request then
      (r.1.setMem (r.1.mem.setMm m ((r.1.mem.mm m).mapAnon addr (addr + pageAlign request)
        (protRead ||| protWrite))), 0)
    else (r.1, -12)

def setBrk (brk : Nat) (c : Core) : Core := c.setMem (c.mem.setMm m { c.mem.mm m with brk })

/-- The `brk` system call with a break that is not above the current one. -/
def brkShrink (brk : Nat) (c : Core) : Core :=
  let old := (c.mem.mm m).brk
  if brk ≤ old then
    if pageAlign brk = pageAlign old then c.setBrk m brk
    else
      let r := c.doMunmap env m (pageAlign brk) (pageAlign old - pageAlign brk)
      if r.2 = 0 then r.1.setBrk m brk else r.1
  else c

/-- The `mmap` system call with `MAP_FIXED`, for an object or for anonymous memory. -/
def mmapFixed (start len prot : Nat) (object : Option Nat) (shared : Bool) (c : Core) : Core :=
  let end_ := start + pageAlign len
  if start % pageSize ≠ 0 ∨ len = 0 ∨ ulongMax ≤ end_ then c
  else
    let r := if (c.mem.mm m).unmapped start end_ then (c, 0) else c.doMunmap env m start (pageAlign len)
    if r.2 = 0 ∧ env.vmMmap start len then
      let flags := prot &&& (vmRead ||| vmWrite ||| vmExec) ||| if shared && object.isSome then vmShared else 0
      r.1.setMem (r.1.mem.setMm m ((r.1.mem.mm m).mapVma start end_ flags object))
    else r.1

/-- The part of `mremap` between the mapping of the new range and the unmapping of the old one. -/
def movePages (old new len : Nat) (c : Core) : Core :=
  let mm := c.mem.mm m
  if old % pageSize = 0 ∧ new % pageSize = 0 ∧ len % pageSize = 0 ∧ (old + len ≤ new ∨ new + len ≤ old) ∧
      mm.mappedPrivate old (old + len) ∧ mm.mappedPrivate new (new + len) then
    c.setMem (c.mem.setMm m (mm.movePtes old new len))
  else c

/-- `do_swap_page` for a page that was swapped out. -/
def swapIn (page : Nat) (data : Page) (write : Bool) (c : Core) : Core :=
  match (c.mem.mm m).vmaAt page, (c.mem.mm m).pte page with
  | some v, .none =>
    if v.shared then c
    else
      let mem := c.mem.setMm m ((c.mem.mm m).populate page)
      c.setMem ((mem.newFrame data).setPte m page (.present c.mem.freshPfn write))
  | _, _ => c

/-- The `mprotect` system call for a range that is mapped. -/
def mprotect (start len prot : Nat) (c : Core) : Core :=
  if start % pageSize ≠ 0 ∨ len = 0 then c
  else c.setMem (c.mem.setMm m ((c.mem.mm m).protect env.keepWrite start (start + pageAlign len) prot))

end Core

/-! ### Fork -/

/-- `copy_mm` for a child: the frames of private mappings are shared, and write-protected on both sides. -/
def Memory.dupMm (mem : Memory) (m owner : Nat) : Memory :=
  let mm := mem.mm m
  let pte := fun p => if (mm.vmaAt p).any fun v => !v.shared then (mm.pte p).wrprotect else mm.pte p
  { (mem.setMm m { mm with pte }).setMm mem.freshMm { mm with pte, owner } with freshMm := mem.freshMm + 1 }

end AflSnapshot
