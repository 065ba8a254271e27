import AflSnapshot.World

/-! The three hooks of `memory.c`: `do_wp_page_hook`, `page_add_new_anon_rmap_hook`, `__do_munmap_hook`. -/

namespace AflSnapshot
open PageWalk

/-! ### What the hooks do to a record -/

namespace TaskData
variable (data : TaskData)

/-- `record_dirty_page` for a list of addresses, with the bytes that the page-table entries lead to. -/
def recordDirtyPages (original : Nat → Page) (alloc : Nat → Bool) (addrs : List Nat) : TaskData :=
  addrs.foldl (fun d addr => (d.recordDirtyPage addr (original addr) (alloc addr)).1) data

end TaskData

/-! ### The hooks -/

/-- The addresses from `a` on that a walk of the page table of `[a, b)` goes through. -/
def pteAddrs (a b : Nat) : List Nat := (List.range ((b - a + (pageSize - 1)) / pageSize)).map fun i => a + i * pageSize

/-- The addresses for which `walk_page_range` calls `pte_entry`: VMA by VMA, and table by table. -/
def walkPageRange (mm : Mm) (start end_ : Nat) : List Nat :=
  (mm.mmap.flatMap fun v =>
    let a := max start v.vmStart
    let b := min end_ v.vmEnd
    (pieces mm.pmd.size b (b - a) a).flatMap fun c => pteAddrs c.1 c.2).filter mm.slot

namespace Core
variable (env : Env) (m : Nat) (c : Core)

/-- `mm->owner` looked up, and the record's number if it has a live snapshot. -/
def ownerLive : Core × Option Nat :=
  let r := c.reg.getTaskDataWithCache env.cpu (c.mem.mm m).owner
  ({ c with reg := r.1 }, r.1.ifLive r.2)

/-- `do_wp_page_hook`, for a fault at a page-table entry; true where the kernel's `do_wp_page` is skipped. -/
def doWpPageHook (page : Nat) : Core × Bool :=
  match c.ownerLive env m with
  | (c, none) => (c, false)
  | (c, some id) =>
    let origPte := (c.mem.mm m).pte page
    let r := (c.reg.data id).recordDirtyPage page (c.mem.frame origPte.pfn).data (env.pageData page)
    let c := { c with reg := c.reg.setData id r.1 }
    match r.2 with
    | none => (c, false)
    | some ssPage =>
      if ssPage.isPrivate then ({ c with mem := c.mem.setPte m page origPte.mkwrite }, true) else (c, false)

/-- `page_add_new_anon_rmap_hook`. -/
def pageAddNewAnonRmapHook (page : Nat) : Core :=
  match c.ownerLive env m with
  | (c, none) => c
  | (c, some id) =>
    match (c.reg.data id).pageAddNewAnonRmap page (env.snapshotPage page) with
    | none => { c with oops := true }
    | some d => { c with reg := c.reg.setData id d }

/-- `__do_munmap_hook`. -/
def doMunmapHook (start len : Nat) : Core :=
  match c.ownerLive env m with
  | (c, none) => c
  | (c, some id) =>
    let mm := c.mem.mm m
    { c with reg := c.reg.setData id ((c.reg.data id).recordDirtyPages
        (fun addr => (c.mem.frame (mm.pte addr).pfn).data) env.pageData (walkPageRange mm start (start + len))) }

end Core

/-! ### Lookups in the hooks -/

section
variable {env : Env} {m page start len : Nat} {c : Core}

/-- Everything but the caches is as before. -/
structure LookedUp (c c' : Core) : Prop where
  mem : c'.mem = c.mem
  oops : c'.oops = c.oops
  reg : c.reg.SameButCaches c'.reg
  coherent : c'.reg.Coherent
  caches : c.reg.CachesFrom c'.reg

variable (env m) in
theorem ownerLive_spec (h : c.reg.Coherent) :
    LookedUp c (c.ownerLive env m).1 ∧ (c.ownerLive env m).2 = c.reg.live (c.mem.mm m).owner := by
  obtain ⟨h1, h2, h3⟩ := withCache_spec h env.cpu (c.mem.mm m).owner
  refine ⟨⟨rfl, rfl, h1, h2, withCache_caches _ _ _⟩, ?_⟩
  rw [← h3]
  show Registry.ifLive _ _ = _
  unfold Registry.ifLive
  rw [h1.data]

end
end AflSnapshot
