import AflSnapshot.Theorems.MappedBack
import AflSnapshot.Theorems.TakeFailures

/-! # Faults while a snapshot is taken

The record has a live snapshot from `initialize_snapshot` on, so that the hooks of other threads work on it while the
walk of `take_memory_snapshot` is under way. Table and dirty list stay well formed as long as the walk comes to no page
that a hook has queued. -/

namespace AflSnapshot
open Runs

/-- What happens to a record while its snapshot is taken and after that, each at once: the steps of the take, the hooks,
    what the kernel does to the memory, and a restore. -/
inductive Event
  | link (vma : VmArea) (garbage : Nat) (alloc walked : Bool)
  | make (m page : Nat) (alloc : Bool)
  | wpFault (env : Env) (m page : Nat)
  | newAnon (env : Env) (m page : Nat)
  | munmap (env : Env) (m start len : Nat)
  | memory (mem : Memory)
  | restore (env : Env) (m : Nat)

namespace Core
variable (id : Nat) (c : Core)

/-- `take_memory_snapshot` comes to a VMA. -/
def linkVma (vma : VmArea) (garbage : Nat) (alloc walked : Bool) : Core :=
  c.modifyData id fun d => if alloc then d.linkVma (TaskData.snapshotVmaOf vma garbage) walked else d

/-- The walk comes to a page. -/
def makePage (m page : Nat) (alloc : Bool) : Core :=
  let r := (c.reg.data id).makeSnapshotPage (c.mem.mm m) page alloc
  { c with reg := c.reg.setData id r.1.1, mem := c.mem.setMm m r.1.2 }

/-- `restore_brk`, and `recover_memory_snapshot`. -/
def restore (env : Env) (m : Nat) : Core :=
  ((c.restoreBrk env m (c.reg.data id).ss.oldbrk).1.recoverMemorySnapshot env m id).1

def happen : Event → Core
  | .link vma garbage alloc walked => c.linkVma id vma garbage alloc walked
  | .make m page alloc => c.makePage id m page alloc
  | .wpFault env m page => (c.doWpPageHook env m page).1
  | .newAnon env m page => c.pageAddNewAnonRmapHook env m page
  | .munmap env m start len => c.doMunmapHook env m start len
  | .memory mem => c.setMem mem
  | .restore env m => c.restore id env m

end Core

/-- The table has one entry for a page at most, and the dirty list holds the entries that say so, once each. -/
structure TaskData.WellFormed (d : TaskData) : Prop where
  unique : d.Unique
  queued : d.Queued

/-- The walk comes to no page that is queued. -/
def Event.Fits (id : Nat) (c : Core) : Event → Prop
  | .make _ page _ => page ∉ (c.reg.data id).ss.dirtyPages
  | _ => True

/-! ### Hooks and restores -/

/-- The records of `c'` are those of `c` but for pages and dirty lists, which are as well formed. -/
structure Core.Tidy (c c' : Core) : Prop where
  coherent : c'.reg.Coherent
  data : ∀ id, SameButPages (c.reg.data id) (c'.reg.data id)
  wellFormed : ∀ id, (c.reg.data id).WellFormed → (c'.reg.data id).WellFormed

section
variable {env : Env} {c c' c₁ : Core} {m id page : Nat} {d d' : TaskData} {sp : SnapshotPage} {vma : VmArea}

theorem Core.Steady.tidy (h : c.Steady env c') : c.Tidy c' :=
  ⟨h.coherent, h.data, fun id hw => ⟨h.unique id hw.unique, h.queued id hw.queued⟩⟩

namespace Core.Tidy

theorem refl (h : c.reg.Coherent) : c.Tidy c := ⟨h, fun _ => .refl _, fun _ hw => hw⟩

theorem trans (h₁ : c.Tidy c₁) (h₂ : c₁.Tidy c') : c.Tidy c' where
  coherent := h₂.coherent
  data id := (h₁.data id).trans (h₂.data id)
  wellFormed id hw := h₂.wellFormed id (h₁.wellFormed id hw)

/-- The memory does not matter. -/
theorem setMem (h : c.Tidy c₁) (mem : Memory) : c.Tidy (c₁.setMem mem) := ⟨h.coherent, h.data, h.wellFormed⟩

theorem oops (h : c.Tidy c₁) : c.Tidy { c₁ with oops := true } := ⟨h.coherent, h.data, h.wellFormed⟩

end Core.Tidy

theorem tidy_doMunmap (h : c.reg.Coherent) (start len : Nat) : c.Tidy (c.doMunmap env m start len).1 :=
  (steady_doMunmap h).tidy

theorem tidy_vmBrk (h : c.reg.Coherent) (start len : Nat) : c.Tidy (c.vmBrk env m start len).1 := by
  unfold Core.vmBrk
  split
  · exact .refl h
  split
  · exact .refl h
  dsimp only
  have hfirst : c.Tidy (if (c.mem.mm m).unmapped start (start + pageAlign len) then (c, (0 : Int))
      else c.doMunmap env m start (pageAlign len)).1 := by
    split
    · exact .refl h
    · exact tidy_doMunmap h _ _
  generalize (if (c.mem.mm m).unmapped start (start + pageAlign len) then (c, (0 : Int))
      else c.doMunmap env m start (pageAlign len)) = r at hfirst ⊢
  split
  · exact hfirst.setMem _
  · exact hfirst

theorem tidy_restoreBrk (h : c.reg.Coherent) (brk : Nat) : c.Tidy (c.restoreBrk env m brk).1 := by
  have hgrow : ∀ cur, c.Tidy (Core.restoreBrk.growBrk env m brk cur c).1 := by
    intro cur
    have hgrown : c.Tidy (c.vmBrk env m cur (brk - cur)).1 := tidy_vmBrk h _ _
    unfold Core.restoreBrk.growBrk
    dsimp only
    split
    · exact hgrown
    · exact hgrown.setMem _
  unfold Core.restoreBrk
  dsimp only
  split
  · exact (Core.Tidy.refl h).setMem _
  split
  · have hun : c.Tidy (c.doMunmap env m brk ((c.mem.mm m).brk - brk)).1 := tidy_doMunmap h _ _
    split
    · exact hun
    · exact hun.setMem _
  split
  · split
    · exact .refl h
    · exact hgrow _
  · exact hgrow _

theorem tidy_restoreVmas (h : c.reg.Coherent) {allVmas : List SnapshotVma} {r : Int}
    (hres : restoreVmas (Core.vmOps env m) allVmas c = some (c', r)) : c.Tidy c' := by
  have hcalls : CallsKeep (Core.vmOps env m) allVmas c.Tidy c.Tidy := by
    refine ⟨fun c₁ start len hc₁ => upholds_same.mpr (hc₁.trans (tidy_doMunmap hc₁.coherent start len)),
      fun c₁ addr len ss _ _ hc₁ => ?_⟩
    show c.Tidy (c₁.vmMmap env m addr len ss.prot).1
    unfold Core.vmMmap
    split
    · exact hc₁.setMem _
    · exact hc₁
  exact upholds_same.mp (sweep_keeps hcalls (fun _ hss => hss) _ (.refl h) hres)

theorem tidy_recoverMemorySnapshot (h : c.reg.Coherent) : c.Tidy (c.recoverMemorySnapshot env m id).1 := by
  have hvmas : c.Tidy (c.sweptVmas env m id).1 := by
    unfold Core.sweptVmas
    split
    · cases hres : restoreVmas (Core.vmOps env m) (c.reg.data id).ss.allVmas c with
      | none => exact (Core.Tidy.refl h).oops
      | some r => exact tidy_restoreVmas h hres
    · exact .refl h
  rw [recoverMemorySnapshot_eq]
  split
  · exact hvmas.trans (steady_recoverEntries hvmas.coherent _).tidy
  · exact hvmas

theorem tidy_restore (h : c.reg.Coherent) : c.Tidy (c.restore id env m) :=
  have hbrk : c.Tidy (c.restoreBrk env m (c.reg.data id).ss.oldbrk).1 := tidy_restoreBrk h _
  hbrk.trans (tidy_recoverMemorySnapshot hbrk.coherent)

/-! ### Steps of the take -/

theorem TaskData.WellFormed.linkVma (h : d.WellFormed) (ssVma : SnapshotVma) (walked : Bool) :
    (d.linkVma ssVma walked).WellFormed := ⟨h.unique, h.queued.nodup, h.queued.mem⟩

theorem unique_addSnapshotPage (h : d.Unique) {alloc : Bool} (hadd : d.addSnapshotPage page true alloc = some (d', sp)) :
    d'.Unique := by
  unfold TaskData.addSnapshotPage at hadd
  cases hget : d.getSnapshotPage page with
  | some old =>
    rw [if_pos rfl, hget] at hadd
    cases hadd
    exact h.setPage
  | none =>
    rw [if_pos rfl, hget] at hadd
    dsimp only at hadd
    split at hadd
    · cases hadd
      exact h.hashAdd hget
    · cases hadd

/-- An entry that is there is used again. -/
theorem unique_makeSnapshotPage (h : d.Unique) (mm : Mm) (alloc : Bool) :
    (d.makeSnapshotPage mm page alloc).1.1.Unique := by
  unfold TaskData.makeSnapshotPage
  rcases hadd : d.addSnapshotPage page true alloc with _ | ⟨d', sp⟩
  · exact h
  have hd' := unique_addSnapshotPage h hadd
  dsimp only
  split
  · exact hd'.setPage
  · split
    · exact hd'.setPage
    · exact hd'.setPage

theorem same_makeSnapshotPage (d : TaskData) (mm : Mm) (page : Nat) (alloc : Bool) :
    SameButPages d (d.makeSnapshotPage mm page alloc).1.1 := by
  rcases makeSnapshotPage_cases d mm page alloc with ⟨sp, d', hadd, -, hmake⟩ | ⟨-, -, hmake⟩ <;> rw [hmake]
  · exact hadd.same
  · exact .refl d

/-- The mark of an entry that is made is cleared, whereas the dirty list stays. -/
theorem queued_makeSnapshotPage (h : d.Queued) (mm : Mm) (alloc : Bool) :
    (d.makeSnapshotPage mm page alloc).1.1.Queued ↔ page ∉ d.ss.dirtyPages := by
  have hspec : (∃ d', PageAdded d page _ d' ∧ _) ∨ _ := makeSnapshotPage_spec mm alloc
  rcases hspec with ⟨d', hadd, hmake⟩ | ⟨-, hmake⟩
  · rw [hmake]
    dsimp only
    have hout : ¬∃ sp, d'.getSnapshotPage page = some sp ∧ sp.inDirtyList = true := by
      rintro ⟨sp, hsp, hq⟩
      rw [hadd.entry] at hsp
      cases hsp
      cases hq
    refine ⟨fun hd' hin => hout ((hd'.mem page).mp (hadd.dirtyPages ▸ hin)), fun hnot => ⟨hadd.dirtyPages ▸ h.nodup, fun p => ?_⟩⟩
    rw [hadd.dirtyPages]
    by_cases hp : p = page
    · subst hp
      exact iff_of_false hnot hout
    · rw [hadd.others p hp]
      exact h.mem p
  · -- Without an entry and without memory for one the page is not queued either.
    rcases makeSnapshotPage_cases d mm page alloc with ⟨sp, d', -, -, hmake'⟩ | ⟨-, hnone, -⟩
    · rw [hmake] at hmake'
      exact absurd (congrArg Prod.snd hmake') (by simp)
    rw [hmake]
    refine iff_of_true h fun hin => ?_
    obtain ⟨sp, hsp, -⟩ := (h.mem page).mp hin
    rw [hnone] at hsp
    cases hsp

/-! ### Interleavings -/

/-- The state of a take, put back. -/
def Core.withWalk (id m : Nat) (c : Core) (s : WalkState) : Core :=
  { c with reg := c.reg.setData id s.data, mem := c.mem.setMm m s.mm }

/-- What the steps do not change. -/
structure Core.Taking (id : Nat) (c : Core) : Prop where
  coherent : c.reg.Coherent
  live : (c.reg.data id).haveSnapshot = true

theorem Core.Tidy.taking (h : c.Tidy c') (hc : c.Taking id) : c'.Taking id := by
  refine ⟨h.coherent, ?_⟩
  rw [h.data id]
  exact hc.live

theorem Core.Taking.setData (h : c.Taking id) (htsk : d.tsk = (c.reg.data id).tsk) (hlive : d.haveSnapshot = true)
    (mem : Memory) : ({ c with reg := c.reg.setData id d, mem := mem } : Core).Taking id := by
  refine ⟨h.coherent.setData htsk (hlive.trans h.live.symm) fun hnot => ?_, by rw [setData_same, hlive]⟩
  rw [h.live] at hnot
  cases hnot

theorem Core.Taking.linkVma (h : c.Taking id) (garbage : Nat) (alloc walked : Bool) :
    (c.linkVma id vma garbage alloc walked).Taking id := by
  unfold Core.linkVma
  cases alloc with
  | true => exact h.setData (d := (c.reg.data id).linkVma (TaskData.snapshotVmaOf vma garbage) walked) rfl h.live c.mem
  | false => exact h.setData rfl h.live c.mem

theorem Core.Taking.makePage (h : c.Taking id) (alloc : Bool) : (c.makePage id m page alloc).Taking id := by
  have hsame := same_makeSnapshotPage (c.reg.data id) (c.mem.mm m) page alloc
  refine h.setData ?_ ?_ _
  · rw [hsame]
  · rw [hsame]
    exact h.live

theorem Core.Taking.tidy (h : c.Taking id) {a : Event} (hlink : ∀ vma garbage alloc walked, a ≠ .link vma garbage alloc walked)
    (hmake : ∀ m page alloc, a ≠ .make m page alloc) : c.Tidy (c.happen id a) := by
  cases a with
  | link vma garbage alloc walked => exact absurd rfl (hlink vma garbage alloc walked)
  | make m page alloc => exact absurd rfl (hmake m page alloc)
  | wpFault env m page => exact (steady_doWpPageHook env m page h.coherent).tidy
  | newAnon env m page => 
    have hs : c.Steady env (c.pageAddNewAnonRmapHook env m page) := steady_pageAddNewAnonRmapHook h.coherent
    exact hs.tidy
  | munmap env m start len => exact (steady_doMunmapHook env m start len h.coherent).tidy
  | memory mem => exact (Core.Tidy.refl h.coherent).setMem mem
  | restore env m => exact tidy_restore h.coherent

theorem Core.Taking.happen (h : c.Taking id) (a : Event) : (c.happen id a).Taking id := by
  cases a with
  | link vma garbage alloc walked => exact h.linkVma garbage alloc walked
  | make m page alloc => exact h.makePage alloc
  | _ => exact (h.tidy (by simp) (by simp)).taking h

/-- A step keeps table and list well formed if and only if it is none of the walk's at a queued page. -/
theorem wellFormed_happen (h : c.Taking id) (hw : (c.reg.data id).WellFormed) (a : Event) :
    ((c.happen id a).reg.data id).WellFormed ↔ a.Fits id c := by
  cases a with
  | link vma garbage alloc walked =>
    refine iff_of_true ?_ trivial
    show ((c.reg.setData id _).data id).WellFormed
    rw [setData_same]
    split
    · exact hw.linkVma _ walked
    · exact hw
  | make m page alloc =>
    show ((c.reg.setData id _).data id).WellFormed ↔ page ∉ (c.reg.data id).ss.dirtyPages
    rw [setData_same, ← queued_makeSnapshotPage hw.queued (c.mem.mm m) alloc]
    exact ⟨fun h => h.queued, fun hq => ⟨unique_makeSnapshotPage hw.unique _ _, hq⟩⟩
  | _ => exact iff_of_true ((h.tidy (by simp) (by simp)).wellFormed id hw) trivial

/-- Whatever the order of the steps of a take, of the hooks and of restores, table and dirty list are well formed all
    along if and only if the walk never comes to a page that is queued. -/
theorem wellFormed_iff (l : List Event) (hc : c.reg.Coherent) (hlive : (c.reg.data id).haveSnapshot = true)
    (hw : (c.reg.data id).WellFormed) :
    Throughout (Core.happen id) (fun c => (c.reg.data id).WellFormed) c l ↔ Along (Core.happen id) (Event.Fits id) c l :=
  throughout_iff (K := Core.Taking id) (fun _ a h => h.happen a) (fun _ a h hw => wellFormed_happen h hw a) ⟨hc, hlive⟩ hw

/-- The task 1 of two threads begins a take. -/
def takeBegun : Core := (((World.boot heapMm [1, 2]).ensureTaskData .calm 1).1.initializeSnapshot 1 0 0).core

theorem takeBegun_coherent : takeBegun.reg.Coherent where
  listed i hi := by
    obtain rfl := List.mem_singleton.mp (show i ∈ [0] from hi)
    exact Nat.one_pos
  unique := List.pairwise_singleton _ _
  blank i hi hnot := by
    obtain rfl := List.mem_singleton.mp (show i ∈ [0] from hi)
    cases hnot
  cached _ _ _ hc := by cases hc
  answers _ _ hc := by cases hc

theorem takeBegun_wellFormed : (takeBegun.reg.data 0).WellFormed := by
  refine ⟨List.nodup_nil, List.nodup_nil, fun p => iff_of_false List.not_mem_nil ?_⟩
  rintro ⟨sp, hsp, -⟩
  cases hsp

/-- The page is written after the walk has come to it. -/
def writtenBehind : List Event :=
  [.link heapVma 0 true true, .make 0 4096 true, .newAnon .calm 0 4096, .wpFault .calm 0 4096]

theorem wellFormed_iff_behind :
    Throughout (Core.happen 0) (fun c => (c.reg.data 0).WellFormed) takeBegun writtenBehind :=
  (wellFormed_iff writtenBehind takeBegun_coherent rfl takeBegun_wellFormed).mpr
    ⟨trivial, List.not_mem_nil, trivial, trivial, trivial⟩

/-- Another thread writes a page of a linked VMA before the walk comes to it, and again after the walk. -/
def writtenAhead : List Event :=
  [.link heapVma 0 true true, .newAnon .calm 0 4096, .memory (takeBegun.writeByte .calm 0 4096 7).mem, .make 0 4096 true,
    .make 0 8192 true, .wpFault .calm 0 4096]

/-- The same with the functions as they run. -/
def racedTake : Core :=
  let c := (takeBegun.linkVma 0 heapVma 0 true true).writeByte .calm 0 4096 7
  let c := c.withWalk 0 0 (walkPageVma (fun _ => true) heapVma ⟨c.reg.data 0, c.mem.mm 0, ⟨0, 0⟩⟩).1
  c.writeByte .calm 0 4096 8

/-- The page is linked into the dirty list twice. -/
theorem wellFormed_fails : (racedTake.reg.data 0).ss.dirtyPages = [4096, 4096] ∧
    ¬Throughout (Core.happen 0) (fun c => (c.reg.data 0).WellFormed) takeBegun writtenAhead := by
  refine ⟨by decide, fun h => ?_⟩
  have hnodup := h.last.queued.nodup
  have hlist : ((writtenAhead.foldl (Core.happen 0) takeBegun).reg.data 0).ss.dirtyPages = [4096, 4096] := by decide
  rw [hlist] at hnodup
  simp at hnodup

/-! ### The take itself -/

/-- A step of a take of the address space `m`. -/
def Event.OfTake (alloc : TakeAlloc) (m : Nat) : Event → Prop
  | .link vma garbage ok _ => garbage = alloc.garbage vma.vmStart ∧ ok = alloc.snapshotVma vma.vmStart
  | .make m' page ok => m' = m ∧ ok = alloc.snapshotPage page
  | _ => False

variable {alloc : TakeAlloc} {s : WalkState}

theorem withWalk_make (p : Nat) : (c.withWalk id m s).makePage id m p (alloc.snapshotPage p) = c.withWalk id m { s with
    data := (s.data.makeSnapshotPage s.mm p (alloc.snapshotPage p)).1.1
    mm := (s.data.makeSnapshotPage s.mm p (alloc.snapshotPage p)).1.2 } := by
  unfold Core.makePage Core.withWalk
  dsimp only
  rw [setData_same, mm_setMm_self, setData_setData, setMm_setMm]

theorem withWalk_link (walked : Bool) :
    (c.withWalk id m s).linkVma id vma (alloc.garbage vma.vmStart) true walked = c.withWalk id m { s with
      data := s.data.linkVma (TaskData.snapshotVmaOf vma (alloc.garbage vma.vmStart)) walked } := by
  unfold Core.linkVma Core.modifyData Core.withWalk
  dsimp only
  rw [setData_same, setData_setData, if_pos rfl]

variable (alloc c id m) in
theorem events_kept : WalkKeeps alloc fun s => ∃ l : List Event, (∀ a ∈ l, a.OfTake alloc m) ∧
    l.foldl (Core.happen id) c = c.withWalk id m s where
  cached _ _ h := h
  page s p := fun ⟨l, hl, hs⟩ => by
    refine ⟨l ++ [.make m p (alloc.snapshotPage p)], fun a ha => ?_, ?_⟩
    · rcases List.mem_append.mp ha with ha | ha
      · exact hl a ha
      · rw [List.mem_singleton.mp ha]
        exact ⟨rfl, rfl⟩
    · rw [List.foldl_append, hs]
      exact withWalk_make p
  vma s v walked hv := fun ⟨l, hl, hs⟩ => by
    refine ⟨l ++ [.link v (alloc.garbage v.vmStart) true walked], fun a ha => ?_, ?_⟩
    · rcases List.mem_append.mp ha with ha | ha
      · exact hl a ha
      · rw [List.mem_singleton.mp ha]
        exact ⟨rfl, hv.symm⟩
    · rw [List.foldl_append, hs]
      exact withWalk_link walked

variable (env m id) in
/-- `take_memory_snapshot` is a row of these steps. -/
theorem takeMemorySnapshot_events (c : Core) : ∃ l : List Event, (∀ a ∈ l, a.OfTake env.take m) ∧
    (c.takeMemorySnapshot env m id).1 =
      l.foldl (Core.happen id) { c with reg := c.reg.invalidateTaskDataCache (c.reg.data id).tsk } := by
  let c₁ : Core := { c with reg := c.reg.invalidateTaskDataCache (c.reg.data id).tsk }
  have hstart : c₁ = c₁.withWalk id m ⟨c₁.reg.data id, c₁.mem.mm m, ⟨0, 0⟩⟩ := by
    simp [Core.withWalk, Registry.setData, Memory.setMm]
  obtain ⟨l, hl, hs⟩ := (events_kept c₁ m id env.take).takeVmas (c₁.mem.mm m).mmap
    (s := ⟨c₁.reg.data id, c₁.mem.mm m, ⟨0, 0⟩⟩) ⟨[], by simp, hstart⟩
  exact ⟨l, hl, hs.symm⟩

/-- Without other threads no page is queued during a take. -/
theorem along_of_take (l : List Event) (hl : ∀ a ∈ l, a.OfTake alloc m) (hempty : (c.reg.data id).ss.dirtyPages = []) :
    Along (Core.happen id) (Event.Fits id) c l := by
  induction l generalizing c with
  | nil => trivial
  | cons a l ih =>
    have hrest := fun c' => ih (c := c') fun b hb => hl b (List.mem_cons_of_mem _ hb)
    have ha := hl a List.mem_cons_self
    cases a with
    | link vma garbage ok walked =>
      refine ⟨trivial, hrest _ ?_⟩
      show ((c.reg.setData id _).data id).ss.dirtyPages = []
      rw [setData_same]
      split
      · exact hempty
      · exact hempty
    | make m' page ok =>
      refine ⟨by rw [Event.Fits, hempty]; simp, hrest _ ?_⟩
      show ((c.reg.setData id _).data id).ss.dirtyPages = []
      rw [setData_same]
      rcases makeSnapshotPage_cases (c.reg.data id) (c.mem.mm m') page ok with
        ⟨sp, d', hadd, -, hmake⟩ | ⟨-, -, hmake⟩ <;> rw [hmake]
      · exact hadd.dirtyPages.trans hempty
      · exact hempty
    | _ => exact ha.elim

/-- A take of a new record that no other thread disturbs. -/
theorem take_wellFormed (hc : c.reg.Coherent) (hlive : (c.reg.data id).haveSnapshot = true)
    (hw : (c.reg.data id).WellFormed) (hempty : (c.reg.data id).ss.dirtyPages = []) :
    ((c.takeMemorySnapshot env m id).1.reg.data id).WellFormed := by
  obtain ⟨l, hl, hres⟩ := takeMemorySnapshot_events env m id c
  have htaking : Core.Taking id { c with reg := c.reg.invalidateTaskDataCache (c.reg.data id).tsk } :=
    ⟨(invalidate_spec hc _).1, hlive⟩
  rw [hres]
  have hall : Throughout (Core.happen id) (fun c => (c.reg.data id).WellFormed) _ l :=
    (throughout_iff (K := Core.Taking id) (fun _ a h => h.happen a) (fun _ a h hw => wellFormed_happen h hw a) htaking
      hw).mpr (along_of_take l hl hempty)
  exact hall.last

end
end AflSnapshot
