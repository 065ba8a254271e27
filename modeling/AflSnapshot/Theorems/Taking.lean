import AflSnapshot.Theorems.Take
import AflSnapshot.Theorems.Mappings
import AflSnapshot.Theorems.Registry

/-! # A take makes a snapshot that can be restored

`Took` is what `take_snapshot` does to the system when no allocation fails. It establishes `Restorable`, with the
pages as they are then (`World.homeAt`). -/

namespace AflSnapshot

/-- The address space of a task. -/
def World.mmOf (w : World) (t : Nat) : Mm := w.core.mem.mm (w.task t).mm

/-- The bytes of a task's page. -/
def World.pageOf (w : World) (t page : Nat) : Page := w.core.mem.content (w.task t).mm page

/-- The record of a task. -/
def World.recordOf (w : World) (t : Nat) : Option TaskData := (w.core.reg.getTaskData t).map w.core.reg.data

/-- The pages that the live snapshot of a task is to bring back: those that `make_snapshot_page` made an entry for,
    and those of the linked VMAs that have no page-table slot. -/
def Selects (d : TaskData) (mm : Mm) (page : Nat) : Prop :=
  (d.getSnapshotPage page).isSome ∨ pageSize ∣ page ∧ mm.slot page = false ∧ d.isSnapshottedAddress page = true

/-- The home of the snapshot with the record `id` that task `t` took in `w`, and had in `w'`. -/
def World.homeAt (w w' : World) (t id : Nat) : Home where
  m := (w.task t).mm
  id := id
  mm := w.mmOf t
  data := w'.core.reg.data id
  content := w.pageOf t
  sel := Selects (w'.core.reg.data id) (w.mmOf t)

/-- The record as the walk of a take finds it. -/
def World.initialized (w : World) (t config : Nat) (d : TaskData) : TaskData :=
  { d with
    config
    ss := { d.ss with had := true, made := true, regs := (w.task t).regs, oldbrk := (w.mmOf t).brk } }

/-- The memory part of a take of task `t` whose record is `d`. -/
def World.taking (env : Env) (t config : Nat) (w : World) (d : TaskData) : (TaskData × Mm) × Int :=
  AflSnapshot.takeMemorySnapshot env.take (w.initialized t config d) (w.mmOf t)

def TaskData.withFiles (d : TaskData) (files : OpenFilesSnapshot) : TaskData :=
  { d with ss := { d.ss with ssFiles := files } }

/-- What a take does, the record `d₀` having the number `id`. -/
structure Took (env : Env) (t config : Nat) (w : World) (id : Nat) (d₀ : TaskData) (w' : World) : Prop where
  fresh : d₀.tsk = t ∧ d₀.haveSnapshot = false ∧ d₀.Blank
  old : w.core.reg.getTaskData t = some id ∧ w.core.reg.data id = d₀ ∨
    w.core.reg.getTaskData t = none ∧ d₀ = .new t
  coherent : w'.core.reg.Coherent
  live : w'.core.reg.live t = some id
  others : ∀ u, u ≠ t → w'.core.reg.live u = w.core.reg.live u
  records : ∀ i, i ≠ id → w'.core.reg.data i = w.core.reg.data i
  mem : w'.core.mem = w.core.mem.setMm (w.task t).mm (w.taking env t config d₀).1.2
  data : w'.core.reg.data id = (w.taking env t config d₀).1.1.withFiles
    (w.fs.takeFilesSnapshot env (w.task t).files (w.taking env t config d₀).1.1).1.2
  fs : w'.fs = (w.fs.takeFilesSnapshot env (w.task t).files (w.taking env t config d₀).1.1).1.1
  task : w'.task = w.task
  threads : w'.threads = w.threads
  freshTask : w'.freshTask = w.freshTask
  oops : w'.core.oops = w.core.oops

section
variable {env : Env} {t config : Nat} {w : World}

theorem setData_setData (reg : Registry) (id : Nat) (d d' : TaskData) :
    (reg.setData id d).setData id d' = reg.setData id d' := by
  simp [Registry.setData]

variable (env) in
/-- The memory of a take whose record has just been changed. -/
theorem takeMemorySnapshot_modifyData (c : Core) (m id : Nat) (f : TaskData → TaskData)
    (hf : (f (c.reg.data id)).tsk = (c.reg.data id).tsk) :
    ((c.modifyData id f).takeMemorySnapshot env m id).1 =
      let r := AflSnapshot.takeMemorySnapshot env.take (f (c.reg.data id)) (c.mem.mm m)
      ⟨c.mem.setMm m r.1.2, (c.reg.invalidateTaskDataCache (c.reg.data id).tsk).setData id r.1.1, c.oops⟩ := by
  have hdata : (c.reg.setData id (f (c.reg.data id))).data id = f (c.reg.data id) := setData_same
  have hinv : (c.reg.setData id (f (c.reg.data id))).invalidateTaskDataCache (c.reg.data id).tsk =
      (c.reg.invalidateTaskDataCache (c.reg.data id).tsk).setData id (f (c.reg.data id)) := rfl
  unfold Core.takeMemorySnapshot Core.modifyData
  dsimp only
  rw [hdata, hf, hinv, setData_same, setData_setData]

variable (env config) in
/-- The record keeps its task and its status. -/
theorem taking_status (hsort : (w.mmOf t).Sorted) {d : TaskData} (hnew : d.Blank) :
    (w.taking env t config d).1.1.tsk = d.tsk ∧ (w.taking env t config d).1.1.haveSnapshot = true := by
  have hblank : (w.initialized t config d).Blank := hnew
  obtain ⟨done, rest, y, s, -, hT, hres, -⟩ := take_taken env.take hsort hblank
  unfold World.taking
  rw [hres, hT.same]
  exact ⟨rfl, rfl⟩

variable (config) in
theorem takeSnapshot_took (hc : w.core.reg.Coherent) (hsort : (w.mmOf t).Sorted) (hlive : w.core.reg.live t = none)
    (halloc : w.core.reg.getTaskData t = none → env.kzallocTaskData = true) :
    ∃ id d₀, Took env t config w id d₀ (w.takeSnapshot env t config).1 ∧ (w.takeSnapshot env t config).2 = 1 := by
  rcases ensureTaskData_spec hc t env.kzallocTaskData with ⟨⟨id, h1, h2, h3⟩, hc₁, hlive₁⟩ | ⟨hfail, hnone, -⟩
  swap
  · rw [halloc hnone] at hfail
    cases hfail
  rcases hens : w.core.reg.ensureTaskData t env.kzallocTaskData with ⟨reg₁, o⟩
  rw [hens] at h1 h2 h3 hc₁ hlive₁
  obtain rfl : o = some id := h1
  have htsk : (reg₁.data id).tsk = t := (getTaskData_spec h2).2
  have hnot : (reg₁.data id).haveSnapshot = false := by
    have hnone : reg₁.live t = none := by rw [hlive₁, hlive]
    by_contra hmade
    have := live_eq_some.mpr ⟨h2, by simpa using hmade⟩
    rw [hnone] at this
    cases this
  have hblank : (reg₁.data id).Blank := hc₁.blank id (getTaskData_spec h2).1 hnot
  obtain ⟨hrtsk, hrmade⟩ := taking_status env config hsort hblank
  obtain ⟨hinv, hunc⟩ := invalidate_spec hc₁ t
  set r := w.taking env t config (reg₁.data id) with hr
  -- The system after the walk, and then with the files.
  set w₂ := (w.mapCore fun c => { c with reg := reg₁ }).mapCore
    (·.modifyData id (w.initialized t config)) with hw₂
  set w₃ := w₂.mapCore fun c => (c.takeMemorySnapshot env (w.task t).mm id).1 with hw₃
  have hstep : w.takeSnapshot env t config = (w₃.takeFiles env t id, 1) := by
    unfold World.takeSnapshot World.ensureTaskData
    dsimp only
    rw [hens]
    have hnot' : ((w.mapCore fun c => { c with reg := reg₁ }).core.reg.data id).haveSnapshot = false := hnot
    dsimp only
    rw [hnot', if_neg (by simp)]
    rfl
  have hcore : w₃.core = ⟨w.core.mem.setMm (w.task t).mm r.1.2,
      (reg₁.invalidateTaskDataCache t).setData id r.1.1, w.core.oops⟩ := by
    have h := takeMemorySnapshot_modifyData env { w.core with reg := reg₁ } (w.task t).mm id
      (w.initialized t config) rfl
    rw [htsk] at h
    exact h
  have hrecord : w₃.core.reg.data id = r.1.1 := by rw [hcore, setData_same]
  set d₂ := r.1.1.withFiles (w.fs.takeFilesSnapshot env (w.task t).files r.1.1).1.2 with hd₂
  have hreg : (w₃.takeFiles env t id).core.reg = (reg₁.invalidateTaskDataCache t).setData id d₂ := by
    show w₃.core.reg.setData id _ = _
    rw [hrecord, hcore, setData_setData]
    rfl
  have htsk₂ : d₂.tsk = t := hrtsk.trans htsk
  have hmade₂ : d₂.haveSnapshot = true := hrmade
  have htsk' : ((reg₁.invalidateTaskDataCache t).data id).tsk = t := htsk
  have hcoh : ((reg₁.invalidateTaskDataCache t).setData id d₂).Coherent :=
    hinv.setData_uncached hunc htsk' htsk₂ fun hfalse => absurd (hmade₂.symm.trans hfalse) (by simp)
  rw [hstep]
  refine ⟨id, reg₁.data id, ⟨⟨htsk, hnot, hblank⟩, ?_, ?_, ?_, fun u hu => ?_, fun i hi => ?_, ?_, ?_, ?_, rfl, rfl,
    rfl, ?_⟩, rfl⟩
  · rcases h3 with ⟨h3, rfl⟩ | ⟨h3, -, hnew⟩
    · exact Or.inl ⟨h3, rfl⟩
    · exact Or.inr ⟨h3, hnew⟩
  · rw [hreg]
    exact hcoh
  · rw [hreg, live_eq_some, setData_same]
    refine ⟨?_, hmade₂⟩
    rw [getTaskData_setData (htsk₂.trans htsk'.symm)]
    exact h2
  · rw [hreg, live_setData_of_ne htsk' htsk₂ hu]
    exact hlive₁ u
  · rw [hreg, setData_of_ne hi]
    rcases h3 with ⟨-, rfl⟩ | ⟨hnone, rfl, -⟩
    · rfl
    · have hdata := congrArg (fun r => r.1.data i) hens
      unfold Registry.ensureTaskData at hdata
      rw [hnone, halloc hnone] at hdata
      exact hdata.symm.trans (setData_of_ne hi)
  · show w₃.core.mem = _
    rw [hcore]
  · rw [hreg, setData_same]
  · show (w₃.fs.takeFilesSnapshot env (w.task t).files (w₃.core.reg.data id)).1.1 = _
    rw [hrecord]
    rfl
  · show w₃.core.oops = _
    rw [hcore]

end

/-! ### The pages after a take -/

section
variable {env : Env} {t config id : Nat} {w w' : World} {d₀ d : TaskData} {alloc : TakeAlloc} {mm : Mm}
  {done : List VmArea} {x p : Nat} {s : WalkState}

theorem Mm.Ok.sorted (h : mm.Ok) : mm.Sorted := ⟨h.vmas.ordered, h.vmas.aligned⟩

/-- The state of a page, wherever the take has come to. -/
theorem Taken.page (h : Taken alloc d mm done x s) (p : Nat) :
    s.data.getSnapshotPage p = none ∧ s.mm.pte p = mm.pte p ∨
    s.data.getSnapshotPage p = some (.ofPte p (mm.pte p) none) ∧ s.mm.pte p = (mm.pte p).wrprotect ∧
      Visited d mm p ∧ ∃ v ∈ done, Spans.In p v := by
  by_cases hp : p < x
  · exact h.below p hp
  · exact Or.inl (h.above p (Nat.le_of_not_lt hp))

theorem Taken.weakens (h : Taken alloc d mm done x s) (p : Nat) : s.mm.pte p = mm.pte p ∨ s.mm.pte p = (mm.pte p).wrprotect := by
  rcases h.page p with ⟨-, hp⟩ | ⟨-, hp, -⟩
  · exact Or.inl hp
  · exact Or.inr hp

theorem Taken.weaker (h : Taken alloc d mm done x s) (p : Nat) {f : Nat} {b : Bool} (hp : s.mm.pte p = .present f b) :
    ∃ b', mm.pte p = .present f b' ∧ (b = true → b' = true) := by
  rcases h.weakens p with heq | heq <;> rw [heq] at hp
  · exact ⟨b, hp, fun hb => hb⟩
  · exact wrprotect_weakens _ f b hp

theorem Taken.mmOk (h : Taken alloc d mm done x s) (hok : mm.Ok) : s.mm.Ok := by
  have hmmap : s.mm.mmap = mm.mmap := by rw [h.tables]
  have hslot : ∀ q, s.mm.slot q = mm.slot q := fun q => by rw [h.tables]; rfl
  have hfresh : s.mm.freshVma = mm.freshVma := by rw [h.tables]
  refine ⟨hfresh ▸ hmmap ▸ hok.vmas, fun p f b hp => ?_⟩
  obtain ⟨b', hp', -⟩ := h.weaker p hp
  rw [hmmap, hslot]
  exact hok.pte p f b' hp'

theorem Taken.snapshottedVmas_ordered (h : Taken alloc d mm done x s) (ho : Spans.Ordered done) :
    Spans.Ordered s.data.ss.snapshottedVmas := by
  rw [h.linked]
  refine ⟨fun v hv => ?_, List.pairwise_map.mpr ?_⟩
  · obtain ⟨u, hu, rfl⟩ := List.mem_map.mp hv
    exact ho.pos u (List.mem_filter.mp hu).1
  · exact ho.sorted.sublist List.filter_sublist

theorem Taken.isSnapshotted (h : Taken alloc d mm done x s) (ho : Spans.Ordered done) :
    s.data.isSnapshottedAddress p = true ↔ ∃ v ∈ done, Spans.In p v ∧ skipsVma d mm v = false := by
  rw [isSnapshottedAddress_iff (h.snapshottedVmas_ordered ho), h.linked]
  constructor
  · rintro ⟨v, hv, hin⟩
    obtain ⟨u, hu, rfl⟩ := List.mem_map.mp hv
    obtain ⟨hu, hs⟩ := List.mem_filter.mp hu
    exact ⟨u, hu, hin, by simpa using hs⟩
  · rintro ⟨u, hu, hin, hs⟩
    exact ⟨_, List.mem_map_of_mem (List.mem_filter.mpr ⟨hu, by simp [hs]⟩), hin⟩

theorem Taken.restricts {mem : Memory} {m : Nat} (h : Taken alloc d (mem.mm m) done x s) :
    mem.Restricts (mem.setMm m s.mm) := .setMm fun p f b hp => by
  refine ⟨h.weaker p hp, fun v hv => ⟨v, ?_, rfl⟩⟩
  unfold Mm.vmaAt at hv ⊢
  rwa [h.tables] at hv

/-- The state that a take leaves a selected page in. -/
theorem Taken.pageKept {mem : Memory} {m : Nat} {v₀ : VmArea} {B : Page} (hs : mem.Sane)
    (h : Taken alloc d (mem.mm m) done x s) (hv₀ : (mem.mm m).vmaAt p = some v₀)
    (hsel : Selects s.data (mem.mm m) p) (hB : mem.content m p = B) :
    PageKept (mem.setMm m s.mm) m p v₀ B (s.data.getSnapshotPage p) := by
  have hpte : ((mem.setMm m s.mm).mm m).pte p = s.mm.pte p := by rw [mm_setMm_self]
  have hbacking : (mem.setMm m s.mm).backing v₀ p = mem.backing v₀ p := rfl
  have hnone : (mem.mm m).pte p = .none → (mem.frame (mem.backing v₀ p)).data = B := fun hp => by
    rw [← hB]
    unfold Memory.content
    rw [hp, hv₀]
  have hsome : ∀ f b, (mem.mm m).pte p = .present f b → (mem.frame f).data = B := fun f b hp => by
    rw [← hB]
    unfold Memory.content
    rw [hp]
  rcases h.page p with ⟨hentry, hp⟩ | ⟨hentry, hp, -⟩
  · -- The page has no slot, so that it has no entry either.
    have hslot : (mem.mm m).slot p = false := by
      rcases hsel with hsome | ⟨-, hslot, -⟩
      · rw [hentry] at hsome
        cases hsome
      · exact hslot
    have hempty : (mem.mm m).pte p = .none := by
      cases hq : (mem.mm m).pte p with
      | none => rfl
      | present f b =>
        have := ((hs.mms m).pte p f b hq).1
        rw [hslot] at this
        cases this
    rw [hentry]
    rw [hempty] at hp
    exact ⟨fun _ => ⟨fun _ hsp => (by cases hsp), Or.inl ⟨hpte.trans hp, hnone hempty⟩⟩,
      fun _ => .absent (Or.inl (hpte.trans hp)) (hnone hempty)⟩
  · rw [hentry]
    cases hq : (mem.mm m).pte p with
    | none =>
      rw [hq] at hp
      have hp' := hpte.trans hp
      exact ⟨fun _ => ⟨fun _ hsp => by cases hsp; exact ⟨rfl, rfl⟩, Or.inl ⟨hp', hnone hq⟩⟩,
        fun _ => .untouched rfl rfl rfl rfl (Or.inl hp') (hnone hq)⟩
    | present f b =>
      rw [hq] at hp
      have hp' : ((mem.setMm m s.mm).mm m).pte p = .present f false := hpte.trans hp
      refine ⟨fun _ => ⟨fun _ hsp => by cases hsp; exact ⟨rfl, rfl⟩, Or.inr ⟨f, false, hp', hsome f b hq⟩⟩, fun hsh => ?_⟩
      refine .clean rfl rfl rfl hp' (hsome f b hq) (fun hc => by cases hc) fun hpriv => ?_
      -- A writable page of a private mapping has its frame for itself.
      have hb : b = true := hpriv
      subst hb
      exact (hs.excl m p f v₀ hq hv₀ hsh).restrict (hs.pfn m p f true hq) h.restricts

end

/-! ### The invariant -/

section
variable {env : Env} {t config id : Nat} {w w' : World} {d₀ : TaskData}

theorem Took.taken (h : Took env t config w id d₀ w') (hs : w.core.mem.Sane) (henv : env.Allocates) :
    ∃ x s, Taken env.take (w.initialized t config d₀) (w.mmOf t) (w.mmOf t).mmap x s ∧
      w.taking env t config d₀ = ((s.data, s.mm), 0) := by
  have hblank : (w.initialized t config d₀).Blank := h.fresh.2.2
  obtain ⟨done, rest, x, s, hd, hT, hres, hend⟩ := take_taken env.take (hs.mms (w.task t).mm).sorted hblank
  have hzero := take_goes_through henv.snapshotVma henv.takePage (w.initialized t config d₀) (w.mmOf t)
  obtain rfl := hend hzero
  rw [List.append_nil] at hd
  exact ⟨x, s, hd ▸ hT, Prod.ext hres hzero⟩

theorem Took.restorable (h : Took env t config w id d₀ w') (hs : w.core.mem.Sane) (henv : env.Allocates)
    (howner : (w.mmOf t).owner = t) (hused : (w.task t).mm < w.core.mem.freshMm) :
    (w.homeAt w' t id).Ok ∧ Restorable (w.homeAt w' t id) w'.core := by
  obtain ⟨x, s, hT, htaking⟩ := h.taken hs henv
  have hmem : w'.core.mem = w.core.mem.setMm (w.task t).mm s.mm := by rw [h.mem, htaking]
  have hmm : w'.core.mem.mm (w.task t).mm = s.mm := by rw [hmem, mm_setMm_self]
  have hdata := h.data
  rw [htaking] at hdata
  have hok : (w.mmOf t).Ok := hs.mms _
  have hord := hok.vmas.ordered
  have hget : ∀ p, (w'.core.reg.data id).getSnapshotPage p = s.data.getSnapshotPage p := fun p => by rw [hdata]; rfl
  have haddr : ∀ p, (w'.core.reg.data id).isSnapshottedAddress p = s.data.isSnapshottedAddress p := fun p => by
    rw [hdata]
    rfl
  have hmmap : s.mm.mmap = (w.mmOf t).mmap := by rw [hT.tables]
  have hsel : ∀ p, Selects (w'.core.reg.data id) (w.mmOf t) p ↔ Selects s.data (w.mmOf t) p := fun p => by
    unfold Selects
    rw [hget, haddr]
  refine ⟨⟨hok.vmas, ⟨env.take.garbage, ?_⟩, fun p hp => ?_⟩, ?_, h.coherent, ?_, ?_, .refl _, ?_, fun a v hv => ?_,
    fun a ha hnot => ?_, Or.inl ?_, fun p v₀ hp hv₀ => ?_, fun p sp hp hsp => ?_⟩
  · show (w'.core.reg.data id).ss.allVmas = _
    rw [hdata]
    exact hT.allVmas
  · have hp : Selects (w'.core.reg.data id) (w.mmOf t) p := hp
    have hin : pageSize ∣ p ∧ s.data.isSnapshottedAddress p = true := by
      rcases (hsel p).mp hp with hsome | ⟨hd, -, hin⟩
      · rcases hT.page p with ⟨hnone, -⟩ | ⟨-, -, hvis, -⟩
        · rw [hnone] at hsome
          cases hsome
        · exact ⟨hvis.aligned, (hT.isSnapshotted hord).mpr hvis.walked⟩
      · exact ⟨hd, hin⟩
    obtain ⟨v, hv, hinv, -⟩ := (hT.isSnapshotted hord).mp hin.2
    exact ⟨hin.1, (haddr p).trans hin.2, v, (Spans.Ordered.find_eq_some hord).mpr ⟨hv, hinv⟩⟩
  · rw [hmem]
    refine hs.setMm (hT.mmOk hok) hT.restricts fun hm => ?_
    rw [hmmap]
    exact hs.unused _ hm
  · show w'.core.reg.live (w'.core.mem.mm (w.task t).mm).owner = some id
    have hown : s.mm.owner = (w.mmOf t).owner := by rw [hT.tables]
    rw [hmm, hown, howner]
    exact h.live
  · show (w.task t).mm < w'.core.mem.freshMm
    rw [hmem]
    exact hused
  · have hdirty : (w'.core.reg.data id).ss.dirtyPages = [] := by
      rw [hdata]
      show s.data.ss.dirtyPages = []
      rw [hT.same]
      exact h.fresh.2.2.2.2.2
    refine ⟨by rw [show (w.homeAt w' t id).id = id from rfl, hdirty]; exact List.nodup_nil, fun p => ?_⟩
    rw [show (w.homeAt w' t id).id = id from rfl, hdirty, hget]
    refine iff_of_false (by simp) ?_
    rintro ⟨sp, hsp, hq⟩
    rcases hT.page p with ⟨hnone, -⟩ | ⟨hentry, -⟩
    · rw [hnone] at hsp
      cases hsp
    · rw [hentry] at hsp
      cases hsp
      cases hq
  · have hv : (w'.core.mem.mm (w.task t).mm).vmaAt a = some v := hv
    unfold Mm.vmaAt at hv
    rw [hmm, hmmap] at hv
    exact ⟨v, hv, rfl, rfl⟩
  · have hnot : ¬Spans.Covers (w'.core.mem.mm (w.task t).mm).mmap a := hnot
    rw [hmm, hmmap] at hnot
    exact absurd ha hnot
  · show (w'.core.mem.mm (w.task t).mm).brk = (w'.core.reg.data id).ss.oldbrk
    rw [hmm, hdata]
    show s.mm.brk = s.data.ss.oldbrk
    rw [hT.tables, hT.same]
    rfl
  · show PageKept w'.core.mem (w.task t).mm p v₀ (w.pageOf t p) ((w'.core.reg.data id).getSnapshotPage p)
    rw [hmem, hget]
    exact hT.pageKept hs hv₀ ((hsel p).mp hp) rfl
  · have hnone : (w'.core.reg.data id).getSnapshotPage p = some sp := hsp
    exact absurd (Or.inl (by rw [hnone]; rfl)) hp

/-- Nothing is unmapped by a take. -/
theorem Took.whole (h : Took env t config w id d₀ w') (hs : w.core.mem.Sane) (henv : env.Allocates) :
    Whole (w.homeAt w' t id) w'.core := by
  obtain ⟨x, s, hT, htaking⟩ := h.taken hs henv
  have hmm : w'.core.mem.mm (w.task t).mm = s.mm := by rw [h.mem, htaking, mm_setMm_self]
  refine ⟨fun a ha => ?_, ?_⟩
  · show Spans.Covers (w'.core.mem.mm (w.task t).mm).mmap a
    rw [hmm, hT.tables]
    exact ha
  · show (w'.core.mem.mm (w.task t).mm).brk = (w'.core.reg.data id).ss.oldbrk
    rw [hmm, h.data, htaking]
    show s.mm.brk = s.data.ss.oldbrk
    rw [hT.tables, hT.same]
    rfl

/-- No page is dirty after a take. -/
theorem Took.dirtyWritable (h : Took env t config w id d₀ w') (hs : w.core.mem.Sane) (henv : env.Allocates) :
    DirtyWritable (w.homeAt w' t id) w'.core := by
  obtain ⟨x, s, hT, htaking⟩ := h.taken hs henv
  intro p sp v hsp hdirty
  have hsp : (w'.core.reg.data id).getSnapshotPage p = some sp := hsp
  rw [h.data, htaking] at hsp
  have hsp : s.data.getSnapshotPage p = some sp := hsp
  rcases hT.page p with ⟨hnone, -⟩ | ⟨hentry, -⟩
  · rw [hnone] at hsp
    cases hsp
  · rw [hentry] at hsp
    cases hsp
    cases hdirty

end
end AflSnapshot
