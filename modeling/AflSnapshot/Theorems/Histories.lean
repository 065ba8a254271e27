import AflSnapshot.Theorems.TakeFailures

/-! # The record of one task

Only the task itself can drop its record, or change it beyond its pages (`SameRecord`). What a task has called so far
then tells what its record holds. -/

namespace AflSnapshot
open Runs

/-- The task has the same record, or none as before, but for its pages. -/
structure Registry.SameRecord (t : Nat) (reg reg' : Registry) : Prop where
  found : reg'.getTaskData t = reg.getTaskData t
  same : ∀ id, reg.getTaskData t = some id → SameButPages (reg.data id) (reg'.data id)

section
variable {env : Env} {t u id config : Nat} {w w' : World} {reg reg₁ reg₂ : Registry} {d : TaskData}

theorem getTaskData_iff (h : reg.Coherent) : reg.getTaskData t = some id ↔ id ∈ reg.taskDataList ∧ (reg.data id).tsk = t :=
  ⟨getTaskData_spec, fun ⟨hin, htsk⟩ => htsk ▸ getTaskData_of_mem h hin⟩

namespace Registry.SameRecord

theorem refl (t : Nat) (reg : Registry) : reg.SameRecord t reg := ⟨rfl, fun _ _ => .refl _⟩

theorem trans (h₁ : reg.SameRecord t reg₁) (h₂ : reg₁.SameRecord t reg₂) : reg.SameRecord t reg₂ where
  found := h₂.found.trans h₁.found
  same id hid := (h₁.same id hid).trans (h₂.same id (h₁.found.trans hid))

/-- The same records are listed for the task. -/
theorem of_listed (h : reg.Coherent) (h₁ : reg₁.Coherent)
    (hlist : ∀ i, i ∈ reg₁.taskDataList ∧ (reg₁.data i).tsk = t ↔ i ∈ reg.taskDataList ∧ (reg.data i).tsk = t)
    (hsame : ∀ i, i ∈ reg.taskDataList → (reg.data i).tsk = t → SameButPages (reg.data i) (reg₁.data i)) :
    reg.SameRecord t reg₁ where
  found := Option.ext fun i => by rw [getTaskData_iff h₁, getTaskData_iff h, hlist]
  same i hi := by
    obtain ⟨hin, htsk⟩ := getTaskData_spec hi
    exact hsame i hin htsk

theorem recordOf (h : w.core.reg.SameRecord t w'.core.reg) (hd : w'.recordOf t = some d) :
    ∃ d₀, w.recordOf t = some d₀ ∧ SameButPages d₀ d := by
  unfold World.recordOf at hd ⊢
  rw [h.found] at hd
  cases hget : w.core.reg.getTaskData t with
  | none =>
    rw [hget] at hd
    cases hd
  | some id =>
    rw [hget] at hd
    obtain rfl := Option.some.inj hd
    exact ⟨_, rfl, h.same id hget⟩

end Registry.SameRecord

theorem Core.Steady.sameRecord {c c' : Core} (h : c.Steady env c') (t : Nat) : c.reg.SameRecord t c'.reg :=
  ⟨h.getTaskData t, fun id _ => h.data id⟩

/-! ### Steps of another task -/

theorem ensureTaskData_coherent (h : reg.Coherent) (u : Nat) (alloc : Bool) : (reg.ensureTaskData u alloc).1.Coherent := by
  rcases ensureTaskData_spec h u alloc with ⟨-, hc, -⟩ | ⟨-, -, heq⟩
  · exact hc
  · rw [heq]
    exact h

theorem sameRecord_ensure (h : reg.Coherent) (hu : u ≠ t) (alloc : Bool) :
    reg.SameRecord t (reg.ensureTaskData u alloc).1 := by
  have hc := ensureTaskData_coherent h u alloc
  unfold Registry.ensureTaskData at hc ⊢
  cases hget : reg.getTaskData u with
  | some id => exact .refl t reg
  | none =>
    rw [hget] at hc
    by_cases halloc : alloc = true
    swap
    · rw [if_neg halloc]
      exact .refl t reg
    simp only [halloc, ↓reduceIte] at hc ⊢
    have hnew : ∀ i ∈ reg.taskDataList, (reg.setData reg.fresh (.new u)).data i = reg.data i := fun i hi =>
      setData_of_ne (h.listed i hi).ne
    refine .of_listed h hc (fun i => ⟨fun ⟨hi, htsk⟩ => ?_, fun ⟨hi, htsk⟩ => ⟨List.mem_cons_of_mem _ hi, ?_⟩⟩)
      fun i hi _ => ?_
    · rcases List.mem_cons.mp hi with rfl | hi
      · exact absurd ((congrArg TaskData.tsk setData_same).symm.trans htsk) hu
      · exact ⟨hi, (congrArg TaskData.tsk (hnew i hi)).symm.trans htsk⟩
    · exact (congrArg TaskData.tsk (hnew i hi)).trans htsk
    · exact (hnew i hi).symm ▸ SameButPages.refl _

/-- A record of another task changes. -/
theorem sameRecord_setData (htsk : (reg.data id).tsk = u) (hd : d.tsk = u) (hu : u ≠ t) :
    reg.SameRecord t (reg.setData id d) where
  found := getTaskData_setData (hd.trans htsk.symm) t
  same i hi := by
    have hne : i ≠ id := fun he => hu (htsk.symm.trans (he ▸ (getTaskData_spec hi).2))
    rw [setData_of_ne hne]
    exact .refl _

theorem sameRecord_addVmrange (h : w.Kept) (hu : u ≠ t) (f : RangeLists → RangeLists) :
    w.core.reg.SameRecord t (w.addVmrange env u f).core.reg := by
  have hens : w.core.reg.SameRecord t (w.ensureTaskData env u).1.core.reg := sameRecord_ensure h.coherent hu _
  have hspec := ensureTaskData_spec h.coherent u env.kzallocTaskData
  unfold World.addVmrange
  rcases hr : w.ensureTaskData env u with ⟨w₁, o⟩
  rw [hr] at hens
  cases o with
  | none =>
    dsimp only
    split <;> exact hens
  | some id =>
    dsimp only
    split
    swap
    · exact hens
    refine hens.trans (sameRecord_setData (u := u) ?_ ?_ hu)
    all_goals
      rcases hspec with ⟨⟨i, hi, hget, -⟩, -⟩ | ⟨-, -, heq⟩
      · have hw₁ : w₁.core.reg = (w.core.reg.ensureTaskData u env.kzallocTaskData).1 := congrArg (·.1.core.reg) hr.symm
        have hid : some id = some i := (congrArg Prod.snd hr).symm.trans hi
        obtain rfl := Option.some.inj hid
        rw [← hw₁] at hget
        exact (getTaskData_spec hget).2
      · have hid : some id = none := (congrArg Prod.snd hr).symm.trans (congrArg Prod.snd heq)
        cases hid

variable (config) in
/-- After the record is found or made, a take changes no other one. -/
theorem takeSnapshot_others (hens : w.core.reg.ensureTaskData u env.kzallocTaskData = (reg₁, some id)) :
    (w.takeSnapshot env u config).1.core.reg.taskDataList = reg₁.taskDataList ∧
      ((w.takeSnapshot env u config).1.core.reg.data id).tsk = (reg₁.data id).tsk ∧
      ∀ i, i ≠ id → (w.takeSnapshot env u config).1.core.reg.data i = reg₁.data i := by
  unfold World.takeSnapshot World.ensureTaskData
  rw [hens]
  dsimp only
  split
  · exact ⟨rfl, rfl, fun _ _ => rfl⟩
  · generalize hw₁ : ((w.mapCore fun c => { c with reg := reg₁ }).initializeSnapshot u id config) = w₁
    have hlist : w₁.core.reg.taskDataList = reg₁.taskDataList := by rw [← hw₁]; rfl
    have htsk : (w₁.core.reg.data id).tsk = (reg₁.data id).tsk := by
      rw [← hw₁]
      show ((reg₁.setData id _).data id).tsk = _
      rw [setData_same]
      rfl
    have hothers : ∀ i, i ≠ id → w₁.core.reg.data i = reg₁.data i := fun i hi => by
      rw [← hw₁]
      exact setData_of_ne hi
    have hkept := (tsk_kept env.take (w₁.core.reg.data id).tsk).takeVmas (w₁.core.mem.mm (w₁.task u).mm).mmap
      (s := ⟨w₁.core.reg.data id, w₁.core.mem.mm (w₁.task u).mm, ⟨0, 0⟩⟩) rfl
    refine ⟨hlist, ?_, fun i hi => ?_⟩
    · rw [← htsk, ← hkept]
      simp only [World.takeFiles, World.mapCore, Core.modifyData, Core.takeMemorySnapshot, setData_same]
      rfl
    · rw [← hothers i hi]
      simp only [World.takeFiles, World.mapCore, Core.modifyData, Core.takeMemorySnapshot, setData_of_ne hi]
      rfl

theorem sameRecord_take (h : w.Kept) (hu : u ≠ t) :
    w.core.reg.SameRecord t (w.takeSnapshot env u config).1.core.reg := by
  rcases takeSnapshot_cases env u config h.coherent (h.sorted u) with ⟨id, -, heq⟩ | ⟨-, -, heq⟩ | ⟨id, d₀, -, hT, -, halloc⟩
  · rw [heq]
    exact .refl t _
  · rw [heq]
    exact .refl t _
  have hens := sameRecord_ensure h.coherent hu env.kzallocTaskData
  have hc := ensureTaskData_coherent h.coherent u env.kzallocTaskData
  rcases ensureTaskData_spec h.coherent u env.kzallocTaskData with ⟨⟨i, hi, hget, -⟩, -⟩ | ⟨hfail, hnone, -⟩
  swap
  · rw [halloc hnone] at hfail
    cases hfail
  rcases hreg : w.core.reg.ensureTaskData u env.kzallocTaskData with ⟨reg₁, o⟩
  rw [hreg] at hens hi hget hc
  obtain rfl : o = some i := hi
  obtain ⟨hlist, htsk, hothers⟩ := takeSnapshot_others config hreg
  have hi : (reg₁.data i).tsk = u := (getTaskData_spec hget).2
  refine hens.trans (.of_listed hc hT.coherent (fun j => ?_) fun j _ hjt => ?_)
  · rw [hlist]
    refine and_congr_right fun _ => ?_
    by_cases hne : j = i
    · rw [hne, htsk]
    · rw [hothers j hne]
  · have hne : j ≠ i := fun he => hu (hi.symm.trans (he ▸ hjt))
    rw [hothers j hne]
    exact .refl _

theorem sameRecord_clean (h : w.Kept) (hu : u ≠ t) : w.core.reg.SameRecord t (w.cleanSnapshot u).core.reg := by
  have hc := (cleanSnapshot_cleaned h.coherent u).coherent
  unfold World.cleanSnapshot at hc ⊢
  cases hget : w.core.reg.getTaskData u with
  | none => exact .refl t _
  | some id =>
    rw [hget] at hc
    have hid : (w.core.reg.data id).tsk = u := (getTaskData_spec hget).2
    dsimp only at hc ⊢
    simp only [World.mapCore, Core.modifyData, Registry.removeTaskData, Core.cleanMemorySnapshot] at hc ⊢
    refine .of_listed h.coherent hc (fun j => ?_) fun j _ hjt => ?_
    · by_cases hne : j = id
      · subst hne
        simp only [setData_same]
        exact iff_of_false (fun hj => hu (hid.symm.trans hj.2)) fun hj => hu (hid.symm.trans hj.2)
      · simp only [setData_of_ne hne]
        exact and_congr_left fun _ => List.mem_erase_of_ne hne
    · have hne : j ≠ id := fun he => hu (hid.symm.trans (he ▸ hjt))
      simp only [setData_of_ne hne]
      exact .refl _

theorem sameRecord_exit (h : w.Kept) (hu : u ≠ t) : w.core.reg.SameRecord t (w.doExitHook u).core.reg := by
  rcases doExitHook_cases w u with heq | heq <;> rw [heq]
  · exact .refl t _
  · exact sameRecord_clean h hu

theorem sameRecord_exitGroup (h : w.Kept) (hu : u ≠ t) :
    w.core.reg.SameRecord t (w.sysExitGroupHook env u).core.reg := by
  have hexit : ∀ w : World, w.Kept → w.core.reg.SameRecord t ((w.recoverThreadsSnapshot u).doExitHook u).core.reg :=
    fun w h => by
      have := sameRecord_exit (h.recoverThreads u) hu
      rwa [(recoverThreads_same w u).core] at this
  rcases sysExitGroupHook_cases env w u with ⟨id, -, -, -, heq⟩ | heq | heq <;> rw [heq]
  · exact (h.restoreSnapshot env u id).steady.sameRecord t
  · exact (sameRecord_clean h hu).trans (hexit _ (h.clean u))
  · exact hexit w h

/-- The commands of a task that may drop its record, or change it beyond its pages. -/
def Op.Commands : Op → Prop
  | .ioctl .restore => False
  | .ioctl _ | .exit | .exitGroup => True
  | _ => False

variable (env u t) in
theorem sameRecord_step (h : w.Kept) (op : Op) (hu : u = t → ¬op.Commands) :
    w.core.reg.SameRecord t (w.step env u op).core.reg := by
  have hrange : ∀ f, u ≠ t → w.core.reg.SameRecord t
      (if env.copyFromUser then (w.addVmrange env u f, (0 : Int)) else (w, -22)).1.core.reg := fun f hu => by
    split
    · exact sameRecord_addVmrange h hu f
    · exact .refl t _
  have hsteady : ∀ {c'}, w.core.Steady env c' → w.core.reg.SameRecord t c'.reg := fun hs => hs.sameRecord t
  have hc := h.coherent
  cases op with
  | ioctl cmd =>
    cases cmd with
    | excludeVmrange start end_ => exact hrange _ fun he => hu he trivial
    | includeVmrange start end_ => exact hrange _ fun he => hu he trivial
    | take config => exact sameRecord_take h fun he => hu he trivial
    | do_ => exact sameRecord_take h fun he => hu he trivial
    | restore =>
      show w.core.reg.SameRecord t (w.recoverSnapshot env u).1.core.reg
      unfold World.recoverSnapshot
      split
      · exact .refl t _
      · exact (h.restoreSnapshot env u _).steady.sameRecord t
    | clean => exact sameRecord_clean h fun he => hu he trivial
  | exit => exact sameRecord_exit h fun he => hu he trivial
  | exitGroup => exact sameRecord_exitGroup h fun he => hu he trivial
  | read _ | write _ _ | discard _ | munmap _ _ | brk _ | mprotect _ _ _ | mmap _ _ _ _ _ | movePages _ _ _
  | swapIn _ _ _ | file _ | fork => exact hsteady (steady_quiet hc trivial)

/-! ### Its own commands -/

theorem recordOf_eq (hget : w.core.reg.getTaskData t = some id) : w.recordOf t = some (w.core.reg.data id) := by
  rw [World.recordOf, hget]
  rfl

/-- A call that names a range changes the ranges of the task's record, which is a new one where there was none. -/
theorem addVmrange_record (h : w.Kept) (hrecord : env.kzallocTaskData = true) (hnode : env.kmallocVmrange = true)
    (f : RangeLists → RangeLists) :
    (w.addVmrange env t f).recordOf t = some { w.recordFor t with ranges := f (w.recordFor t).ranges } := by
  rcases ensureTaskData_spec h.coherent t env.kzallocTaskData with ⟨⟨id, hid, hget, hold⟩, -⟩ | ⟨hfail, -⟩
  swap
  · rw [hrecord] at hfail
    cases hfail
  have hfor : w.recordFor t = (w.core.reg.ensureTaskData t env.kzallocTaskData).1.data id := by
    unfold World.recordFor World.recordOf
    rcases hold with ⟨hold, heq⟩ | ⟨hnone, -, hnew⟩
    · rw [hold, heq]
      rfl
    · rw [hnone, hnew]
      rfl
  rw [hfor]
  unfold World.addVmrange World.ensureTaskData
  rcases hens : w.core.reg.ensureTaskData t env.kzallocTaskData with ⟨reg₁, o⟩
  rw [hens] at hid hget
  obtain rfl : o = some id := hid
  dsimp only at hget ⊢
  rw [if_pos hnode]
  have hfound : ∀ d : TaskData, d.tsk = (reg₁.data id).tsk → (reg₁.setData id d).getTaskData t = some id := fun d hd =>
    (getTaskData_setData hd t).trans hget
  exact (recordOf_eq (hfound { reg₁.data id with ranges := f (reg₁.data id).ranges } rfl)).trans (congrArg some setData_same)

/-- A take leaves the ranges of its record as they are. -/
theorem take_ranges (h : w.Kept) : ((w.takeSnapshot env t config).1.recordFor t).ranges = (w.recordFor t).ranges := by
  rcases takeSnapshot_cases env t config h.coherent (h.sorted t) with ⟨id, -, heq⟩ | ⟨-, -, heq⟩ | ⟨id, d₀, -, hT, -⟩
  · rw [heq]
  · rw [heq]
    rfl
  have hblank : (w.initialized t config d₀).Blank := hT.fresh.2.2
  obtain ⟨done, rest, x, s, -, hs, hres, -⟩ := take_taken env.take (h.sorted t) hblank
  have hres : (w.taking env t config d₀).1 = (s.data, s.mm) := hres
  have hranges : s.data.ranges = d₀.ranges := by rw [hs.same]; rfl
  rw [hT.recordFor, ← hranges]
  unfold World.recordFor
  rw [recordOf_eq (live_eq_some.mp hT.live).1, hT.data, hres]
  rfl

theorem Registry.SameRecord.ranges (h : w.core.reg.SameRecord t w'.core.reg) :
    (w'.recordFor t).ranges = (w.recordFor t).ranges := by
  unfold World.recordFor World.recordOf
  rw [h.found]
  cases hget : w.core.reg.getTaskData t with
  | none => rfl
  | some id =>
    have hsame := h.same id hget
    show (w'.core.reg.data id).ranges = (w.core.reg.data id).ranges
    rw [hsame]

end

/-! ### The ranges that a task has named -/

/-- The system, and the ranges that a task has named in it so far. -/
structure Named where
  world : World
  calls : List RangeCall

/-- The range that a move of the task names. -/
def Move.named (t : Nat) (a : Move) : List RangeCall :=
  if a.tsk = t ∧ a.env.copyFromUser then
    match a.op with
    | .ioctl (.excludeVmrange start end_) => [.exclude start end_]
    | .ioctl (.includeVmrange start end_) => [.include_ start end_]
    | _ => []
  else []

def Named.step (t : Nat) (s : Named) (a : Move) : Named where
  world := s.world.move a
  calls := s.calls ++ a.named t

/-- The task keeps its record, and has the memory to name ranges. -/
def Names (t : Nat) (_ : Named) (a : Move) : Prop :=
  a.tsk = t → match a.op with
    | .ioctl (.excludeVmrange _ _) | .ioctl (.includeVmrange _ _) =>
      a.env.kzallocTaskData = true ∧ a.env.kmallocVmrange = true
    | .ioctl .clean | .exit | .exitGroup => False
    | _ => True

section
variable {t : Nat} {w₀ : World} {s : Named} {a : Move}

theorem named_nil (h : a.tsk = t → ∀ start end_, a.op ≠ .ioctl (.excludeVmrange start end_) ∧
    a.op ≠ .ioctl (.includeVmrange start end_)) : a.named t = [] := by
  unfold Move.named
  split
  · rename_i ht
    split
    · rename_i start end_ hop
      exact absurd hop (h ht.1 start end_).1
    · rename_i start end_ hop
      exact absurd hop (h ht.1 start end_).2
    · rfl
  · rfl

/-- The record holds what the calls on a new one leave. -/
theorem named_step (h : s.world.Kept) (hranges : (s.world.recordFor t).ranges = s.calls.foldl RangeCall.apply RangeLists.empty)
    (ha : Names t s a) :
    ((s.step t a).world.recordFor t).ranges = (s.step t a).calls.foldl RangeCall.apply RangeLists.empty := by
  have hquiet : (a.tsk = t → ¬a.op.Commands) → ((s.step t a).world.recordFor t).ranges =
      (s.step t a).calls.foldl RangeCall.apply RangeLists.empty := fun hq => by
    have hnil : a.named t = [] := named_nil fun ht start end_ =>
      ⟨fun he => hq ht (he ▸ trivial), fun he => hq ht (he ▸ trivial)⟩
    show ((s.world.step a.env a.tsk a.op).recordFor t).ranges = (s.calls ++ a.named t).foldl RangeCall.apply RangeLists.empty
    rw [hnil, List.append_nil, ← hranges]
    exact (sameRecord_step a.env t a.tsk h a.op hq).ranges
  by_cases ht : a.tsk = t
  swap
  · exact hquiet fun he => absurd he ht
  obtain ⟨env, u, op⟩ := a
  obtain rfl : u = t := ht
  have hpermit := ha rfl
  -- A call that names a range, with its arguments copied.
  have hcall : ∀ (c : RangeCall) (f : RangeLists → RangeLists), env.kzallocTaskData = true ∧ env.kmallocVmrange = true →
      (∀ r, RangeCall.apply r c = f r) →
      ((if env.copyFromUser then (s.world.addVmrange env u f, (0 : Int)) else (s.world, -22)).1.recordFor u).ranges =
        (s.calls ++ if env.copyFromUser then [c] else []).foldl RangeCall.apply RangeLists.empty := by
    intro c f hmem hc
    split
    · rw [World.recordFor, addVmrange_record h hmem.1 hmem.2 f, List.foldl_append, ← hranges, List.foldl_cons, List.foldl_nil, hc]
      rfl
    · rw [List.append_nil]
      exact hranges
  cases op with
  | ioctl cmd =>
    cases cmd with
    | excludeVmrange start end_ =>
      have := hcall (.exclude start end_) (·.exclude start end_) hpermit fun _ => rfl
      simpa [Named.step, Move.named, World.move, World.step, World.ioctl, World.excludeVmrange] using this
    | includeVmrange start end_ =>
      have := hcall (.include_ start end_) (·.include_ start end_) hpermit fun _ => rfl
      simpa [Named.step, Move.named, World.move, World.step, World.ioctl, World.includeVmrange] using this
    | take config =>
      have hnil : Move.named u ⟨env, u, .ioctl (.take config)⟩ = [] := named_nil fun _ _ _ => by simp
      show _ = (s.calls ++ Move.named u ⟨env, u, .ioctl (.take config)⟩).foldl RangeCall.apply RangeLists.empty
      rw [hnil, List.append_nil, ← hranges]
      exact take_ranges h
    | do_ =>
      have hnil : Move.named u ⟨env, u, .ioctl .do_⟩ = [] := named_nil fun _ _ _ => by simp
      show _ = (s.calls ++ Move.named u ⟨env, u, .ioctl .do_⟩).foldl RangeCall.apply RangeLists.empty
      rw [hnil, List.append_nil, ← hranges]
      exact take_ranges h
    | restore => exact hquiet fun _ => id
    | clean => exact hpermit.elim
  | exit => exact hpermit.elim
  | exitGroup => exact hpermit.elim
  | read _ | write _ _ | discard _ | munmap _ _ | brk _ | mprotect _ _ _ | mmap _ _ _ _ _ | movePages _ _ _
  | swapIn _ _ _ | file _ | fork => exact hquiet fun _ => id

/-- Wherever a task has come to that keeps its record, all the ranges that it named can be found and are freed with the
    record if and only if it named at most one for each list. -/
theorem ranges_kept_iff (h₀ : w₀.Kept) (hnone : w₀.recordOf t = none) (hrun : Run (Named.step t) (Names t) ⟨w₀, []⟩ s) :
    RangesKept s.calls (s.world.recordFor t) ↔
      (RangeCall.added blocklist s.calls).length ≤ 1 ∧ (RangeCall.added allowlist s.calls).length ≤ 1 := by
  have hinv : s.world.Kept ∧ (s.world.recordFor t).ranges = s.calls.foldl RangeCall.apply RangeLists.empty := by
    refine hrun.invariant (I := fun s => s.world.Kept ∧
      (s.world.recordFor t).ranges = s.calls.foldl RangeCall.apply RangeLists.empty) ⟨h₀, ?_⟩ fun s a hs ha => ?_
    · show (w₀.recordFor t).ranges = RangeLists.empty
      rw [World.recordFor, hnone]
      rfl
    · exact ⟨(hs.1.step a.env a.tsk a.op).1, named_step hs.1 hs.2 ha⟩
  exact rangesKept_iff _ _ hinv.2

/-- A blocked range and an allowed one. -/
def namedTwice : Named :=
  (Named.step 1 ⟨.boot heapMm [1], []⟩ ⟨.calm, 1, .ioctl (.excludeVmrange 4096 8192)⟩).step 1
    ⟨.calm, 1, .ioctl (.includeVmrange 8192 12288)⟩

theorem ranges_kept_twice : RangesKept [.exclude 4096 8192, .include_ 8192 12288] (namedTwice.world.recordFor 1) :=
  (ranges_kept_iff (heapMm_kept [1]) rfl
    (.step (.step .start fun _ => ⟨rfl, rfl⟩) fun _ => ⟨rfl, rfl⟩ : Run (Named.step 1) (Names 1) _ namedTwice)).mpr (by decide)

/-- After a second blocked range the first one is not found any more. -/
theorem ranges_kept_fails :
    let s := (Named.step 1 ⟨.boot heapMm [1], []⟩ ⟨.calm, 1, .ioctl (.excludeVmrange 4096 8192)⟩).step 1
      ⟨.calm, 1, .ioctl (.excludeVmrange 8192 12288)⟩
    s.calls = [.exclude 4096 8192, .exclude 8192 12288] ∧ intersectBlocklist (s.world.recordFor 1) 4096 8192 = none ∧
      ¬RangesKept s.calls (s.world.recordFor 1) := by
  refine ⟨rfl, by decide, fun h => ?_⟩
  have hfound := (h.block 4096 8192).mpr ⟨⟨4096, 8192⟩, by decide, by decide⟩
  exact absurd hfound (by decide)

end
end AflSnapshot
