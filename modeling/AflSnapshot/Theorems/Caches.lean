import AflSnapshot.Theorems.Departures

/-! # The caches of the hooks

A CPU may remember a task that has no record, and one that has died. A cached lookup leads to the same decision as an
uncached one all the same, and to a record that is listed, as long as the module's steps are atomic. A lookup between
two steps of a clean can bring the record that is being dropped back into a cache. -/

namespace AflSnapshot
open Runs

/-- A cache that holds a record is about a task, and the record is listed. -/
def Registry.CachesListed (reg : Registry) : Prop :=
  ∀ cpu id, reg.lastTaskData cpu = some id → reg.lastTask cpu ≠ none ∧ id ∈ reg.taskDataList

section
variable {env : Env} {t u id config cpu : Nat} {w w' w₀ : World} {reg reg' : Registry} {d : TaskData}

namespace Registry.CachesListed

theorem congr (h : reg.CachesListed) (hlist : ∀ i ∈ reg.taskDataList, i ∈ reg'.taskDataList)
    (hcaches : reg.CachesFrom reg') : reg'.CachesListed := fun cpu id hid => by
  rcases hcaches cpu id hid with ⟨htask, hdata⟩ | ⟨htask, hin⟩
  · obtain ⟨hne, hin⟩ := h cpu id hdata
    exact ⟨htask ▸ hne, hlist id hin⟩
  · exact ⟨htask, hlist id hin⟩

theorem ensureTaskData (h : reg.CachesListed) (tsk : Nat) (alloc : Bool) : (reg.ensureTaskData tsk alloc).1.CachesListed := by
  unfold Registry.ensureTaskData
  split
  · exact h
  · split
    · exact h.congr (fun i hi => List.mem_cons_of_mem _ hi) (.refl reg)
    · exact h

theorem invalidate (h : reg.CachesListed) (tsk : Nat) : (reg.invalidateTaskDataCache tsk).CachesListed := fun cpu id hid => by
  by_cases hcpu : reg.lastTask cpu = some tsk
  · simp [Registry.invalidateTaskDataCache, hcpu] at hid
  · have hdata : reg.lastTaskData cpu = some id := by simpa [Registry.invalidateTaskDataCache, hcpu] using hid
    obtain ⟨hne, hin⟩ := h cpu id hdata
    exact ⟨by simpa [Registry.invalidateTaskDataCache, hcpu] using hne, hin⟩

/-- The record of a task that no cache is about is dropped. -/
theorem remove (h : reg.CachesListed) (hc : reg.Coherent) (hunc : reg.Uncached t) (htsk : (reg.data id).tsk = t) :
    ((reg.setData id d).removeTaskData id).CachesListed := fun cpu i hi => by
  obtain ⟨hne, hin⟩ := h cpu i hi
  obtain ⟨tsk, hcpu⟩ := Option.ne_none_iff_exists'.mp hne
  have hid : i ≠ id := by
    rintro rfl
    have hown := (hc.cached cpu tsk i hcpu hi).1
    exact hunc cpu (by rw [hcpu, ← hown, htsk])
  exact ⟨hne, (List.mem_erase_of_ne hid).mpr hin⟩

end Registry.CachesListed

theorem Core.Steady.cachesListed {c c' : Core} (hs : c.Steady env c') (h : c.reg.CachesListed) : c'.reg.CachesListed :=
  h.congr (fun _ hi => hs.taskDataList.symm ▸ hi) hs.caches

theorem cachesListed_addVmrange (h : w.core.reg.CachesListed) (f : RangeLists → RangeLists) :
    (w.addVmrange env t f).core.reg.CachesListed := by
  have hens : (w.ensureTaskData env t).1.core.reg.CachesListed := h.ensureTaskData t _
  unfold World.addVmrange
  rcases hr : w.ensureTaskData env t with ⟨w₁, o⟩
  rw [hr] at hens
  cases o with
  | none =>
    dsimp only
    split <;> exact hens
  | some id =>
    dsimp only
    split <;> exact hens

theorem cachesListed_take (h : w.core.reg.CachesListed) : (w.takeSnapshot env t config).1.core.reg.CachesListed := by
  have hens : (w.ensureTaskData env t).1.core.reg.CachesListed := h.ensureTaskData t _
  unfold World.takeSnapshot
  rcases hr : w.ensureTaskData env t with ⟨w₁, o⟩
  rw [hr] at hens
  cases o with
  | none => exact hens
  | some id =>
    dsimp only
    split
    · exact hens
    · exact hens.invalidate ((w₁.initializeSnapshot t id config).core.reg.data id).tsk

theorem cachesListed_clean (hc : w.core.reg.Coherent) (h : w.core.reg.CachesListed) (t : Nat) :
    (w.cleanSnapshot t).core.reg.CachesListed := by
  cases hget : w.core.reg.getTaskData t with
  | none =>
    have hidle : w.cleanSnapshot t = w := by
      unfold World.cleanSnapshot
      rw [hget]
    rw [hidle]
    exact h
  | some id =>
    obtain ⟨d, -, heq⟩ := cleanSnapshot_reg hget
    obtain ⟨hinv, hunc⟩ := invalidate_spec hc t
    rw [heq]
    exact (h.invalidate t).remove hinv hunc (getTaskData_spec hget).2


theorem cachesListed_exit (hc : w.core.reg.Coherent) (h : w.core.reg.CachesListed) (t : Nat) :
    (w.doExitHook t).core.reg.CachesListed := by
  rcases doExitHook_cases w t with heq | heq <;> rw [heq]
  · exact h
  · exact cachesListed_clean hc h t

theorem cachesListed_exitGroup (hw : w.Kept) (h : w.core.reg.CachesListed) :
    (w.sysExitGroupHook env t).core.reg.CachesListed := by
  have hexit : ∀ w : World, w.Kept → w.core.reg.CachesListed →
      ((w.recoverThreadsSnapshot t).doExitHook t).core.reg.CachesListed := fun w hw h => by
    refine cachesListed_exit (hw.recoverThreads t).coherent ?_ t
    rwa [(recoverThreads_same w t).core]
  rcases sysExitGroupHook_cases env w t with ⟨id, -, -, -, heq⟩ | heq | heq <;> rw [heq]
  · exact (hw.restoreSnapshot env t id).steady.cachesListed h
  · exact hexit _ (hw.clean t) (cachesListed_clean hw.coherent h t)
  · exact hexit w hw h

theorem cachesListed_step (hw : w.Kept) (h : w.core.reg.CachesListed) (op : Op) :
    (w.step env t op).core.reg.CachesListed := by
  have hsteady : ∀ {c'}, w.core.Steady env c' → c'.reg.CachesListed := fun hs => hs.cachesListed h
  have hrange : ∀ f, (if env.copyFromUser then (w.addVmrange env t f, (0 : Int)) else (w, -22)).1.core.reg.CachesListed :=
    fun f => by
      split
      · exact cachesListed_addVmrange h f
      · exact h
  have hc := hw.coherent
  cases op with
  | ioctl cmd =>
    cases cmd with
    | excludeVmrange start end_ => exact hrange _
    | includeVmrange start end_ => exact hrange _
    | take config => exact cachesListed_take h
    | do_ => exact cachesListed_take h
    | restore =>
      show (w.recoverSnapshot env t).1.core.reg.CachesListed
      unfold World.recoverSnapshot
      split
      · exact h
      · exact (hw.restoreSnapshot env t _).steady.cachesListed h
    | clean => exact cachesListed_clean hc h t
  | exit => exact cachesListed_exit hc h t
  | exitGroup => exact cachesListed_exitGroup hw h
  | read _ | write _ _ | discard _ | munmap _ _ | brk _ | mprotect _ _ _ | mmap _ _ _ _ _ | movePages _ _ _
  | swapIn _ _ _ | file _ | fork => exact hsteady (steady_quiet hc trivial)

theorem cachesListed_happen (hw : w.Kept) (h : w.core.reg.CachesListed) (a : Deed) : (w.happen a).core.reg.CachesListed := by
  cases a with
  | move env tsk op =>
    unfold World.happen
    dsimp only
    split
    · exact cachesListed_step hw h op
    · exact h
  | fork parent child =>
    unfold World.happen
    dsimp only
    split <;> exact h
  | clone parent child =>
    unfold World.happen
    dsimp only
    split <;> exact h
  | lookup cpu tsk =>
    have hlist : (w.lookup cpu tsk).core.reg.taskDataList = w.core.reg.taskDataList := by
      have hsame : w.core.reg.SameButCaches (w.lookup cpu tsk).core.reg := (withCache_spec hw.coherent cpu tsk).1
      rw [hsame]
    exact h.congr (fun i hi => hlist ▸ hi) (withCache_caches _ cpu tsk)

/-- The caches of every state that is reached hold what they are to hold. -/
theorem caches_of_run (h₀ : w₀.Loaded) (hrun : Run World.happen (fun _ _ => True) w₀ w) :
    w.Told ∧ w.core.reg.CachesListed := by
  refine hrun.invariant (I := fun w => w.Told ∧ w.core.reg.CachesListed) ⟨h₀.told, fun cpu id hid => ?_⟩ fun w a hw _ => ?_
  · rw [h₀.uncached cpu] at hid
    cases hid
  · exact ⟨(happen_told hw.1 a).1, cachesListed_happen hw.1.toKept hw.2 a⟩

/-- In every state that is reached a lookup through the cache of any CPU gives a record that is listed, or none, and
    leads to the same live snapshot as an uncached one, or like that to none. -/
theorem cached_lookup (h₀ : w₀.Loaded) (hrun : Run World.happen (fun _ _ => True) w₀ w) (cpu tsk : Nat) :
    (∀ id, (w.core.reg.getTaskDataWithCache cpu tsk).2 = some id → id ∈ w.core.reg.taskDataList) ∧
      w.core.reg.ifLive (w.core.reg.getTaskDataWithCache cpu tsk).2 = w.core.reg.ifLive (w.core.reg.getTaskData tsk) := by
  obtain ⟨htold, hlisted⟩ := caches_of_run h₀ hrun
  obtain ⟨hsame, -, hlive⟩ := withCache_spec htold.coherent cpu tsk
  refine ⟨fun id hid => ?_, hlive⟩
  unfold Registry.getTaskDataWithCache at hid
  split at hid
  · exact (hlisted cpu id hid).2
  · exact (getTaskData_spec hid).1

/-- The cache of CPU 0 has it that task 1 has no record; it names a range. -/
def staleCache : World :=
  ((World.boot heapMm [1]).happen (.lookup 0 1)).happen (.move .calm 1 (.ioctl (.excludeVmrange 4096 8192)))

theorem cached_lookup_stale :
    (staleCache.core.reg.getTaskDataWithCache 0 1).2 = none ∧ staleCache.core.reg.getTaskData 1 = some 0 ∧
      staleCache.core.reg.ifLive (staleCache.core.reg.getTaskDataWithCache 0 1).2 =
        staleCache.core.reg.ifLive (staleCache.core.reg.getTaskData 1) :=
  ⟨by decide, by decide,
    (cached_lookup (boot_loaded [1] (heapMm_kept [1])) (.step (.step .start trivial) trivial) 0 1).2⟩


end

/-! ### A clean, step by step -/

/-- The steps of `clean_snapshot`, and the end of the record after a grace period. -/
inductive CleanStep
  | invalidateTaskDataCache
  | cleanSnapshotVmas
  | freePages
  | cleanFilesSnapshot
  | clearSnapshot
  | removeTaskData
  | taskDataFreeCallback
deriving DecidableEq

open CleanStep in
def cleanSteps : List CleanStep :=
  [invalidateTaskDataCache, cleanSnapshotVmas, freePages, cleanFilesSnapshot, clearSnapshot, removeTaskData,
    taskDataFreeCallback]

def World.cleanStep (id : Nat) (w : World) : CleanStep → World
  | .invalidateTaskDataCache =>
    w.mapCore fun c => { c with reg := c.reg.invalidateTaskDataCache (c.reg.data id).tsk }
  | .cleanSnapshotVmas =>
    w.mapCore (·.modifyData id fun d => { d with ss := { d.ss with allVmas := [], snapshottedVmas := [] } })
  | .freePages => w.mapCore (·.modifyData id fun d => { d with ss := { d.ss with ssPages := [] } })
  | .cleanFilesSnapshot =>
    let r := w.fs.cleanFilesSnapshot (w.core.reg.data id)
    { w with fs := r.1 }.mapCore (·.modifyData id fun d => { d with ss := { d.ss with ssFiles := r.2 } })
  | .clearSnapshot => w.mapCore (·.modifyData id TaskData.clearSnapshot)
  | .removeTaskData => w.mapCore fun c => { c with reg := c.reg.removeTaskData id }
  | .taskDataFreeCallback => w.mapCore fun c => { c with reg := { c.reg with rcu := c.reg.rcu.erase id } }

/-- A clean under way: the system, the steps that are left, and for each CPU the task that was looked up there last, if
    any was since the caches were invalidated. -/
structure Cleaning where
  world : World
  todo : List CleanStep
  recent : Nat → Option Nat

inductive CleanEvent
  | clean
  | lookup (cpu tsk : Nat)

def Cleaning.happen (id : Nat) (s : Cleaning) : CleanEvent → Cleaning
  | .clean =>
    match s.todo with
    | [] => s
    | step :: todo =>
      { world := s.world.cleanStep id step
        todo
        recent := if step = .invalidateTaskDataCache then fun _ => none else s.recent }
  | .lookup cpu tsk => { s with world := s.world.lookup cpu tsk, recent := Function.update s.recent cpu (some tsk) }

def Cleaning.start (w : World) : Cleaning := ⟨w, cleanSteps, fun _ => none⟩

section
variable {t id : Nat} {w w₀ : World} {s : Cleaning} {reg : Registry}

/-- All steps up to the unlinking in a row are `clean_snapshot`. -/
theorem cleanSteps_eq (hget : w.core.reg.getTaskData t = some id) :
    (cleanSteps.take 6).foldl (World.cleanStep id) w = w.cleanSnapshot t := by
  unfold World.cleanSnapshot
  rw [hget]
  simp only [cleanSteps, List.take, List.foldl, World.cleanStep, World.mapCore, Core.cleanMemorySnapshot, modifyData_modifyData]

/-- Once the record is unlinked no cache refers to it; once it is freed no lookup gives it. -/
structure Cleaning.Unreachable (id : Nat) (s : Cleaning) : Prop where
  caches : .removeTaskData ∉ s.todo → ∀ cpu, s.world.core.reg.lastTaskData cpu ≠ some id
  lookups : .taskDataFreeCallback ∉ s.todo → ∀ cpu tsk, (s.world.core.reg.getTaskDataWithCache cpu tsk).2 ≠ some id

/-- When the record is unlinked, no CPU has looked its task up last since the caches were invalidated. -/
def Cleaning.Quiet (t : Nat) (s : Cleaning) : CleanEvent → Prop
  | .clean => s.todo.head? = some .removeTaskData → ∀ cpu, s.recent cpu ≠ some t
  | .lookup _ _ => True

/-- What holds while the record `id` of task `t` is cleaned. After the invalidation a cache is about the task only where a
    CPU has looked it up last, and has its record there. -/
structure Cleaning.Under (t id : Nat) (s : Cleaning) : Prop where
  todo : s.todo <:+ cleanSteps
  tsk : (s.world.core.reg.data id).tsk = t
  nodup : s.world.core.reg.taskDataList.Nodup
  listed : .removeTaskData ∈ s.todo → s.world.core.reg.getTaskData t = some id
  unlisted : .removeTaskData ∉ s.todo → id ∉ s.world.core.reg.taskDataList
  cached : ∀ cpu, s.world.core.reg.lastTaskData cpu = some id → s.world.core.reg.lastTask cpu = some t
  recent : .invalidateTaskDataCache ∉ s.todo → ∀ cpu, s.world.core.reg.lastTask cpu = some t → s.recent cpu = some t
  dying : .invalidateTaskDataCache ∉ s.todo → .removeTaskData ∈ s.todo → ∀ cpu, s.recent cpu = some t →
    s.world.core.reg.lastTaskData cpu = some id

/-- The steps after a step. -/
def CleanStep.next : CleanStep → List CleanStep
  | .invalidateTaskDataCache =>
    [.cleanSnapshotVmas, .freePages, .cleanFilesSnapshot, .clearSnapshot, .removeTaskData, .taskDataFreeCallback]
  | .cleanSnapshotVmas => [.freePages, .cleanFilesSnapshot, .clearSnapshot, .removeTaskData, .taskDataFreeCallback]
  | .freePages => [.cleanFilesSnapshot, .clearSnapshot, .removeTaskData, .taskDataFreeCallback]
  | .cleanFilesSnapshot => [.clearSnapshot, .removeTaskData, .taskDataFreeCallback]
  | .clearSnapshot => [.removeTaskData, .taskDataFreeCallback]
  | .removeTaskData => [.taskDataFreeCallback]
  | .taskDataFreeCallback => []

theorem cleanSteps_next {step : CleanStep} {todo : List CleanStep} (h : step :: todo <:+ cleanSteps) : todo = step.next := by
  simp only [cleanSteps, List.suffix_cons_iff, List.cons.injEq, List.suffix_nil, reduceCtorEq, or_false] at h
  rcases h with ⟨rfl, rfl⟩ | ⟨rfl, rfl⟩ | ⟨rfl, rfl⟩ | ⟨rfl, rfl⟩ | ⟨rfl, rfl⟩ | ⟨rfl, rfl⟩ | ⟨rfl, rfl⟩ <;> rfl

/-! ### Lookups -/

theorem lookup_same (w : World) (cpu tsk : Nat) : w.core.reg.SameButCaches (w.lookup cpu tsk).core.reg := by
  show w.core.reg.SameButCaches (w.core.reg.getTaskDataWithCache cpu tsk).1
  unfold Registry.getTaskDataWithCache
  split <;> rfl

/-- The caches after a lookup. -/
theorem lookup_caches (w : World) (cpu tsk : Nat) (c : Nat) :
    (w.lookup cpu tsk).core.reg.lastTask c = (if c = cpu then some tsk else w.core.reg.lastTask c) ∧
      (w.lookup cpu tsk).core.reg.lastTaskData c =
        if c = cpu ∧ w.core.reg.lastTask cpu ≠ some tsk then w.core.reg.getTaskData tsk else w.core.reg.lastTaskData c := by
  show (w.core.reg.getTaskDataWithCache cpu tsk).1.lastTask c = _ ∧
    (w.core.reg.getTaskDataWithCache cpu tsk).1.lastTaskData c = _
  unfold Registry.getTaskDataWithCache
  by_cases hcpu : w.core.reg.lastTask cpu = some tsk
  · rw [if_pos hcpu]
    by_cases hc : c = cpu
    · simp [hc, hcpu]
    · simp [hc]
  · rw [if_neg hcpu]
    by_cases hc : c = cpu
    · simp [hc, hcpu]
    · simp [hc]

theorem Cleaning.Under.lookup (h : s.Under t id) (cpu tsk : Nat) : (s.happen id (.lookup cpu tsk)).Under t id := by
  have hsame := lookup_same s.world cpu tsk
  have hfound : ∀ u, (s.world.lookup cpu tsk).core.reg.getTaskData u = s.world.core.reg.getTaskData u := fun u => by
    rw [hsame]
    rfl
  have hlist : (s.world.lookup cpu tsk).core.reg.taskDataList = s.world.core.reg.taskDataList := by rw [hsame]
  have hother : tsk ≠ t → s.world.core.reg.getTaskData tsk ≠ some id := fun hne hget =>
    hne ((getTaskData_spec hget).2.symm.trans h.tsk)
  refine ⟨h.todo, ?_, ?_, fun hu => ?_, fun hu => ?_, fun c hc => ?_, fun hi c hc => ?_, fun hi hu c hc => ?_⟩
  · show ((s.world.lookup cpu tsk).core.reg.data id).tsk = t
    rw [hsame.data]
    exact h.tsk
  · exact hlist ▸ h.nodup
  · exact (hfound t).trans (h.listed hu)
  · show id ∉ (s.world.lookup cpu tsk).core.reg.taskDataList
    exact hlist ▸ h.unlisted hu
  all_goals
    obtain ⟨htask, hdata⟩ := lookup_caches s.world cpu tsk c
    by_cases hcpu : c = cpu
  · rw [if_pos hcpu] at htask
    refine htask.trans (congrArg some (not_not.mp fun hne => ?_))
    by_cases hlast : s.world.core.reg.lastTask cpu = some tsk
    · rw [if_neg fun h => h.2 hlast] at hdata
      have hcached := h.cached cpu (hcpu ▸ hdata.symm.trans hc)
      exact hne (Option.some.inj (hlast.symm.trans hcached))
    · rw [if_pos ⟨hcpu, hlast⟩] at hdata
      exact hother hne (hdata.symm.trans hc)
  · rw [if_neg fun h => hcpu h.1] at hdata
    rw [if_neg hcpu] at htask
    exact htask.trans (h.cached c (hdata.symm.trans hc))
  · rw [if_pos hcpu] at htask
    show Function.update s.recent cpu (some tsk) c = some t
    rw [hcpu, Function.update_self]
    exact htask.symm.trans hc
  · rw [if_neg hcpu] at htask
    show Function.update s.recent cpu (some tsk) c = some t
    rw [Function.update_of_ne hcpu]
    exact h.recent hi c (htask.symm.trans hc)
  · have hc : Function.update s.recent cpu (some tsk) c = some t := hc
    rw [hcpu, Function.update_self] at hc
    obtain rfl := Option.some.inj hc
    refine hdata.trans ?_
    by_cases hlast : s.world.core.reg.lastTask cpu = some tsk
    · rw [if_neg fun h => h.2 hlast, hcpu]
      exact h.dying hi hu cpu (h.recent hi cpu hlast)
    · rw [if_pos ⟨hcpu, hlast⟩]
      exact h.listed hu
  · have hc : Function.update s.recent cpu (some tsk) c = some t := hc
    rw [Function.update_of_ne hcpu] at hc
    rw [if_neg fun h => hcpu h.1] at hdata
    exact hdata.trans (h.dying hi hu c hc)

/-! ### Steps of the clean -/

/-- A step that changes the record, and neither the list nor the caches. -/
theorem Cleaning.Under.modify (h : s.Under t id) {step : CleanStep} {w' : World} {d : TaskData}
    (htodo : s.todo = step :: step.next) (hreg : w'.core.reg = s.world.core.reg.setData id d) (hd : d.tsk = t)
    (hunlink : CleanStep.removeTaskData ∈ step.next ↔ CleanStep.removeTaskData ∈ step :: step.next)
    (hinv : CleanStep.invalidateTaskDataCache ∉ step :: step.next) : Cleaning.Under t id ⟨w', step.next, s.recent⟩ := by
  rw [← htodo] at hunlink hinv
  have hkeep : d.tsk = (s.world.core.reg.data id).tsk := hd.trans h.tsk.symm
  refine ⟨(List.suffix_cons step step.next).trans (htodo ▸ h.todo), ?_, ?_, fun hu => ?_, fun hu => ?_, ?_, fun _ => ?_,
    fun _ hu => ?_⟩
  · rw [hreg, setData_same]
    exact hd
  · rw [hreg]
    exact h.nodup
  · rw [hreg, getTaskData_setData hkeep]
    exact h.listed (hunlink.mp hu)
  · rw [hreg]
    exact h.unlisted fun hin => hu (hunlink.mpr hin)
  · rw [hreg]
    exact h.cached
  · rw [hreg]
    exact h.recent hinv
  · rw [hreg]
    exact h.dying hinv (hunlink.mp hu)

theorem Cleaning.Under.clean (h : s.Under t id) : (s.happen id .clean).Under t id := by
  obtain ⟨w, todo, recent⟩ := s
  cases todo with
  | nil => exact h
  | cons step todo =>
    obtain rfl := cleanSteps_next h.todo
    have hrest : step.next <:+ cleanSteps := (List.suffix_cons step step.next).trans h.todo
    cases step with
    | invalidateTaskDataCache =>
      have htsk : (w.core.reg.data id).tsk = t := h.tsk
      have hcaches : ∀ cpu, (w.core.reg.invalidateTaskDataCache (w.core.reg.data id).tsk).lastTask cpu ≠ some t ∧
          ((w.core.reg.invalidateTaskDataCache (w.core.reg.data id).tsk).lastTaskData cpu = some id → False) := fun cpu => by
        rw [htsk]
        by_cases hcpu : w.core.reg.lastTask cpu = some t
        · simp [Registry.invalidateTaskDataCache, hcpu]
        · simp only [Registry.invalidateTaskDataCache, hcpu, ↓reduceIte]
          exact ⟨hcpu, fun hdata => hcpu (h.cached cpu hdata)⟩
      exact ⟨hrest, htsk, h.nodup, fun _ => h.listed (by simp [CleanStep.next]), fun hu => absurd (by simp [Cleaning.happen, CleanStep.next]) hu,
        fun cpu hc => ((hcaches cpu).2 hc).elim, fun _ cpu hc => ((hcaches cpu).1 hc).elim, fun _ _ cpu hc => by cases hc⟩
    | cleanSnapshotVmas => exact h.modify rfl rfl h.tsk (by decide) (by decide)
    | freePages => exact h.modify rfl rfl h.tsk (by decide) (by decide)
    | cleanFilesSnapshot => exact h.modify rfl rfl h.tsk (by decide) (by decide)
    | clearSnapshot => exact h.modify rfl rfl h.tsk (by decide) (by decide)
    | removeTaskData =>
      exact ⟨hrest, h.tsk, h.nodup.erase id, fun hu => absurd hu (by simp [Cleaning.happen, CleanStep.next]), fun _ => h.nodup.not_mem_erase, h.cached,
        fun _ => h.recent (by simp [CleanStep.next]), fun _ hu => absurd hu (by simp [Cleaning.happen, CleanStep.next])⟩
    | taskDataFreeCallback =>
      exact ⟨hrest, h.tsk, h.nodup, fun hu => absurd hu (by simp [Cleaning.happen, CleanStep.next]), fun _ => h.unlisted (by simp [CleanStep.next]), h.cached,
        fun _ => h.recent (by simp [CleanStep.next]), fun _ hu => absurd hu (by simp [Cleaning.happen, CleanStep.next])⟩

theorem Cleaning.Under.happen (h : s.Under t id) (e : CleanEvent) : (s.happen id e).Under t id := by
  cases e with
  | clean => exact h.clean
  | lookup cpu tsk => exact h.lookup cpu tsk

/-! ### The record that is dropped -/

theorem unreachable_iff (h : s.Under t id) :
    s.Unreachable id ↔ (.removeTaskData ∉ s.todo → ∀ cpu, s.world.core.reg.lastTaskData cpu ≠ some id) := by
  refine ⟨fun hs => hs.caches, fun hcaches => ⟨hcaches, fun hfree cpu tsk hlook => ?_⟩⟩
  have hunlinked : .removeTaskData ∉ s.todo := fun hin => hfree (by
    obtain ⟨before, after, heq⟩ := List.append_of_mem hin
    have hsuffix : .removeTaskData :: after <:+ cleanSteps := (heq ▸ List.suffix_append before _).trans h.todo
    rw [heq, cleanSteps_next hsuffix]
    simp [CleanStep.next])
  unfold Registry.getTaskDataWithCache at hlook
  split at hlook
  · exact hcaches hunlinked cpu hlook
  · exact h.unlisted hunlinked (getTaskData_spec hlook).1

theorem unreachable_step (h : s.Under t id) (hs : s.Unreachable id) (e : CleanEvent) :
    (s.happen id e).Unreachable id ↔ s.Quiet t e := by
  rw [unreachable_iff (h.happen e)]
  rw [unreachable_iff h] at hs
  cases e with
  | lookup cpu tsk =>
    refine iff_of_true (fun hu c hc => ?_) trivial
    have hdata := (lookup_caches s.world cpu tsk c).2
    split at hdata
    · exact h.unlisted hu (getTaskData_spec (hdata.symm.trans hc)).1
    · exact hs hu c (hdata.symm.trans hc)
  | clean =>
    obtain ⟨w, todo, recent⟩ := s
    cases todo with
    | nil => exact iff_of_true hs fun hhead => by cases hhead
    | cons step todo =>
      obtain rfl := cleanSteps_next h.todo
      by_cases hstep : step = .removeTaskData
      · subst hstep
        constructor
        · intro hall _ cpu hrecent
          exact hall (by simp [Cleaning.happen, CleanStep.next]) cpu (h.dying (by simp [CleanStep.next]) (by simp [CleanStep.next]) cpu hrecent)
        · intro hquiet _ cpu hdata
          exact hquiet rfl cpu (h.recent (by simp [CleanStep.next]) cpu (h.cached cpu hdata))
      · refine iff_of_true (fun hu => ?_) fun hhead => absurd (Option.some.inj hhead) hstep
        cases step with
        | removeTaskData => exact absurd rfl hstep
        | taskDataFreeCallback => exact hs (by simp [CleanStep.next])
        | _ => exact absurd (by simp [Cleaning.happen, CleanStep.next]) hu

theorem Cleaning.Under.start (hc : w.core.reg.Coherent) (hl : w.core.reg.CachesListed)
    (hget : w.core.reg.getTaskData t = some id) : (Cleaning.start w).Under t id where
  todo := List.suffix_refl _
  tsk := (getTaskData_spec hget).2
  nodup := hc.unique.imp fun {i j} hne he => hne (congrArg (fun k => (w.core.reg.data k).tsk) he)
  listed _ := hget
  unlisted hu := absurd (by simp [Cleaning.start, cleanSteps]) hu
  cached cpu hdata := by
    obtain ⟨tsk, hcpu⟩ := Option.ne_none_iff_exists'.mp (hl cpu id hdata).1
    have hown := (hc.cached cpu tsk id hcpu hdata).1
    rw [(getTaskData_spec hget).2] at hown
    rw [hown]
    exact hcpu
  recent hi := absurd (by simp [Cleaning.start, cleanSteps]) hi
  dying hi := absurd (by simp [Cleaning.start, cleanSteps]) hi

/-- However the steps of a clean and lookups on all CPUs interleave, no cache refers to the record once it is unlinked,
    and no lookup gives it once it is freed, if and only if at the unlinking no CPU has looked its task up last since the
    caches were invalidated. -/
theorem clean_unreachable_iff (h₀ : w₀.Loaded) (hrun : Run World.happen (fun _ _ => True) w₀ w)
    (hget : w.core.reg.getTaskData t = some id) (l : List CleanEvent) :
    Throughout (Cleaning.happen id) (Cleaning.Unreachable id) (Cleaning.start w) l ↔
      Along (Cleaning.happen id) (Cleaning.Quiet t) (Cleaning.start w) l := by
  obtain ⟨htold, hlisted⟩ := caches_of_run h₀ hrun
  have hunder := Cleaning.Under.start htold.coherent hlisted hget
  refine throughout_iff (K := Cleaning.Under t id) (fun s e h => h.happen e) (fun s e h hs => unreachable_step h hs e) hunder ?_
  exact (unreachable_iff hunder).mpr fun hu => absurd (by simp [Cleaning.start, cleanSteps]) hu

/-- Task 1 with a snapshot. -/
def snapshotted : World := (World.boot heapMm [1]).happen (.move .calm 1 (.ioctl (.take 0)))

theorem snapshotted_run : Run World.happen (fun _ _ => True) (World.boot heapMm [1]) snapshotted := .step .start trivial

theorem snapshotted_record : snapshotted.core.reg.getTaskData 1 = some 0 := by decide

/-- Two lookups before the unlinking, the second one of another task on the same CPU. -/
theorem clean_unreachable_quiet : Throughout (Cleaning.happen 0) (Cleaning.Unreachable 0) (Cleaning.start snapshotted)
    [.clean, .lookup 0 1, .clean, .lookup 0 7, .clean, .clean, .clean, .clean, .lookup 0 1, .clean] := by
  refine (clean_unreachable_iff (boot_loaded [1] (heapMm_kept [1])) snapshotted_run snapshotted_record _).mpr ?_
  refine ⟨fun h => ?_, trivial, fun h => ?_, trivial, fun h => ?_, fun h => ?_, fun h => ?_, fun _ cpu => ?_, trivial,
    fun h => ?_, trivial⟩
  case refine_6 =>
    show Function.update (Function.update (fun _ => none) 0 (some 1)) 0 (some 7) cpu ≠ some 1
    by_cases hcpu : cpu = 0 <;> simp [hcpu]
  all_goals exact absurd h (by decide)

/-- A fault of the task on CPU 0 between the invalidation and the unlinking: every later fault there gets the record,
    freed or not. -/
theorem clean_unreachable_fails :
    let s := ([.clean, .lookup 0 1, .clean, .clean, .clean, .clean, .clean, .clean] : List CleanEvent).foldl
      (Cleaning.happen 0) (Cleaning.start snapshotted)
    s.todo = [] ∧ 0 ∉ s.world.core.reg.taskDataList ∧ 0 ∉ s.world.core.reg.rcu ∧
      (s.world.core.reg.getTaskDataWithCache 0 1).2 = some 0 ∧ ¬s.Unreachable 0 :=
  ⟨by decide, by decide, by decide, by decide, fun h => h.caches (by decide) 0 (by decide)⟩

end
end AflSnapshot
