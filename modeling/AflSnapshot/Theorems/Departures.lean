import AflSnapshot.Theorems.Standings

/-! # Tasks that come and go

Which tasks are running after a step, and what of a task that is gone is left in the list of records. An exit drops a
record that had a snapshot, and no other one. -/

namespace AflSnapshot
open Runs

/-- The module has just been loaded. -/
structure World.Loaded (w : World) : Prop extends World.Kept w where
  unlisted : w.core.reg.taskDataList = []
  uncached : ∀ cpu, w.core.reg.lastTaskData cpu = none
  unfreed : w.core.reg.rcu = []

/-- The same tasks are running. -/
structure World.SameTasks (w w' : World) : Prop where
  freshTask : w'.freshTask = w.freshTask
  alive : ∀ u, (w'.task u).alive = (w.task u).alive

section
variable {env : Env} {t u id : Nat} {w w' w₀ w₁ : World}

namespace World.SameTasks

theorem refl (w : World) : w.SameTasks w := ⟨rfl, fun _ => rfl⟩

theorem trans (h₁ : w₀.SameTasks w₁) (h₂ : w₁.SameTasks w) : w₀.SameTasks w :=
  ⟨h₂.freshTask.trans h₁.freshTask, fun u => (h₂.alive u).trans (h₁.alive u)⟩

theorem of_task (hfresh : w'.freshTask = w.freshTask) (htask : w'.task = w.task) : w.SameTasks w' :=
  ⟨hfresh, fun u => by rw [htask]⟩

theorem setTask (w : World) {u : Nat} {task : Task} (h : task.alive = (w.task u).alive) : w.SameTasks (w.setTask u task) where
  freshTask := rfl
  alive v := by
    show (Function.update w.task u task v).alive = _
    by_cases hv : v = u
    · rw [hv, Function.update_self, h]
    · rw [Function.update_of_ne hv]

theorem mapCore (w : World) (f : Core → Core) : w.SameTasks (w.mapCore f) := ⟨rfl, fun _ => rfl⟩

theorem running (h : w.SameTasks w') (u : Nat) : w'.Running u ↔ w.Running u := by
  unfold World.Running
  rw [h.freshTask, h.alive]

end World.SameTasks

/-! ### Commands -/

theorem recoverThreads_tasks (w : World) (t : Nat) : w.SameTasks (w.recoverThreadsSnapshot t) := by
  unfold World.recoverThreadsSnapshot
  generalize World.tids w.task (w.threads (w.task t).groupLeader) = l
  induction l generalizing w with
  | nil => exact .refl w
  | cons u l ih =>
    rw [List.foldl_cons]
    refine World.SameTasks.trans ?_ (ih _)
    split
    · exact .refl w
    · exact .setTask w rfl

theorem replaceFiles_tasks (t old restored : Nat) (l : List Nat) (w : World) :
    w.SameTasks (l.foldl (World.replaceFiles t old restored) w) := by
  induction l generalizing w with
  | nil => exact .refl w
  | cons u l ih =>
    rw [List.foldl_cons]
    refine World.SameTasks.trans ?_ (ih _)
    unfold World.replaceFiles
    split
    · have hset : w.SameTasks (w.setTask u { w.task u with files := restored }) := .setTask w rfl
      exact hset.trans (.of_task rfl rfl)
    · exact .refl w

theorem recoverFiles_tasks (env : Env) (w : World) (t id : Nat) : w.SameTasks (w.recoverFilesSnapshot env t id).1 := by
  unfold World.recoverFilesSnapshot
  dsimp only
  split
  swap
  · exact .refl w
  split
  · split
    · exact .of_task rfl rfl
    · rename_i fs restored _
      split
      · generalize (iterateFd _ _ _ fs).1 = fs'
        have hfs : w.SameTasks { w with fs := fs' } := .of_task rfl rfl
        exact hfs.trans (replaceFiles_tasks t _ _ _ _)
      · exact .of_task rfl rfl
  · exact .refl w

theorem beforeFiles_tasks (env : Env) (w : World) (t id : Nat) : w.SameTasks (w.beforeFiles env t id) := by
  have hstate : (w.recoverThreadsSnapshot t).SameTasks ((w.recoverThreadsSnapshot t).recoverState env t id) := by
    unfold World.recoverState
    dsimp only
    refine World.SameTasks.trans ?_ (.mapCore _ _)
    split
    · exact .setTask _ rfl
    · exact .refl _
  exact ((recoverThreads_tasks w t).trans hstate).trans (.mapCore _ _)

theorem restoreSnapshot_tasks (env : Env) (w : World) (t id : Nat) : w.SameTasks (w.restoreSnapshot env t id) :=
  (beforeFiles_tasks env w t id).trans (recoverFiles_tasks env _ t id)

theorem cleanSnapshot_tasks (w : World) (t : Nat) : w.SameTasks (w.cleanSnapshot t) := by
  unfold World.cleanSnapshot
  split <;> exact .of_task rfl rfl

theorem takeSnapshot_tasks (h : w.Kept) (config : Nat) : w.SameTasks (w.takeSnapshot env t config).1 := by
  rcases takeSnapshot_cases env t config h.coherent (h.sorted t) with ⟨id, -, heq⟩ | ⟨-, -, heq⟩ | ⟨id, d₀, -, hT, -⟩
  · rw [heq]
    exact .refl w
  · rw [heq]
    exact .of_task rfl rfl
  · exact .of_task hT.freshTask hT.task

/-! ### Exits -/

/-- The task `t` is gone, all others are as before. -/
def World.Departs (t : Nat) (w w' : World) : Prop := ∀ u, w'.Running u ↔ w.Running u ∧ u ≠ t

theorem World.SameTasks.departs (h : w.SameTasks w₁) (hd : w₁.Departs t w') : w.Departs t w' := fun u => by
  rw [hd u, h.running]

theorem doExitOrig_departs (w : World) (t : Nat) : w.Departs t (w.doExitOrig t) := fun u => by
  show (u < w.freshTask ∧ (Function.update w.task t { w.task t with alive := false } u).alive = true) ↔ _
  unfold World.Running
  by_cases hu : u = t
  · simp [hu]
  · simp [hu]

theorem doExitHook_departs (w : World) (t : Nat) : w.Departs t (w.doExitHook t) := by
  rcases doExitHook_cases w t with heq | heq <;> rw [heq]
  · exact doExitOrig_departs w t
  · exact (cleanSnapshot_tasks w t).departs (doExitOrig_departs _ t)

/-- The task goes on after its `exit_group`: its snapshot is restored on exit. -/
def Standing.Stays (s : Standing) : Prop := ∃ config, s = .taken config ∧ hasFlag config aflSnapshotExit = true

theorem sysExitGroupHook_departs (hleaves : ¬(w.standing t).Stays) : w.Departs t (w.sysExitGroupHook env t) := by
  have hexit : ∀ w : World, w.Departs t ((w.recoverThreadsSnapshot t).doExitHook t) := fun w =>
    (recoverThreads_tasks w t).departs (doExitHook_departs _ t)
  rcases sysExitGroupHook_cases env w t with ⟨id, hget, hflag, hmade, -⟩ | heq | heq
  · refine absurd ⟨(w.core.reg.data id).config, ?_, hflag⟩ hleaves
    rw [standing_of_record (recordOf_eq hget), TaskData.standing, if_pos hmade]
  · rw [heq]
    exact (cleanSnapshot_tasks w t).departs (hexit _)
  · rw [heq]
    exact hexit w

/-- The task is gone after the step. -/
def Op.Departs (s : Standing) : Op → Prop
  | .exit => True
  | .exitGroup => ¬s.Stays
  | _ => False

theorem step_departs {op : Op} (hop : op.Departs (w.standing t)) : w.Departs t (w.step env t op) := by
  cases op with
  | exit => exact doExitHook_departs w t
  | exitGroup => exact sysExitGroupHook_departs hop
  | _ => exact hop.elim

variable (env) in
/-- The task that an `exit_group` leaves is restored. -/
theorem sysExitGroupHook_stays (hstays : (w.standing t).Stays) :
    ∃ id, w.sysExitGroupHook env t = w.restoreSnapshot env t id := by
  obtain ⟨config, hstand, hflag⟩ := hstays
  cases hget : w.core.reg.getTaskData t with
  | none =>
    rw [standing_of_none (recordOf_none_iff.mpr hget)] at hstand
    cases hstand
  | some id =>
    rw [standing_of_record (recordOf_eq hget), TaskData.standing] at hstand
    cases hmade : (w.core.reg.data id).haveSnapshot with
    | false =>
      rw [hmade] at hstand
      cases hstand
    | true =>
      rw [hmade] at hstand
      obtain rfl : (w.core.reg.data id).config = config := by simpa using hstand
      refine ⟨id, ?_⟩
      unfold World.sysExitGroupHook World.exitSnapshot
      simp only [hget, hflag, hmade, Bool.and_self, ↓reduceIte]

/-- After any other step but a `fork` the same tasks are running. -/
theorem step_tasks (h : w.Kept) {op : Op} (hop : ¬op.Departs (w.standing t)) (hfork : op ≠ .fork) :
    w.SameTasks (w.step env t op) := by
  have hrange : ∀ f, w.SameTasks (if env.copyFromUser then (w.addVmrange env t f, (0 : Int)) else (w, -22)).1 := fun f => by
    split
    · have hgiven := addVmrange_given env t h.coherent f
      exact .of_task hgiven.freshTask hgiven.task
    · exact .refl w
  cases op with
  | fork => exact absurd rfl hfork
  | ioctl cmd =>
    cases cmd with
    | excludeVmrange start end_ => exact hrange _
    | includeVmrange start end_ => exact hrange _
    | take config => exact takeSnapshot_tasks h config
    | do_ => exact takeSnapshot_tasks h _
    | restore =>
      show w.SameTasks (w.recoverSnapshot env t).1
      unfold World.recoverSnapshot
      split
      · exact .refl w
      · exact restoreSnapshot_tasks env w t _
    | clean => exact cleanSnapshot_tasks w t
  | exit => exact absurd trivial hop
  | exitGroup =>
    obtain ⟨id, heq⟩ := sysExitGroupHook_stays env (not_not.mp hop)
    show w.SameTasks (w.sysExitGroupHook env t)
    rw [heq]
    exact restoreSnapshot_tasks env w t id
  | read _ | write _ _ | discard _ | munmap _ _ | brk _ | mprotect _ _ _ | mmap _ _ _ _ _ | movePages _ _ _
  | swapIn _ _ _ | file _ => exact .of_task rfl rfl

theorem step_running (h : w.Kept) {op : Op} (hop : ¬op.Departs (w.standing t)) (hu : w.Running u) :
    (w.step env t op).Running u := by
  by_cases hfork : op = .fork
  · subst hfork
    refine ⟨Nat.lt_succ_of_lt hu.1, ?_⟩
    show (Function.update w.task w.freshTask _ u).alive = true
    rw [Function.update_of_ne hu.1.ne]
    exact hu.2
  · exact ((step_tasks h hop hfork).running u).mpr hu

/-! ### What happens -/

theorem World.Told.congr (h : w.Told) (hreg : w'.core.reg = w.core.reg) (hkept : w'.Kept) : w'.Told := by
  refine ⟨hkept, fun t d hd => h.had t d ?_⟩
  unfold World.recordOf at hd ⊢
  rwa [hreg] at hd

theorem standing_congr (hreg : w'.core.reg = w.core.reg) (t : Nat) : w'.standing t = w.standing t := by
  unfold World.standing World.recordOf
  rw [hreg]

theorem World.Kept.forkAt (h : w.Kept) (parent child : Nat) : (w.forkAt parent child).Kept := by
  have hfresh : World.Kept { w with freshTask := child } := ⟨h.coherent, h.mapped, h.records, h.tables⟩
  have hfork := hfresh.fork parent
  exact ⟨hfork.coherent, hfork.mapped, hfork.records, hfork.tables⟩

theorem World.Kept.cloneAt (h : w.Kept) (parent child : Nat) : (w.cloneAt parent child).Kept := by
  refine ⟨h.coherent, h.mapped, h.records, fun u => ?_⟩
  show (Function.update w.task child _ u).files < w.fs.fresh
  by_cases hu : u = child
  · rw [hu, Function.update_self]
    exact h.tables parent
  · rw [Function.update_of_ne hu]
    exact h.tables u

theorem lookup_sameRecord (h : w.Kept) (cpu tsk t : Nat) : w.core.reg.SameRecord t (w.lookup cpu tsk).core.reg := by
  obtain ⟨hsame, -, -⟩ := withCache_spec h.coherent cpu tsk
  have hlookup : w.core.reg.SameButCaches (w.lookup cpu tsk).core.reg := hsame
  refine ⟨?_, fun id _ => ?_⟩
  · rw [hlookup]
    rfl
  · rw [hlookup.data]
    exact .refl _

theorem World.Kept.lookup (h : w.Kept) (cpu tsk : Nat) : (w.lookup cpu tsk).Kept := by
  refine ⟨(withCache_spec h.coherent cpu tsk).2.1, h.mapped, fun id => ?_, h.tables⟩
  show ((w.core.reg.getTaskDataWithCache cpu tsk).1.data id).Kept
  rw [(withCache_spec h.coherent cpu tsk).1.data]
  exact h.records id

theorem World.Kept.happen (h : w.Kept) (a : Deed) : (w.happen a).Kept := by
  cases a with
  | move env tsk op =>
    unfold World.happen
    dsimp only
    split
    · exact (h.step env tsk op).1
    · exact h
  | fork parent child =>
    unfold World.happen
    dsimp only
    split
    · exact h.forkAt parent child
    · exact h
  | clone parent child =>
    unfold World.happen
    dsimp only
    split
    · exact h.cloneAt parent child
    · exact h
  | lookup cpu tsk => exact h.lookup cpu tsk

/-- How a task stands after a deed. -/
def Deed.standing (w : World) (t : Nat) : Deed → Standing
  | .move env tsk op => if w.Running tsk ∧ t = tsk then (w.standing tsk).after env op else w.standing t
  | _ => w.standing t

theorem happen_told (h : w.Told) (a : Deed) : (w.happen a).Told ∧ ∀ t, (w.happen a).standing t = a.standing w t := by
  cases a with
  | move env tsk op =>
    unfold World.happen Deed.standing
    dsimp only
    by_cases hrun : w.Running tsk
    · obtain ⟨htold, hstand⟩ := standing_step env tsk h op
      simp only [hrun, ↓reduceIte, true_and]
      exact ⟨htold, hstand⟩
    · simp only [hrun, ↓reduceIte, false_and]
      exact ⟨h, fun _ => trivial⟩
  | fork parent child =>
    unfold World.happen Deed.standing
    dsimp only
    split
    · exact ⟨h.congr rfl (h.toKept.forkAt parent child), fun t => standing_congr rfl t⟩
    · exact ⟨h, fun _ => rfl⟩
  | clone parent child =>
    unfold World.happen Deed.standing
    dsimp only
    split
    · exact ⟨h.congr rfl (h.toKept.cloneAt parent child), fun t => standing_congr rfl t⟩
    · exact ⟨h, fun _ => rfl⟩
  | lookup cpu tsk =>
    have hsame := lookup_sameRecord h.toKept cpu tsk
    exact ⟨⟨h.toKept.lookup cpu tsk, fun t d hd => (hsame t).had (h.had t) hd⟩, fun t => (hsame t).standing⟩

theorem World.Loaded.told (h : w.Loaded) : w.Told := by
  refine ⟨h.toKept, fun t d hd => ?_⟩
  have hnone : w.recordOf t = none := by simp [World.recordOf, Registry.getTaskData, h.unlisted]
  rw [hnone] at hd
  cases hd

theorem World.Loaded.standing (h : w.Loaded) (t : Nat) : w.standing t = .none :=
  standing_of_none (by simp [World.recordOf, Registry.getTaskData, h.unlisted])

theorem boot_loaded {mm : Mm} (threads : List Nat) (h : (World.boot mm threads).Kept) : (World.boot mm threads).Loaded :=
  ⟨h, rfl, fun _ => rfl, rfl⟩

/-! ### Records of tasks that are gone -/

/-- The list has one record for a task at most, and only for tasks that are running; any other address is that of a task
    without ranges and without a snapshot. -/
structure World.Registered (w : World) : Prop where
  unique : w.core.reg.taskDataList.Pairwise fun i j => (w.core.reg.data i).tsk ≠ (w.core.reg.data j).tsk
  running : ∀ id ∈ w.core.reg.taskDataList, w.Running (w.core.reg.data id).tsk
  blank : ∀ t, ¬w.Running t → w.recordFor t = .new t

theorem registered_iff_standing (h : w.Kept) : w.Registered ↔ ∀ t, ¬w.Running t → w.standing t = .none := by
  refine ⟨fun hr t ht => ?_, fun hs => ⟨h.coherent.unique, fun id hid => ?_, fun t ht => ?_⟩⟩
  · refine standing_none_iff.mpr (recordOf_none_iff.mpr ?_)
    cases hget : w.core.reg.getTaskData t with
    | none => rfl
    | some id =>
      obtain ⟨hin, htsk⟩ := getTaskData_spec hget
      exact absurd (htsk ▸ hr.running id hin) ht
  · by_contra hgone
    have hnone := recordOf_none_iff.mp (standing_none_iff.mp (hs _ hgone))
    rw [getTaskData_of_mem h.coherent hid] at hnone
    cases hnone
  · unfold World.recordFor
    rw [standing_none_iff.mp (hs t ht)]
    rfl

/-- A task that exits has had a snapshot if it has a record. -/
def World.ExitsCleaned (w : World) : Deed → Prop
  | .move _ tsk .exit | .move _ tsk .exitGroup => w.Running tsk →
    ∀ id, w.core.reg.getTaskData tsk = some id → (w.core.reg.data id).hadSnapshot = true
  | _ => True

/-- A new task has no ranges and no snapshot. -/
def World.StartsBlank (w : World) (a : Deed) : Prop :=
  match a with
  | .fork parent child | .clone parent child =>
    w.Running parent → child ≤ w.freshTask → ¬w.Running child → (w.happen a).recordFor child = .new child
  | _ => True

theorem had_iff_standing (h : w.Told) (t : Nat) :
    (∀ id, w.core.reg.getTaskData t = some id → (w.core.reg.data id).hadSnapshot = true) ↔ w.standing t ≠ .named := by
  cases hget : w.core.reg.getTaskData t with
  | none =>
    rw [standing_of_none (recordOf_none_iff.mpr hget)]
    simp
  | some id =>
    have hhad := h.had t _ (recordOf_eq hget)
    rw [standing_of_record (recordOf_eq hget), TaskData.standing]
    constructor
    · intro hrec hstand
      rw [← hhad, hrec id rfl] at hstand
      cases hstand
    · intro hne i hi
      obtain rfl := Option.some.inj hi
      rw [hhad]
      cases hmade : (w.core.reg.data id).haveSnapshot with
      | true => rfl
      | false =>
        rw [hmade] at hne
        exact absurd rfl hne


variable (env) in
theorem after_departs {s : Standing} {op : Op} (hop : op.Departs s) : s.after env op = .none ↔ s ≠ .named := by
  cases op with
  | exit => cases s <;> simp [Standing.after, Standing.exit]
  | exitGroup =>
    cases s with
    | none => simp [Standing.after, Standing.exitGroup]
    | named => simp [Standing.after, Standing.exitGroup]
    | taken config =>
      have hflag : hasFlag config aflSnapshotExit ≠ true := fun hflag => hop ⟨config, rfl, hflag⟩
      simp [Standing.after, Standing.exitGroup, hflag]
  | _ => exact hop.elim

theorem exitsCleaned_move (h : w.Told) (op : Op) : w.ExitsCleaned (.move env t op) ↔
    (w.Running t → op.Departs (w.standing t) → w.standing t ≠ .named) := by
  cases op with
  | exit =>
    rw [← had_iff_standing h]
    exact ⟨fun hc hrun _ => hc hrun, fun hc hrun => hc hrun trivial⟩
  | exitGroup =>
    refine ⟨fun hc hrun _ => (had_iff_standing h t).mp (hc hrun), fun hc hrun => (had_iff_standing h t).mpr fun hnamed => ?_⟩
    refine hc hrun ?_ hnamed
    rintro ⟨config, htaken, -⟩
    rw [hnamed] at htaken
    cases htaken
  | _ => exact iff_of_true trivial fun _ hop => hop.elim

/-- What happens keeps the list to running tasks if and only if no task exits with a record that never had a snapshot. -/
theorem registered_step (h : w.Told) (hw : w.Registered) (a : Deed) : (w.happen a).Registered ↔ w.ExitsCleaned a := by
  obtain ⟨htold, hstand⟩ := happen_told h a
  have hnone := (registered_iff_standing h.toKept).mp hw
  rw [registered_iff_standing htold.toKept]
  -- Where no task leaves, the tasks that are not running were not before, and stand as before.
  have hkeeps : (∀ u, w.Running u → (w.happen a).Running u) → (∀ t, ¬w.Running t → a.standing w t = w.standing t) →
      ∀ t, ¬(w.happen a).Running t → (w.happen a).standing t = .none := by
    intro hrun hsame t ht
    have hgone : ¬w.Running t := fun h => ht (hrun t h)
    rw [hstand, hsame t hgone]
    exact hnone t hgone
  have hstarted : ∀ child u, w.Running u → ¬w.Running child → ∀ w' : World, w'.freshTask = max w.freshTask (child + 1) →
      (∀ v, v ≠ child → w'.task v = w.task v) → w'.Running u := by
    intro child u hu hchild w' hfresh htask
    refine ⟨hfresh ▸ lt_of_lt_of_le hu.1 (le_max_left ..), ?_⟩
    rw [htask u fun he => hchild (he ▸ hu)]
    exact hu.2
  cases a with
  | move env tsk op =>
    rw [exitsCleaned_move h]
    by_cases hrun : w.Running tsk
    swap
    · have hidle : w.happen (.move env tsk op) = w := if_neg hrun
      rw [hidle]
      exact iff_of_true hnone fun h => absurd h hrun
    have hdoes : w.happen (.move env tsk op) = w.step env tsk op := if_pos hrun
    have hothers : ∀ t, t ≠ tsk → (Deed.move env tsk op).standing w t = w.standing t := fun t ht =>
      if_neg fun he => ht he.2
    by_cases hop : op.Departs (w.standing tsk)
    · have hdep : w.Departs tsk (w.happen (.move env tsk op)) := hdoes ▸ step_departs hop
      have hown : (Deed.move env tsk op).standing w tsk = (w.standing tsk).after env op := if_pos ⟨hrun, rfl⟩
      have hclean := after_departs env hop
      constructor
      · intro hall _ _
        have hgone := hall tsk fun hr => ((hdep tsk).mp hr).2 rfl
        rw [hstand, hown] at hgone
        exact hclean.mp hgone
      · intro hc t ht
        rw [hstand]
        by_cases he : t = tsk
        · rw [he, hown]
          exact hclean.mpr (hc hrun hop)
        · rw [hothers t he]
          exact hnone t fun hr => ht ((hdep t).mpr ⟨hr, he⟩)
    · refine iff_of_true (hkeeps (fun u hu => hdoes ▸ step_running h.toKept hop hu) fun t ht => ?_) fun _ hd => absurd hd hop
      exact hothers t fun he => ht (he ▸ hrun)
  | fork parent child =>
    refine iff_of_true (hkeeps (fun u hu => ?_) fun _ _ => rfl) trivial
    unfold World.happen
    dsimp only
    split
    · rename_i hstart
      exact hstarted child u hu hstart.2.2 _ rfl fun v hv => Function.update_of_ne hv ..
    · exact hu
  | clone parent child =>
    refine iff_of_true (hkeeps (fun u hu => ?_) fun _ _ => rfl) trivial
    unfold World.happen
    dsimp only
    split
    · rename_i hstart
      exact hstarted child u hu hstart.2.2 _ rfl fun v hv => Function.update_of_ne hv ..
    · exact hu
  | lookup cpu tsk => exact iff_of_true (hkeeps (fun _ hu => hu) fun _ _ => rfl) trivial

/-- A task that gets the address of one that is gone has no record. -/
theorem World.Registered.startsBlank (h : w.Told) (hw : w.Registered) (a : Deed) : w.StartsBlank a := by
  have hnew : ∀ child, ¬w.Running child → a.standing w child = w.standing child →
      (w.happen a).recordFor child = .new child := by
    intro child hgone hsame
    have hstand := (happen_told h a).2 child
    rw [hsame, (registered_iff_standing h.toKept).mp hw child hgone] at hstand
    unfold World.recordFor
    rw [standing_none_iff.mp hstand]
    rfl
  unfold World.StartsBlank
  split
  · exact fun _ _ hgone => hnew _ hgone rfl
  · exact fun _ _ hgone => hnew _ hgone rfl
  · trivial

theorem startsBlank_along {l : List Deed} (h : w.Told) (hl : Throughout World.happen World.Registered w l) :
    Along World.happen World.StartsBlank w l := by
  induction l generalizing w with
  | nil => trivial
  | cons a l ih => exact ⟨hl.1.startsBlank h a, ih (happen_told h a).1 hl.2⟩

theorem World.Loaded.registered (h : w.Loaded) : w.Registered :=
  (registered_iff_standing h.toKept).mpr fun t _ => h.standing t

/-- In every run the list has records of running tasks only, at most one for each, and new tasks start without ranges
    and snapshots, if and only if no task exits with a record that never had a snapshot. -/
theorem registered_iff (h₀ : w₀.Loaded) (l : List Deed) :
    Throughout World.happen World.Registered w₀ l ∧ Along World.happen World.StartsBlank w₀ l ↔
      Along World.happen World.ExitsCleaned w₀ l := by
  have hiff := throughout_iff (I := World.Registered) (K := World.Told) (fun w a h => (happen_told h a).1)
    (fun w a h hw => registered_step h hw a) (l := l) h₀.told h₀.registered
  rw [← hiff]
  exact ⟨And.left, fun h => ⟨h, startsBlank_along h₀.told h⟩⟩

/-- A task names a range, takes and exits. -/
def takesAndExits : List Deed :=
  [.move .calm 1 (.ioctl (.excludeVmrange 4096 8192)), .move .calm 1 (.ioctl (.take 0)), .move .calm 1 .exit, .fork 0 1]

theorem registered_takesAndExits : Throughout World.happen World.Registered (World.boot heapMm [1]) takesAndExits ∧
    Along World.happen World.StartsBlank (World.boot heapMm [1]) takesAndExits := by
  refine (registered_iff (boot_loaded [1] (heapMm_kept [1])) _).mpr ⟨trivial, trivial, fun _ id hid => ?_, trivial, trivial⟩
  obtain rfl : 0 = id := Option.some.inj (Eq.trans (by decide) hid)
  decide

/-- A task that names a range and exits leaves its record to the next task at its address. -/
theorem registered_fails :
    let w := ((World.boot heapMm [1]).happen (.move .calm 1 (.ioctl (.excludeVmrange 4096 8192)))).happen (.move .calm 1 .exit)
    w.core.reg.taskDataList = [0] ∧ (w.core.reg.data 0).tsk = 1 ∧ ¬w.Running 1 ∧ ¬w.Registered ∧
      (w.happen (.fork 0 1)).Running 1 ∧ intersectBlocklist ((w.happen (.fork 0 1)).recordFor 1) 4096 8192 ≠ none ∧
      ¬w.StartsBlank (.fork 0 1) := by
  have hblank : ∀ d : TaskData, intersectBlocklist d 4096 8192 ≠ none → ∀ t, d ≠ .new t := fun d hd t he => by
    rw [he] at hd
    exact hd rfl
  refine ⟨by decide, by decide, by decide, fun h => ?_, by decide, by decide, fun h => ?_⟩
  · exact absurd (h.running 0 (by decide)) (by decide)
  · exact hblank _ (by decide) 1 (h (by decide) (by decide) (by decide))

end
end AflSnapshot
