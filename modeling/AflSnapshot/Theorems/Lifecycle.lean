import AflSnapshot.Theorems.Departures

/-! # What the module is to its tasks

Seen from the tasks the module is a small machine: how each task stands, and which tasks are running. Every run of the
system is a run of that machine, and every answer of the device is the machine's. -/

namespace AflSnapshot
open Runs

/-- How the tasks stand with the module, which of them are running, and the number of the next new one. -/
structure Lifecycle where
  standing : Nat → Standing
  running : Nat → Bool
  freshTask : Nat

namespace Standing

/-- What the device answers. -/
def answer (env : Env) (s : Standing) : Ioctl → Int
  | .excludeVmrange _ _ | .includeVmrange _ _ => if env.copyFromUser then 0 else -22
  | .take _ | .do_ =>
    match s with
    | .none => if env.kzallocTaskData then 1 else 0
    | .named => 1
    | .taken _ => 0
  | .restore => if s = .none then 1 else 0
  | .clean => 0

/-- The task is gone after the step. -/
def leaves (s : Standing) : Op → Bool
  | .exit => true
  | .exitGroup =>
    match s with
    | .taken config => !hasFlag config aflSnapshotExit
    | _ => true
  | _ => false

end Standing

namespace Lifecycle
variable (s : Lifecycle)

/-- A new task. It stands as the one whose `task_struct` it gets. -/
def start (child : Nat) : Lifecycle :=
  { s with running := Function.update s.running child true, freshTask := max s.freshTask (child + 1) }

def step (env : Env) (tsk : Nat) : Op → Lifecycle
  | .fork => s.start s.freshTask
  | op =>
    let next := { s with standing := Function.update s.standing tsk ((s.standing tsk).after env op) }
    if (s.standing tsk).leaves op then { next with running := Function.update s.running tsk false } else next

def happen : Deed → Lifecycle
  | .move env tsk op => if s.running tsk then s.step env tsk op else s
  | .fork parent child | .clone parent child =>
    if s.running parent ∧ child ≤ s.freshTask ∧ ¬s.running child then s.start child else s
  | .lookup _ _ => s

/-- The answer of the device, if it is asked. -/
def answer : Deed → Option Int
  | .move env tsk (.ioctl cmd) => if s.running tsk then some ((s.standing tsk).answer env cmd) else none
  | _ => none

end Lifecycle

def World.lifecycle (w : World) : Lifecycle := ⟨fun t => w.standing t, fun t => decide (w.Running t), w.freshTask⟩

def World.answer (w : World) : Deed → Option Int
  | .move env tsk (.ioctl cmd) => if w.Running tsk then some (w.ioctl env tsk cmd).2 else none
  | _ => none

section
variable {env : Env} {t u : Nat} {w w' w₀ : World} {s : Lifecycle}

theorem Lifecycle.ext (hstand : ∀ t, w.standing t = s.standing t) (hrun : ∀ t, w.Running t ↔ s.running t = true)
    (hfresh : w.freshTask = s.freshTask) : w.lifecycle = s := by
  obtain ⟨standing, running, freshTask⟩ := s
  unfold World.lifecycle
  congr 1
  · exact funext hstand
  · funext t
    rw [Bool.eq_iff_iff, decide_eq_true_iff]
    exact hrun t

theorem leaves_iff {s : Standing} {op : Op} : s.leaves op = true ↔ op.Departs s := by
  cases op with
  | exitGroup =>
    unfold Standing.leaves Op.Departs Standing.Stays
    cases s <;> simp
  | _ => simp [Standing.leaves, Op.Departs]

/-! ### Answers -/

theorem ioctl_answer (h : w.Told) (cmd : Ioctl) : (w.ioctl env t cmd).2 = (w.standing t).answer env cmd := by
  have hrange : ∀ f, (if env.copyFromUser then (w.addVmrange env t f, (0 : Int)) else (w, -22)).2 =
      if env.copyFromUser then 0 else -22 := fun f => by split <;> rfl
  have htake : ∀ config, (w.takeSnapshot env t config).2 = (w.standing t).answer env (.take config) := fun config => by
    rcases takeSnapshot_cases env t config h.coherent (h.sorted t) with ⟨id, hlive, heq⟩ | ⟨hnone, hfail, heq⟩ |
      ⟨id, d₀, hlive, hT, hone, halloc⟩
    · obtain ⟨hget, hmade⟩ := live_eq_some.mp hlive
      rw [heq, standing_of_record (recordOf_eq hget), TaskData.standing, if_pos hmade]
      rfl
    · rw [heq, standing_of_none (recordOf_none_iff.mpr hnone)]
      simp [Standing.answer, hfail]
    · rw [hone]
      cases hget : w.core.reg.getTaskData t with
      | none =>
        rw [standing_of_none (recordOf_none_iff.mpr hget)]
        simp [Standing.answer, halloc hget]
      | some i =>
        have hmade : (w.core.reg.data i).haveSnapshot = false := Bool.eq_false_iff.mpr fun hm => by
          rw [live_eq_some.mpr ⟨hget, hm⟩] at hlive
          cases hlive
        rw [standing_of_record (recordOf_eq hget), TaskData.standing, hmade]
        rfl
  cases cmd with
  | excludeVmrange start end_ => exact hrange _
  | includeVmrange start end_ => exact hrange _
  | take config => exact htake config
  | do_ => exact htake _
  | restore =>
    show (w.recoverSnapshot env t).2 = if w.standing t = .none then 1 else 0
    unfold World.recoverSnapshot
    cases hget : w.core.reg.getTaskData t with
    | none => exact (if_pos (standing_none_iff.mpr (recordOf_none_iff.mpr hget))).symm
    | some id =>
      refine (if_neg fun hnone => ?_).symm
      rw [standing_none_iff, recordOf_none_iff, hget] at hnone
      cases hnone
  | clean => rfl

theorem answer_lifecycle (h : w.Told) (a : Deed) : w.answer a = w.lifecycle.answer a := by
  cases a with
  | move env t op =>
    cases op with
    | ioctl cmd =>
      unfold World.answer Lifecycle.answer
      simp only [ioctl_answer h, World.lifecycle, decide_eq_true_iff]
    | _ => rfl
  | _ => rfl

/-! ### Steps -/

/-- A task that leaves takes no number of a new one. -/
theorem departs_freshTask {op : Op} (hop : op.Departs (w.standing t)) : (w.step env t op).freshTask = w.freshTask := by
  have hexit : ∀ w : World, (w.doExitHook t).freshTask = w.freshTask := fun w => by
    rcases doExitHook_cases w t with heq | heq <;> rw [heq]
    · rfl
    · exact (cleanSnapshot_tasks w t).freshTask
  have hkilled : ∀ w : World, ((w.recoverThreadsSnapshot t).doExitHook t).freshTask = w.freshTask := fun w =>
    (hexit _).trans (recoverThreads_tasks w t).freshTask
  cases op with
  | exit => exact hexit w
  | exitGroup =>
    show (w.sysExitGroupHook env t).freshTask = _
    rcases sysExitGroupHook_cases env w t with ⟨id, -, -, -, heq⟩ | heq | heq <;> rw [heq]
    · exact (restoreSnapshot_tasks env w t id).freshTask
    · exact (hkilled _).trans (cleanSnapshot_tasks w t).freshTask
    · exact hkilled w
  | _ => exact hop.elim

/-- A task that starts is running, and stands as the one whose `task_struct` it gets. -/
theorem start_lifecycle {child : Nat} (hstand : ∀ t, w'.standing t = w.standing t) (hfresh : w'.freshTask = max w.freshTask (child + 1))
    (hchild : (w'.task child).alive = true) (hothers : ∀ u, u ≠ child → w'.task u = w.task u) (hle : child ≤ w.freshTask) :
    w'.lifecycle = w.lifecycle.start child := by
  refine Lifecycle.ext hstand (fun u => ?_) hfresh
  show w'.Running u ↔ Function.update w.lifecycle.running child true u = true
  unfold World.Running
  rw [hfresh]
  by_cases hu : u = child
  · subst hu
    simp [hchild]
  · rw [Function.update_of_ne hu, hothers u hu]
    have hlt : u < max w.freshTask (child + 1) ↔ u < w.freshTask := by
      rw [lt_max_iff]
      omega
    rw [hlt]
    exact decide_eq_true_iff.symm

@[simp] theorem lifecycle_running : (w.lifecycle.running t = true) = w.Running t := decide_eq_true_eq

variable (env) in
theorem step_lifecycle (h : w.Told) (hrun : w.Running t) (op : Op) : (w.step env t op).lifecycle = w.lifecycle.step env t op := by
  by_cases hfork : op = .fork
  · subst hfork
    refine start_lifecycle (fun u => standing_congr rfl u) ?_ ?_ (fun u hu => Function.update_of_ne hu ..) le_rfl
    · exact (max_eq_right (Nat.le_succ _)).symm
    · show (Function.update w.task w.freshTask _ w.freshTask).alive = true
      rw [Function.update_self]
      exact hrun.2
  obtain ⟨-, hstand⟩ := standing_step env t h op
  have hstand : ∀ u, (w.step env t op).standing u =
      Function.update w.lifecycle.standing t ((w.standing t).after env op) u := fun u => by
    rw [hstand u, Function.update_apply]
    rfl
  rw [Lifecycle.step]
  swap
  · exact hfork
  dsimp only
  by_cases hop : op.Departs (w.standing t)
  · have hdep : w.Departs t (w.step env t op) := step_departs hop
    have hleaves : (w.lifecycle.standing t).leaves op = true := leaves_iff.mpr hop
    rw [if_pos hleaves]
    refine Lifecycle.ext hstand (fun u => ?_) ?_
    · rw [hdep u]
      show _ ↔ Function.update w.lifecycle.running t false u = true
      by_cases hu : u = t
      · simp [hu]
      · simp [hu]
    · exact departs_freshTask hop
  · have hsame : w.SameTasks (w.step env t op) := step_tasks h.toKept hop hfork
    have hleaves : ¬(w.lifecycle.standing t).leaves op = true := fun hl => hop (leaves_iff.mp hl)
    rw [if_neg hleaves]
    refine Lifecycle.ext hstand (fun u => ?_) hsame.freshTask
    rw [hsame.running u]
    exact (iff_of_eq lifecycle_running).symm

/-- Every deed does to the machine what it does to the system. -/
theorem happen_lifecycle (h : w.Told) (a : Deed) : (w.happen a).lifecycle = w.lifecycle.happen a := by
  -- A task that is created by `fork` or as a thread.
  have hstarts : ∀ {parent child : Nat} {w' : World}, w'.core.reg = w.core.reg → w'.freshTask = max w.freshTask (child + 1) →
      ((w.task parent).alive = true → (w'.task child).alive = true) → (∀ u, u ≠ child → w'.task u = w.task u) →
      (if w.Running parent ∧ child ≤ w.freshTask ∧ ¬w.Running child then w' else w).lifecycle =
        w.lifecycle.happen (.fork parent child) := by
    intro parent child w' hreg hfresh hchild hothers
    unfold Lifecycle.happen
    simp only [lifecycle_running]
    have hfree : w.lifecycle.freshTask = w.freshTask := rfl
    rw [hfree]
    split
    · rename_i hstart
      exact start_lifecycle (fun u => standing_congr hreg u) hfresh (hchild hstart.1.2) hothers hstart.2.1
    · rfl
  cases a with
  | move env tsk op =>
    unfold World.happen Lifecycle.happen
    simp only [lifecycle_running]
    split
    · rename_i hrun
      exact step_lifecycle env h hrun op
    · rfl
  | fork parent child =>
    refine hstarts rfl rfl (fun halive => ?_) fun u hu => Function.update_of_ne hu ..
    show (Function.update w.task child _ child).alive = true
    rw [Function.update_self]
    exact halive
  | clone parent child =>
    refine hstarts rfl rfl (fun halive => ?_) fun u hu => Function.update_of_ne hu ..
    show (Function.update w.task child _ child).alive = true
    rw [Function.update_self]
    exact halive
  | lookup cpu tsk =>
    have hsame := lookup_sameRecord h.toKept cpu tsk
    exact Lifecycle.ext (fun u => (hsame u).standing) (fun _ => (iff_of_eq lifecycle_running).symm) rfl

/-- In every run from the loading of the module on, the device answers what the machine does, and the tasks end up as the
    machine says. -/
theorem run_lifecycle (h₀ : w₀.Loaded) (l : List Deed) :
    outputs World.happen World.answer w₀ l = outputs Lifecycle.happen Lifecycle.answer w₀.lifecycle l ∧
      (l.foldl World.happen w₀).lifecycle = l.foldl Lifecycle.happen w₀.lifecycle :=
  outputs_eq (I := World.Told) (fun _ a h => (happen_told h a).1) (fun _ a h => happen_lifecycle h a)
    (fun _ a h => answer_lifecycle h a) h₀.told l

/-- A task names a range, takes with `AFL_SNAPSHOT_EXIT`, exits and asks for a restore; then it cleans and exits. -/
def exitsTwice : List Deed :=
  [.move .calm 1 (.ioctl (.excludeVmrange 4096 8192)), .move .calm 1 (.ioctl .do_), .move .calm 1 .exitGroup,
    .move .calm 1 (.ioctl .restore), .move .calm 1 (.ioctl .clean), .move .calm 1 (.ioctl .restore), .move .calm 1 .exitGroup,
    .move .calm 1 (.ioctl .restore)]

theorem run_lifecycle_exitsTwice : outputs World.happen World.answer (World.boot heapMm [1]) exitsTwice =
    [some 0, some 1, none, some 0, some 0, some 1, none, none] :=
  (run_lifecycle (boot_loaded [1] (heapMm_kept [1])) exitsTwice).1.trans (by decide)

end
end AflSnapshot
