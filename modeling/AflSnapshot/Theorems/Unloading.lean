import AflSnapshot.Theorems.Departures

/-! # Unloading the module

`mod_exit` removes the hooks and the device, and leaves the records alone: those of tasks that have not cleaned, and those
that wait for their grace period. What the tasks have done so far tells which these are. -/

namespace AflSnapshot
open Runs

/-- The step drops the record of its task. -/
def Standing.Drops (env : Env) (s : Standing) (op : Op) : Prop := s ≠ .none ∧ s.after env op = .none

instance {env : Env} {s : Standing} {op : Op} : Decidable (s.Drops env op) := inferInstanceAs (Decidable (_ ∧ _))

section
variable {env : Env} {t id config : Nat} {w w' w₀ : World}

/-! ### Records that are to be freed -/

theorem rcu_ensure (w : World) : (w.ensureTaskData env t).1.core.reg.rcu = w.core.reg.rcu := by
  unfold World.ensureTaskData Registry.ensureTaskData
  cases w.core.reg.getTaskData t with
  | some id => rfl
  | none => cases env.kzallocTaskData <;> rfl

theorem rcu_addVmrange (f : RangeLists → RangeLists) : (w.addVmrange env t f).core.reg.rcu = w.core.reg.rcu := by
  have hens : (w.ensureTaskData env t).1.core.reg.rcu = w.core.reg.rcu := rcu_ensure w
  unfold World.addVmrange
  rcases hr : w.ensureTaskData env t with ⟨w₁, o⟩
  rw [hr] at hens
  cases o with
  | none =>
    dsimp only
    split <;> exact hens
  | some id =>
    dsimp only
    split <;> exact hens

theorem rcu_take : (w.takeSnapshot env t config).1.core.reg.rcu = w.core.reg.rcu := by
  have hens : (w.ensureTaskData env t).1.core.reg.rcu = w.core.reg.rcu := rcu_ensure w
  unfold World.takeSnapshot
  rcases hr : w.ensureTaskData env t with ⟨w₁, o⟩
  rw [hr] at hens
  cases o with
  | none => exact hens
  | some id =>
    dsimp only
    split <;> exact hens

/-- A clean of a task with a record hands it to the RCU. -/
theorem rcu_clean (w : World) (t : Nat) :
    (w.cleanSnapshot t).core.reg.rcu.length = w.core.reg.rcu.length + if w.standing t ≠ .none then 1 else 0 := by
  cases hget : w.core.reg.getTaskData t with
  | none =>
    have hstand := standing_of_none (recordOf_none_iff.mpr hget)
    unfold World.cleanSnapshot
    rw [hget, hstand]
    rfl
  | some id =>
    have hstand : w.standing t ≠ .none := fun h => by
      rw [recordOf_none_iff.mp (standing_none_iff.mp h)] at hget
      cases hget
    obtain ⟨d, -, heq⟩ := cleanSnapshot_reg hget
    rw [heq, if_pos hstand]
    exact List.length_append

variable (env) in
theorem rcu_exit (h : w.Told) : (w.doExitHook t).core.reg.rcu.length =
    w.core.reg.rcu.length + if (w.standing t).Drops env .exit then 1 else 0 := by
  have hclean := rcu_clean w t
  unfold World.doExitHook
  cases hget : w.core.reg.getTaskData t with
  | none =>
    rw [standing_of_none (recordOf_none_iff.mpr hget)]
    rfl
  | some id =>
    have hhad := h.had t _ (recordOf_eq hget)
    rw [standing_of_record (recordOf_eq hget)] at hclean ⊢
    unfold TaskData.standing at hclean ⊢
    dsimp only
    rw [hhad]
    cases hmade : (w.core.reg.data id).haveSnapshot with
    | true =>
      rw [hmade] at hclean
      exact hclean
    | false => rfl

theorem rcu_exitGroup (h : w.Told) : (w.sysExitGroupHook env t).core.reg.rcu.length =
    w.core.reg.rcu.length + if (w.standing t).Drops env .exitGroup then 1 else 0 := by
  have hexit : ∀ w : World, w.Told → ((w.recoverThreadsSnapshot t).doExitHook t).core.reg.rcu.length =
      w.core.reg.rcu.length + if (w.standing t).Drops env .exit then 1 else 0 := fun w h => by
    rw [rcu_exit env (h.recoverThreads t), recoverThreads_standing, (recoverThreads_same w t).core]
  have hclean := rcu_clean w t
  unfold World.sysExitGroupHook World.exitSnapshot
  cases hget : w.core.reg.getTaskData t with
  | none =>
    have hdrop := hexit w h
    rw [standing_of_none (recordOf_none_iff.mpr hget)] at hdrop ⊢
    exact hdrop
  | some id =>
    have hhad := h.had t _ (recordOf_eq hget)
    have hstand := standing_of_record (recordOf_eq hget)
    unfold TaskData.standing at hstand
    dsimp only
    rw [hhad]
    cases hmade : (w.core.reg.data id).haveSnapshot with
    | false =>
      rw [hmade] at hstand
      have hdrop := hexit w h
      rw [hstand] at hdrop ⊢
      simp only [Bool.and_false, Bool.false_eq_true, ↓reduceIte]
      exact hdrop
    | true =>
      rw [hmade, if_pos rfl] at hstand
      by_cases hflag : hasFlag (w.core.reg.data id).config aflSnapshotExit = true
      · have hkeep : ¬(w.standing t).Drops env .exitGroup := fun hd => by
          rw [hstand] at hd
          simp [Standing.Drops, Standing.after, Standing.exitGroup, hflag] at hd
        rw [hflag, if_neg hkeep]
        exact congrArg List.length (h.toKept.restoreSnapshot env t id).steady.rcu
      · have hdrop : (w.standing t).Drops env .exitGroup := by
          rw [hstand]
          simp [Standing.Drops, Standing.after, Standing.exitGroup, hflag]
        have hnone := (stands_clean h.toKept t).standing
        have htwice := hexit _ (h.cleaned t)
        rw [hnone, hclean, if_pos hdrop.1] at htwice
        rw [if_pos hdrop]
        simp only [hflag, Bool.false_and, Bool.false_eq_true, ↓reduceIte]
        exact htwice

variable (env t) in
/-- A step hands a record to the RCU if and only if it drops the record of its task. -/
theorem rcu_step (h : w.Told) (op : Op) : (w.step env t op).core.reg.rcu.length =
    w.core.reg.rcu.length + if (w.standing t).Drops env op then 1 else 0 := by
  have hsame : ∀ {w' : World}, w'.core.reg.rcu = w.core.reg.rcu → ¬(w.standing t).Drops env op →
      w'.core.reg.rcu.length = w.core.reg.rcu.length + if (w.standing t).Drops env op then 1 else 0 := by
    intro w' hrcu hkeep
    rw [hrcu, if_neg hkeep]
    rfl
  have hsteady : ∀ {w' : World}, w.core.Steady env w'.core → (w.standing t).after env op = w.standing t →
      w'.core.reg.rcu.length = w.core.reg.rcu.length + if (w.standing t).Drops env op then 1 else 0 := fun hs hafter =>
    hsame hs.rcu fun hd => hd.1 (hafter.symm.trans hd.2)
  have hrange : ∀ f, (w.standing t).after env op =
      (if env.copyFromUser then (w.standing t).ensure env.kzallocTaskData else w.standing t) →
      (if env.copyFromUser then (w.addVmrange env t f, (0 : Int)) else (w, -22)).1.core.reg.rcu.length =
        w.core.reg.rcu.length + if (w.standing t).Drops env op then 1 else 0 := fun f hafter => by
    refine hsame ?_ fun hd => ?_
    · split
      · exact rcu_addVmrange f
      · rfl
    · have hnone := hafter.symm.trans hd.2
      split at hnone
      · cases hs : w.standing t <;> rw [hs] at hnone hd
        · exact hd.1 rfl
        · cases hnone
        · cases hnone
      · exact hd.1 hnone
  have htake : ∀ config, (w.standing t).after env op = (w.standing t).take env.kzallocTaskData config →
      (w.takeSnapshot env t config).1.core.reg.rcu.length =
        w.core.reg.rcu.length + if (w.standing t).Drops env op then 1 else 0 := fun config hafter => by
    refine hsame rcu_take fun hd => ?_
    have hnone := hafter.symm.trans hd.2
    cases hs : w.standing t <;> rw [hs] at hnone hd
    · exact hd.1 rfl
    · cases hnone
    · cases hnone
  have hc := h.coherent
  cases op with
  | ioctl cmd =>
    cases cmd with
    | excludeVmrange start end_ => exact hrange _ rfl
    | includeVmrange start end_ => exact hrange _ rfl
    | take config => exact htake _ rfl
    | do_ => exact htake _ rfl
    | restore =>
      show (w.recoverSnapshot env t).1.core.reg.rcu.length = _
      unfold World.recoverSnapshot
      split
      · exact hsteady (.refl hc) rfl
      · exact hsteady (h.toKept.restoreSnapshot env t _).steady rfl
    | clean =>
      refine (rcu_clean w t).trans ?_
      by_cases hs : w.standing t = .none
      · rw [if_neg (not_not.mpr hs), if_neg fun hd => hd.1 hs]
      · rw [if_pos hs, if_pos ⟨hs, rfl⟩]
  | exit => exact rcu_exit env h
  | exitGroup => exact rcu_exitGroup h
  | read _ | write _ _ | discard _ | munmap _ _ | brk _ | mprotect _ _ _ | mmap _ _ _ _ _ | movePages _ _ _
  | swapIn _ _ _ | file _ | fork => exact hsteady (steady_quiet hc trivial) rfl


end

/-! ### The module's time -/

/-- The system from the loading of the module on, with a ledger of what its tasks have done: how each one stands, and
    how many records were dropped whose callback has not run. -/
structure Lifetime where
  world : World
  loaded : Bool
  standing : Nat → Standing
  pending : Nat

inductive LifetimeEvent
  | deed (a : Deed)
  /-- `task_data_free_callback` runs, after a grace period. -/
  | callback (id : Nat)
  | modExit

def Deed.ledger (w : World) (standing : Nat → Standing) : Deed → Nat → Standing
  | .move env tsk op => if w.Running tsk then Function.update standing tsk ((standing tsk).after env op) else standing
  | _ => standing

def Deed.dropped (w : World) (standing : Nat → Standing) : Deed → Nat
  | .move env tsk op => if w.Running tsk ∧ (standing tsk).Drops env op then 1 else 0
  | _ => 0

/-- Nothing of the module runs after `mod_exit`, which takes the hooks and the device away, but callbacks. -/
def Lifetime.happen (s : Lifetime) : LifetimeEvent → Lifetime
  | .deed a =>
    if s.loaded then
      { s with
        world := s.world.happen a
        standing := a.ledger s.world s.standing
        pending := s.pending + a.dropped s.world s.standing }
    else s
  | .callback id =>
    if id ∈ s.world.core.reg.rcu then
      { s with
        world := s.world.mapCore fun c => { c with reg := { c.reg with rcu := c.reg.rcu.erase id } }
        pending := s.pending - 1 }
    else s
  | .modExit => { s with loaded := false }

def Lifetime.start (w : World) : Lifetime := ⟨w, true, fun _ => .none, 0⟩

/-- After `mod_exit` no record is left, and no callback is to run. -/
def Lifetime.Clear (s : Lifetime) : Prop :=
  s.loaded = false → s.world.core.reg.taskDataList = [] ∧ s.world.core.reg.rcu = []

/-- When the module is unloaded every task that made a record has dropped it, and the callbacks have run. -/
def Lifetime.Settled (s : Lifetime) : LifetimeEvent → Prop
  | .modExit => s.loaded = true → (∀ t, s.standing t = .none) ∧ s.pending = 0
  | _ => True

/-- The ledger is right. -/
structure Lifetime.Ledger (s : Lifetime) : Prop where
  told : s.world.Told
  standing : ∀ t, s.world.standing t = s.standing t
  pending : s.world.core.reg.rcu.length = s.pending

section
variable {w₀ w : World} {s : Lifetime}

theorem unlisted_iff (h : w.Told) : w.core.reg.taskDataList = [] ↔ ∀ t, w.standing t = .none := by
  constructor
  · intro hnil t
    exact standing_of_none (by simp [World.recordOf, Registry.getTaskData, hnil])
  · intro hnone
    refine List.eq_nil_iff_forall_not_mem.mpr fun id hid => ?_
    have hrecord := recordOf_none_iff.mp (standing_none_iff.mp (hnone (w.core.reg.data id).tsk))
    rw [getTaskData_of_mem h.coherent hid] at hrecord
    cases hrecord

theorem rcu_happen (h : w.Told) (a : Deed) :
    (w.happen a).core.reg.rcu.length = w.core.reg.rcu.length + a.dropped w fun t => w.standing t := by
  cases a with
  | move env tsk op =>
    unfold World.happen Deed.dropped
    dsimp only
    by_cases hrun : w.Running tsk
    · simp only [hrun, ↓reduceIte, true_and]
      exact rcu_step env tsk h op
    · simp only [hrun, ↓reduceIte, false_and]
      rfl
  | fork parent child =>
    unfold World.happen
    dsimp only
    split <;> rfl
  | clone parent child =>
    unfold World.happen
    dsimp only
    split <;> rfl
  | lookup cpu tsk =>
    have hsame : w.core.reg.SameButCaches (w.lookup cpu tsk).core.reg := (withCache_spec h.coherent cpu tsk).1
    show (w.lookup cpu tsk).core.reg.rcu.length = _
    rw [hsame]
    rfl

theorem ledger_standing (a : Deed) (t : Nat) : a.ledger w (fun t => w.standing t) t = a.standing w t := by
  cases a with
  | move env tsk op =>
    unfold Deed.ledger Deed.standing
    by_cases hrun : w.Running tsk
    · by_cases ht : t = tsk
      · simp [hrun, ht]
      · simp [hrun, ht]
    · simp [hrun]
  | _ => rfl

/-- Whatever happens, the ledger stays right. -/
theorem Lifetime.Ledger.happen (h : s.Ledger) (e : LifetimeEvent) : (s.happen e).Ledger := by
  have hledger : s.standing = fun t => s.world.standing t := funext fun t => (h.standing t).symm
  cases e with
  | deed a =>
    unfold Lifetime.happen
    dsimp only
    split
    · obtain ⟨htold, hstand⟩ := happen_told h.told a
      refine ⟨htold, fun t => ?_, ?_⟩
      · show (s.world.happen a).standing t = a.ledger s.world s.standing t
        rw [hledger, ledger_standing, hstand]
      · show (s.world.happen a).core.reg.rcu.length = s.pending + a.dropped s.world s.standing
        rw [rcu_happen h.told, h.pending, hledger]
    · exact h
  | callback id =>
    unfold Lifetime.happen
    dsimp only
    split
    · rename_i hin
      have hc := h.told.coherent
      have hkept : (s.world.mapCore fun c => { c with reg := { c.reg with rcu := c.reg.rcu.erase id } }).Kept :=
        h.told.toKept.setReg ⟨hc.listed, hc.unique, hc.blank, hc.cached, hc.answers⟩ h.told.records
      exact ⟨⟨hkept, h.told.had⟩, h.standing, h.pending ▸ List.length_erase_of_mem hin⟩
    · exact h
  | modExit => exact ⟨h.told, h.standing, h.pending⟩

theorem Lifetime.Ledger.start (h₀ : w₀.Loaded) : (Lifetime.start w₀).Ledger :=
  ⟨h₀.told, h₀.standing, congrArg List.length h₀.unfreed⟩

theorem clear_step (h : s.Ledger) (hs : s.Clear) (e : LifetimeEvent) : (s.happen e).Clear ↔ s.Settled e := by
  cases e with
  | deed a =>
    refine iff_of_true ?_ trivial
    unfold Lifetime.happen
    dsimp only
    split
    · rename_i hloaded
      intro hunloaded
      exact absurd (hloaded.symm.trans hunloaded) (by simp)
    · exact hs
  | callback id =>
    refine iff_of_true ?_ trivial
    unfold Lifetime.happen
    dsimp only
    split
    · intro hunloaded
      obtain ⟨hlist, hrcu⟩ := hs hunloaded
      exact ⟨hlist, by simp [World.mapCore, hrcu]⟩
    · exact hs
  | modExit =>
    have hempty : s.world.core.reg.taskDataList = [] ∧ s.world.core.reg.rcu = [] ↔
        (∀ t, s.standing t = .none) ∧ s.pending = 0 := by
      rw [unlisted_iff h.told, ← List.length_eq_zero_iff, h.pending]
      simp only [h.standing]
    cases hloaded : s.loaded with
    | true => exact ⟨fun hclear _ => hempty.mp (hclear rfl), fun hset _ => hempty.mpr (hset hloaded)⟩
    | false => exact iff_of_true (fun _ => hs hloaded) fun hl => absurd (hloaded.symm.trans hl) (by simp)

/-- In every run, `mod_exit` leaves no record and no callback behind if and only if by then every task that made a record
    has dropped it, by a clean or by an exit with a snapshot, and the callbacks of all these have run. -/
theorem unloading_clear_iff (h₀ : w₀.Loaded) (l : List LifetimeEvent) :
    Throughout Lifetime.happen Lifetime.Clear (Lifetime.start w₀) l ↔
      Along Lifetime.happen Lifetime.Settled (Lifetime.start w₀) l := by
  refine throughout_iff (K := Lifetime.Ledger) (fun s e h => h.happen e) (fun s e h hs => clear_step h hs e) (.start h₀) ?_
  intro hunloaded
  cases hunloaded

/-- A take, a clean, the callback, and the unloading. -/
theorem unloading_clear_cleaned : Throughout Lifetime.happen Lifetime.Clear (Lifetime.start (.boot heapMm [1]))
    [.deed (.move .calm 1 (.ioctl (.take 0))), .deed (.move .calm 1 (.ioctl .clean)), .callback 0, .modExit] := by
  have hloaded := boot_loaded [1] (heapMm_kept [1])
  refine (unloading_clear_iff hloaded _).mpr ⟨trivial, trivial, trivial, fun _ => ⟨fun t => ?_, by decide⟩, trivial⟩
  have hledger := (((Lifetime.Ledger.start hloaded).happen (.deed (.move .calm 1 (.ioctl (.take 0))))).happen
    (.deed (.move .calm 1 (.ioctl .clean)))).happen (.callback 0)
  rw [← hledger.standing]
  exact (unlisted_iff hledger.told).mp (by decide) t

/-- The module is unloaded while a task has a snapshot, and while a cleaned record waits for its grace period. -/
theorem unloading_clear_fails :
    let s := ([.deed (.move .calm 1 (.ioctl (.take 0))), .modExit] : List LifetimeEvent).foldl Lifetime.happen
      (Lifetime.start (.boot heapMm [1]))
    let s' := ([.deed (.move .calm 1 (.ioctl (.take 0))), .deed (.move .calm 1 (.ioctl .clean)), .modExit] :
      List LifetimeEvent).foldl Lifetime.happen (Lifetime.start (.boot heapMm [1]))
    s.world.core.reg.taskDataList = [0] ∧ ¬s.Clear ∧ s'.world.core.reg.rcu = [0] ∧ ¬s'.Clear :=
  ⟨by decide, fun h => absurd (h rfl).1 (by decide), by decide, fun h => absurd (h rfl).2 (by decide)⟩

end
end AflSnapshot
