import AflSnapshot.System
import AflSnapshot.Theorems.Histories

/-! # How a task stands with the module

A task has no record, a record that only names ranges, or a snapshot (`Standing`). What a command or an exit does to its
standing does not depend on anything else (`Standing.after`), and the system does just that (`standing_step`). -/

namespace AflSnapshot
open Runs

inductive Standing where
  | none
  | named
  | taken (config : Nat)
deriving DecidableEq

namespace Standing

/-- A record is found or made, if there is memory for it. -/
def ensure (alloc : Bool) : Standing → Standing
  | .none => if alloc then .named else .none
  | s => s

def take (alloc : Bool) (config : Nat) : Standing → Standing
  | .none => if alloc then .taken config else .none
  | .named => .taken config
  | s => s

/-- A record that only names ranges outlives its task. -/
def exit : Standing → Standing
  | .taken _ => .none
  | s => s

def exitGroup : Standing → Standing
  | .taken config => if hasFlag config aflSnapshotExit then .taken config else .none
  | s => s

def after (env : Env) (s : Standing) : Op → Standing
  | .ioctl (.excludeVmrange _ _) | .ioctl (.includeVmrange _ _) =>
    if env.copyFromUser then s.ensure env.kzallocTaskData else s
  | .ioctl (.take config) => s.take env.kzallocTaskData config
  | .ioctl .do_ => s.take env.kzallocTaskData (aflSnapshotMmap ||| aflSnapshotFds ||| aflSnapshotRegs ||| aflSnapshotExit)
  | .ioctl .clean => .none
  | .exit => s.exit
  | .exitGroup => s.exitGroup
  | _ => s

end Standing

def TaskData.standing (d : TaskData) : Standing := if d.haveSnapshot then .taken d.config else .named

def World.standing (t : Nat) (w : World) : Standing := ((w.recordOf t).map TaskData.standing).getD .none

/-- Besides what every state has: the record of a task has a live snapshot if it ever had one. -/
structure World.Told (w : World) : Prop extends World.Kept w where
  had : ∀ t d, w.recordOf t = some d → d.hadSnapshot = d.haveSnapshot

section
variable {env : Env} {t u id config : Nat} {w w' : World} {d d' : TaskData}

/-! ### Records -/

theorem standing_of_record (h : w.recordOf t = some d) : w.standing t = d.standing := by
  unfold World.standing
  rw [h]
  rfl

theorem standing_of_none (h : w.recordOf t = none) : w.standing t = .none := by
  unfold World.standing
  rw [h]
  rfl

theorem standing_none_iff : w.standing t = .none ↔ w.recordOf t = none := by
  refine ⟨fun h => ?_, standing_of_none⟩
  cases hd : w.recordOf t with
  | none => rfl
  | some d =>
    rw [standing_of_record hd] at h
    unfold TaskData.standing at h
    split at h <;> cases h

theorem recordOf_none_iff : w.recordOf t = none ↔ w.core.reg.getTaskData t = none := by simp [World.recordOf]

theorem SameButPages.standing (h : SameButPages d d') : d'.standing = d.standing ∧ (d'.hadSnapshot = d'.haveSnapshot ↔
    d.hadSnapshot = d.haveSnapshot) := by
  rw [h]
  exact ⟨rfl, Iff.rfl⟩

/-- A task with the same record stands as before. -/
theorem Registry.SameRecord.standing (h : w.core.reg.SameRecord t w'.core.reg) : w'.standing t = w.standing t := by
  cases hget : w.core.reg.getTaskData t with
  | none =>
    rw [standing_of_none (recordOf_none_iff.mpr hget), standing_of_none (recordOf_none_iff.mpr (h.found.trans hget))]
  | some id =>
    rw [standing_of_record (recordOf_eq hget), standing_of_record (recordOf_eq (h.found.trans hget))]
    exact (h.same id hget).standing.1

theorem Registry.SameRecord.had (h : w.core.reg.SameRecord t w'.core.reg)
    (hw : ∀ d, w.recordOf t = some d → d.hadSnapshot = d.haveSnapshot) (hd : w'.recordOf t = some d) :
    d.hadSnapshot = d.haveSnapshot := by
  obtain ⟨d₀, hd₀, hsame⟩ := h.recordOf hd
  exact hsame.standing.2.mpr (hw d₀ hd₀)

/-- What a command of the task leaves: how the task stands, and that its record tells whether it had a snapshot. -/
structure World.Stands (t : Nat) (w : World) (s : Standing) : Prop where
  standing : w.standing t = s
  had : ∀ d, w.recordOf t = some d → d.hadSnapshot = d.haveSnapshot

theorem World.Told.stands (h : w.Told) (t : Nat) : w.Stands t (w.standing t) := ⟨rfl, h.had t⟩

theorem stands_none (h : w.core.reg.getTaskData t = none) : w.Stands t .none := by
  have hnone := recordOf_none_iff.mpr h
  refine ⟨standing_of_none hnone, fun d hd => ?_⟩
  rw [hnone] at hd
  cases hd

theorem stands_record (h : w.core.reg.getTaskData t = some id) (hd : w.core.reg.data id = d)
    (hhad : d.hadSnapshot = d.haveSnapshot) : w.Stands t d.standing := by
  have hrecord := recordOf_eq h
  rw [hd] at hrecord
  refine ⟨standing_of_record hrecord, fun d' hd' => ?_⟩
  rw [hrecord] at hd'
  exact Option.some.inj hd' ▸ hhad

/-- A clean drops the record. -/
theorem stands_clean (h : w.Kept) (t : Nat) : (w.cleanSnapshot t).Stands t .none :=
  stands_none (cleanSnapshot_cleaned h.coherent t).none

/-! ### Naming ranges -/

theorem stands_addVmrange (h : w.Told) (f : RangeLists → RangeLists) :
    (w.addVmrange env t f).Stands t ((w.standing t).ensure env.kzallocTaskData) := by
  rcases ensureTaskData_spec h.coherent t env.kzallocTaskData with ⟨⟨id, hid, hget, hold⟩, -⟩ | ⟨hfail, hnone, heq⟩
  · have hrecord : ∃ d, (w.core.reg.ensureTaskData t env.kzallocTaskData).1.data id = d ∧
        d.hadSnapshot = d.haveSnapshot ∧ d.standing = (w.standing t).ensure env.kzallocTaskData := by
      rcases hold with ⟨hold, heq⟩ | ⟨hnone, -, hnew⟩
      · refine ⟨w.core.reg.data id, by rw [heq], h.had t _ (recordOf_eq hold), ?_⟩
        rw [standing_of_record (recordOf_eq hold)]
        unfold TaskData.standing
        split <;> rfl
      · have halloc : env.kzallocTaskData = true := by
          cases hk : env.kzallocTaskData with
          | true => rfl
          | false =>
            unfold Registry.ensureTaskData at hid
            rw [hnone, hk] at hid
            cases hid
        refine ⟨_, hnew, rfl, ?_⟩
        rw [standing_of_none (recordOf_none_iff.mpr hnone), halloc]
        rfl
    obtain ⟨d, hd, hhad, hstand⟩ := hrecord
    rw [← hstand]
    unfold World.addVmrange World.ensureTaskData
    dsimp only
    rw [hid]
    dsimp only
    generalize (w.core.reg.ensureTaskData t env.kzallocTaskData).1 = reg at hget hd
    split
    · have hfound : (reg.setData id { reg.data id with ranges := f (reg.data id).ranges }).getTaskData t = some id := by
        rw [getTaskData_setData (by rfl)]
        exact hget
      have hset : (reg.setData id { reg.data id with ranges := f (reg.data id).ranges }).data id =
        { d with ranges := f d.ranges } := hd ▸ setData_same
      show World.Stands t _ ({ d with ranges := f d.ranges } : TaskData).standing
      exact stands_record hfound hset hhad
    · exact stands_record hget hd hhad
  · have hstand : (w.standing t).ensure env.kzallocTaskData = .none := by
      rw [standing_of_none (recordOf_none_iff.mpr hnone), hfail]
      rfl
    rw [hstand]
    unfold World.addVmrange World.ensureTaskData
    rw [heq]
    dsimp only
    split <;> exact stands_none hnone

/-! ### Take -/

theorem stands_take (h : w.Told) :
    (w.takeSnapshot env t config).1.Stands t ((w.standing t).take env.kzallocTaskData config) := by
  rcases takeSnapshot_cases env t config h.coherent (h.sorted t) with ⟨id, hlive, heq⟩ | ⟨hnone, hfail, heq⟩ |
    ⟨id, d₀, hlive, hT, -, halloc⟩
  · obtain ⟨hget, hmade⟩ := live_eq_some.mp hlive
    have hstand : (w.standing t).take env.kzallocTaskData config = w.standing t := by
      rw [standing_of_record (recordOf_eq hget), TaskData.standing, if_pos hmade]
      rfl
    rw [heq, hstand]
    exact h.stands t
  · rw [heq, standing_of_none (recordOf_none_iff.mpr hnone), hfail]
    exact stands_none hnone
  have hstand : (w.standing t).take env.kzallocTaskData config = .taken config := by
    rcases hT.old with ⟨hget, hold⟩ | ⟨hnone, -⟩
    · have hmade : d₀.haveSnapshot = false := hT.fresh.2.1
      rw [standing_of_record (recordOf_eq hget), hold, TaskData.standing, hmade]
      rfl
    · rw [standing_of_none (recordOf_none_iff.mpr hnone), halloc hnone]
      rfl
  have hblank : (w.initialized t config d₀).Blank := hT.fresh.2.2
  obtain ⟨done, rest, x, s, -, hs, hres, -⟩ := take_taken env.take (h.sorted t) hblank
  have hres : (w.taking env t config d₀).1 = (s.data, s.mm) := hres
  have hmade : s.data.ss.made = true ∧ s.data.ss.had = true ∧ s.data.config = config := by
    rw [hs.same]
    exact ⟨rfl, rfl, rfl⟩
  have hdata := hT.data
  rw [hres] at hdata
  have hrecord : (s.data.withFiles (w.fs.takeFilesSnapshot env (w.task t).files s.data).1.2).standing = .taken config := by
    show (if s.data.ss.made then Standing.taken s.data.config else .named) = _
    rw [hmade.1, hmade.2.2]
    rfl
  rw [hstand, ← hrecord]
  exact stands_record (live_eq_some.mp hT.live).1 hdata (hmade.2.1.trans hmade.1.symm)

/-! ### Exit -/

theorem World.Stands.doExitOrig {s : Standing} (h : w.Stands t s) (u : Nat) : (w.doExitOrig u).Stands t s :=
  ⟨h.standing, h.had⟩

theorem stands_exit (h : w.Told) : (w.doExitHook t).Stands t (w.standing t).exit := by
  unfold World.doExitHook
  cases hget : w.core.reg.getTaskData t with
  | none =>
    rw [standing_of_none (recordOf_none_iff.mpr hget)]
    exact (stands_none hget).doExitOrig t
  | some id =>
    have hhad := h.had t _ (recordOf_eq hget)
    have hstands := h.stands t
    rw [standing_of_record (recordOf_eq hget)] at hstands ⊢
    unfold TaskData.standing at hstands ⊢
    dsimp only
    rw [hhad]
    cases hmade : (w.core.reg.data id).haveSnapshot with
    | true => exact (stands_clean h.toKept t).doExitOrig t
    | false =>
      rw [hmade] at hstands
      exact hstands.doExitOrig t

theorem World.Told.recoverThreads (h : w.Told) (t : Nat) : (w.recoverThreadsSnapshot t).Told where
  toKept := h.toKept.recoverThreads t
  had u d hd := by
    refine h.had u d ?_
    unfold World.recordOf at hd ⊢
    rwa [(recoverThreads_same w t).core] at hd

theorem recoverThreads_standing (w : World) (t u : Nat) : (w.recoverThreadsSnapshot t).standing u = w.standing u := by
  unfold World.standing World.recordOf
  rw [(recoverThreads_same w t).core]

theorem World.Told.cleaned (h : w.Told) (t : Nat) : (w.cleanSnapshot t).Told := by
  refine ⟨h.toKept.clean t, fun u d hd => ?_⟩
  by_cases hu : u = t
  · exact (stands_clean h.toKept t).had d (hu ▸ hd)
  · exact (sameRecord_clean h.toKept (Ne.symm hu)).had (h.had u) hd

theorem stands_exitGroup (h : w.Told) : (w.sysExitGroupHook env t).Stands t (w.standing t).exitGroup := by
  have hexit : ∀ w : World, w.Told → ((w.recoverThreadsSnapshot t).doExitHook t).Stands t (w.standing t).exit :=
    fun w h => recoverThreads_standing w t t ▸ stands_exit (h.recoverThreads t)
  unfold World.sysExitGroupHook World.exitSnapshot
  cases hget : w.core.reg.getTaskData t with
  | none =>
    have hstands := hexit w h
    rw [standing_of_none (recordOf_none_iff.mpr hget)] at hstands ⊢
    exact hstands
  | some id =>
    have hhad := h.had t _ (recordOf_eq hget)
    have hstand := standing_of_record (recordOf_eq hget)
    unfold TaskData.standing at hstand
    dsimp only
    rw [hhad]
    cases hmade : (w.core.reg.data id).haveSnapshot with
    | false =>
      rw [hmade] at hstand
      have hstands := hexit w h
      rw [hstand] at hstands
      simp only [Bool.and_false, Bool.false_eq_true, ↓reduceIte]
      exact hstand ▸ hstands
    | true =>
      rw [hmade, if_pos rfl] at hstand
      rw [hstand, Standing.exitGroup]
      by_cases hflag : hasFlag (w.core.reg.data id).config aflSnapshotExit = true
      · rw [hflag]
        have hsame := (h.toKept.restoreSnapshot env t id).steady.sameRecord t
        refine ⟨hsame.standing.trans hstand, fun d hd => hsame.had (h.had t) hd⟩
      · simp only [hflag, Bool.false_and, Bool.false_eq_true, ↓reduceIte]
        have hstands := hexit _ (h.cleaned t)
        rw [(stands_clean h.toKept t).standing] at hstands
        exact hstands

/-! ### All steps -/

variable (env t) in
/-- A step does to the standing of its task what its kind says, and leaves all other ones. -/
theorem standing_step (h : w.Told) (op : Op) : (w.step env t op).Told ∧
    ∀ u, (w.step env t op).standing u = if u = t then (w.standing t).after env op else w.standing u := by
  have hkept := (h.toKept.step env t op).1
  -- The other tasks keep their records.
  have hothers : ∀ u, u ≠ t → w.core.reg.SameRecord u (w.step env t op).core.reg := fun u hu =>
    sameRecord_step env u t h.toKept op fun he => absurd he.symm hu
  suffices hown : (w.step env t op).Stands t ((w.standing t).after env op) by
    refine ⟨⟨hkept, fun u d hd => ?_⟩, fun u => ?_⟩
    · by_cases hu : u = t
      · exact hown.had d (hu ▸ hd)
      · exact (hothers u hu).had (h.had u) hd
    · by_cases hu : u = t
      · rw [if_pos hu, hu]
        exact hown.standing
      · rw [if_neg hu]
        exact (hothers u hu).standing
  have hquiet : ¬op.Commands → (w.standing t).after env op = w.standing t →
      (w.step env t op).Stands t ((w.standing t).after env op) := fun hq hafter => by
    have hsame := sameRecord_step env t t h.toKept op fun _ => hq
    rw [hafter]
    exact ⟨hsame.standing, fun d hd => hsame.had (h.had t) hd⟩
  have hrange : ∀ f, (if env.copyFromUser then (w.addVmrange env t f, (0 : Int)) else (w, -22)).1.Stands t
      (if env.copyFromUser then (w.standing t).ensure env.kzallocTaskData else w.standing t) := fun f => by
    split
    · exact stands_addVmrange h f
    · exact h.stands t
  cases op with
  | ioctl cmd =>
    cases cmd with
    | excludeVmrange start end_ => exact hrange _
    | includeVmrange start end_ => exact hrange _
    | take config => exact stands_take h
    | do_ => exact stands_take h
    | restore => exact hquiet id rfl
    | clean => exact stands_clean h.toKept t
  | exit => exact stands_exit h
  | exitGroup => exact stands_exitGroup h
  | read _ | write _ _ | discard _ | munmap _ _ | brk _ | mprotect _ _ _ | mmap _ _ _ _ _ | movePages _ _ _
  | swapIn _ _ _ | file _ | fork => exact hquiet id rfl

end
end AflSnapshot
