import AflSnapshot.Theorems.Taking

/-! # The commands

What restore and clean do to the parts of the system, task by task and record by record. -/

namespace AflSnapshot

/-- `w'` differs from `w` in tasks at most, which keep their address spaces. -/
structure World.SameCore (w w' : World) : Prop where
  core : w'.core = w.core
  mm : ∀ u, (w'.task u).mm = (w.task u).mm

section
variable {env : Env} {t id : Nat} {w w' w₁ w₂ w₃ : World}

namespace World.SameCore

theorem refl (w : World) : w.SameCore w := ⟨rfl, fun _ => rfl⟩

theorem trans (h₁ : w₁.SameCore w₂) (h₂ : w₂.SameCore w₃) : w₁.SameCore w₃ :=
  ⟨h₂.core.trans h₁.core, fun u => (h₂.mm u).trans (h₁.mm u)⟩

theorem setTask (w : World) {u : Nat} {task : Task} (h : task.mm = (w.task u).mm) : w.SameCore (w.setTask u task) where
  core := rfl
  mm v := by
    show (Function.update w.task u task v).mm = (w.task v).mm
    by_cases hv : v = u
    · rw [hv, Function.update_self, h]
    · rw [Function.update_of_ne hv]

end World.SameCore

/-! ### Range lists -/

/-- The task's record gets other ranges, or the task a record. -/
structure RangesGiven (t : Nat) (w w' : World) : Prop where
  mem : w'.core.mem = w.core.mem
  coherent : w'.core.reg.Coherent
  live : ∀ u, w'.core.reg.live u = w.core.reg.live u
  data : ∀ u i, w.core.reg.live u = some i →
    (∃ ranges, w'.core.reg.data i = { w.core.reg.data i with ranges }) ∧ (u ≠ t → w'.core.reg.data i = w.core.reg.data i)
  task : w'.task = w.task
  freshTask : w'.freshTask = w.freshTask

variable (env t) in
theorem addVmrange_given (hc : w.core.reg.Coherent) (f : RangeLists → RangeLists) :
    RangesGiven t w (w.addVmrange env t f) := by
  have hrefl : ∀ i, ∃ ranges, w.core.reg.data i = { w.core.reg.data i with ranges } := fun i => ⟨_, rfl⟩
  unfold World.addVmrange World.ensureTaskData
  rcases ensureTaskData_spec hc t env.kzallocTaskData with ⟨⟨id, h1, h2, -⟩, hc₁, hlive⟩ | ⟨-, -, heq⟩
  swap
  · rw [heq]
    dsimp only
    split <;> exact ⟨rfl, hc, fun _ => rfl, fun _ i _ => ⟨hrefl i, fun _ => rfl⟩, rfl, rfl⟩
  dsimp only
  rw [h1]
  dsimp only
  -- A record that is made has a number that no live one has.
  have hdata : ∀ u i, w.core.reg.live u = some i →
      (w.core.reg.ensureTaskData t env.kzallocTaskData).1.data i = w.core.reg.data i := fun u i hi => by
    have hlt := hc.listed i (getTaskData_spec (live_eq_some.mp hi).1).1
    unfold Registry.ensureTaskData
    split
    · rfl
    · split
      · exact setData_of_ne hlt.ne
      · rfl
  generalize (w.core.reg.ensureTaskData t env.kzallocTaskData).1 = reg at h2 hc₁ hlive hdata
  split
  swap
  · exact ⟨rfl, hc₁, hlive, fun u i hi => ⟨hdata u i hi ▸ hrefl i, fun _ => hdata u i hi⟩, rfl, rfl⟩
  have hset : ∀ d : TaskData, d.tsk = (reg.data id).tsk → d.haveSnapshot = (reg.data id).haveSnapshot →
      ∀ u, (reg.setData id d).live u = w.core.reg.live u := fun d htsk hmade u =>
    ((setData_live htsk hmade).2 u).trans (hlive u)
  refine ⟨rfl, hc₁.setData rfl rfl fun _ hb => hb, hset { reg.data id with ranges := f (reg.data id).ranges } rfl rfl,
    fun u i hi => ?_, rfl, rfl⟩
  show (∃ ranges, (reg.setData id { reg.data id with ranges := f (reg.data id).ranges }).data i = _) ∧
    (u ≠ t → (reg.setData id { reg.data id with ranges := f (reg.data id).ranges }).data i = _)
  by_cases hid : i = id
  · subst hid
    rw [setData_same, hdata u i hi]
    refine ⟨⟨_, rfl⟩, fun hu => absurd ?_ hu⟩
    rw [← (getTaskData_spec (live_eq_some.mp hi).1).2, ← hdata u i hi, (getTaskData_spec h2).2]
  · rw [setData_of_ne hid, hdata u i hi]
    exact ⟨hrefl i, fun _ => rfl⟩

/-! ### Restore -/

theorem recoverThreads_same (w : World) (t : Nat) : w.SameCore (w.recoverThreadsSnapshot t) := by
  unfold World.recoverThreadsSnapshot
  generalize World.tids w.task (w.threads (w.task t).groupLeader) = l
  have hgo : ∀ (l : List Nat) (w : World), w.SameCore (l.foldl (fun w u => if u = t then w else w.sendSigkill u) w) := by
    intro l
    induction l with
    | nil => exact fun w => .refl w
    | cons u l ih =>
      intro w
      rw [List.foldl_cons]
      refine World.SameCore.trans ?_ (ih _)
      split
      · exact .refl w
      · exact .setTask w rfl
  exact hgo l w

theorem recoverThreads_fs (w : World) (t : Nat) : (w.recoverThreadsSnapshot t).fs = w.fs ∧
    (w.recoverThreadsSnapshot t).threads = w.threads ∧
    ∀ u, ((w.recoverThreadsSnapshot t).task u).files = (w.task u).files ∧
      ((w.recoverThreadsSnapshot t).task u).groupLeader = (w.task u).groupLeader := by
  unfold World.recoverThreadsSnapshot
  generalize World.tids w.task (w.threads (w.task t).groupLeader) = l
  induction l generalizing w with
  | nil => exact ⟨rfl, rfl, fun _ => ⟨rfl, rfl⟩⟩
  | cons u l ih =>
    rw [List.foldl_cons]
    obtain ⟨h1, h2, h3⟩ := ih (if u = t then w else w.sendSigkill u)
    refine ⟨h1.trans ?_, h2.trans ?_, fun v => ?_⟩
    · split <;> rfl
    · split <;> rfl
    · obtain ⟨h4, h5⟩ := h3 v
      rw [h4, h5]
      split
      · exact ⟨rfl, rfl⟩
      · show (Function.update w.task u _ v).files = _ ∧ (Function.update w.task u _ v).groupLeader = _
        by_cases hv : v = u
        · subst hv
          rw [Function.update_self]
          exact ⟨rfl, rfl⟩
        · rw [Function.update_of_ne hv]
          exact ⟨rfl, rfl⟩

variable (env) in
theorem recoverFiles_same (w : World) (t id : Nat) : w.SameCore (w.recoverFilesSnapshot env t id).1 := by
  have hgo : ∀ (old restored : Nat) (l : List Nat) (w : World),
      w.SameCore (l.foldl (World.replaceFiles t old restored) w) := by
    intro old restored l
    induction l with
    | nil => exact fun w => .refl w
    | cons u l ih =>
      intro w
      rw [List.foldl_cons]
      refine World.SameCore.trans ?_ (ih _)
      unfold World.replaceFiles
      split
      · have h : w.SameCore (w.setTask u { w.task u with files := restored }) := .setTask w rfl
        exact ⟨h.core, h.mm⟩
      · exact .refl w
  unfold World.recoverFilesSnapshot
  dsimp only
  split
  swap
  · exact .refl w
  split
  swap
  · exact .refl w
  split
  · exact ⟨rfl, fun _ => rfl⟩
  · split
    · have h : ∀ fs restored l, w.SameCore
          (List.foldl (World.replaceFiles t (w.task t).files restored) { w with fs } l) :=
        fun fs restored l => by
          have hfs : w.SameCore { w with fs } := ⟨rfl, fun _ => rfl⟩
          exact hfs.trans (hgo _ restored l _)
      exact h _ _ _
    · exact ⟨rfl, fun _ => rfl⟩

variable (env id) in
theorem recoverState_core (h : w.SameCore w₁) (t : Nat) :
    (w₁.recoverState env t id).core = (w.core.restoreBrk env (w.task t).mm (w.core.reg.data id).ss.oldbrk).1 ∧
    ∀ u, ((w₁.recoverState env t id).task u).mm = (w.task u).mm := by
  unfold World.recoverState
  dsimp only
  have hregs : w.SameCore (if hasFlag (w₁.core.reg.data id).config aflSnapshotRegs then
      w₁.setTask t { w₁.task t with regs := (w₁.core.reg.data id).ss.regs } else w₁) := by
    split
    · exact h.trans (.setTask w₁ rfl)
    · exact h
  generalize (if hasFlag (w₁.core.reg.data id).config aflSnapshotRegs then
      w₁.setTask t { w₁.task t with regs := (w₁.core.reg.data id).ss.regs } else w₁) = w₂ at hregs ⊢
  simp only [World.mapCore]
  refine ⟨?_, hregs.mm⟩
  rw [hregs.core, hregs.mm, h.core]

variable (env) in
/-- What a restore does to memory and records. -/
theorem restoreSnapshot_core (w : World) (t id : Nat) :
    (w.restoreSnapshot env t id).core =
      ((w.core.restoreBrk env (w.task t).mm (w.core.reg.data id).ss.oldbrk).1.recoverMemorySnapshot env
        (w.task t).mm id).1 ∧
    ∀ u, ((w.restoreSnapshot env t id).task u).mm = (w.task u).mm := by
  obtain ⟨hcore, hmm⟩ := recoverState_core env id (recoverThreads_same w t) t
  unfold World.restoreSnapshot
  dsimp only
  generalize (w.recoverThreadsSnapshot t).recoverState env t id = w₂ at hcore hmm
  have h := recoverFiles_same env (w₂.mapCore fun c => (c.recoverMemorySnapshot env (w₂.task t).mm id).1) t id
  refine ⟨h.core.trans ?_, fun u => (h.mm u).trans (hmm u)⟩
  show (w₂.core.recoverMemorySnapshot env (w₂.task t).mm id).1 = _
  rw [hcore, hmm]

theorem step_restore {w : World} (hget : w.core.reg.getTaskData t = some id) :
    w.step env t (.ioctl .restore) = w.restoreSnapshot env t id := by
  show (w.recoverSnapshot env t).1 = _
  unfold World.recoverSnapshot
  rw [hget]

/-! ### Clean -/

/-- A clean drops the record of the task, and nothing else of the core. -/
structure Cleaned (t : Nat) (w w' : World) : Prop where
  mem : w'.core.mem = w.core.mem
  oops : w'.core.oops = w.core.oops
  task : w'.task = w.task
  coherent : w'.core.reg.Coherent
  none : w'.core.reg.getTaskData t = none
  others : ∀ u, u ≠ t → w'.core.reg.live u = w.core.reg.live u
  data : ∀ i, (w.core.reg.data i).tsk ≠ t → w'.core.reg.data i = w.core.reg.data i

/-- The caches of the task are invalidated, then its record is cleared and dropped. -/
theorem cleanSnapshot_reg (hget : w.core.reg.getTaskData t = some id) : ∃ d, d.tsk = t ∧
    (w.cleanSnapshot t).core.reg = ((w.core.reg.invalidateTaskDataCache t).setData id d).removeTaskData id := by
  have htsk : (w.core.reg.data id).tsk = t := (getTaskData_spec hget).2
  have hreg : ∀ (fs : Files) (files : OpenFilesSnapshot), ∃ d, d.tsk = t ∧
      (World.mapCore { (w.mapCore (·.cleanMemorySnapshot id)) with fs := fs } fun c =>
        let c := c.modifyData id fun d => { d with ss := { d.ss with ssFiles := files } }
        let c := c.modifyData id TaskData.clearSnapshot
        { c with reg := c.reg.removeTaskData id }).core.reg =
      ((w.core.reg.invalidateTaskDataCache t).setData id d).removeTaskData id := by
    intro fs files
    refine ⟨TaskData.clearSnapshot { w.core.reg.data id with ss := { (w.core.reg.data id).ss with
      allVmas := [], snapshottedVmas := [], ssPages := [], ssFiles := files } }, htsk, ?_⟩
    have htask : w.core.reg.invalidateTaskDataCache (w.core.reg.data id).tsk =
        w.core.reg.invalidateTaskDataCache t := by rw [htsk]
    simp only [World.mapCore, Core.cleanMemorySnapshot, Core.modifyData, setData_same, setData_setData, htask]
    rfl
  unfold World.cleanSnapshot
  rw [hget]
  exact hreg _ _

theorem cleanSnapshot_cleaned (hc : w.core.reg.Coherent) (t : Nat) : Cleaned t w (w.cleanSnapshot t) := by
  cases hget : w.core.reg.getTaskData t with
  | none =>
    have hidle : w.cleanSnapshot t = w := by
      unfold World.cleanSnapshot
      rw [hget]
    rw [hidle]
    exact ⟨rfl, rfl, rfl, hc, hget, fun _ _ => rfl, fun _ _ => rfl⟩
  | some id =>
    have htsk : (w.core.reg.data id).tsk = t := (getTaskData_spec hget).2
    obtain ⟨d, hd, heq⟩ := cleanSnapshot_reg hget
    obtain ⟨hinv, hunc⟩ := invalidate_spec hc t
    obtain ⟨h1, h2, h3⟩ := hinv.remove hunc hget hd
    have hrest : (w.cleanSnapshot t).core.mem = w.core.mem ∧ (w.cleanSnapshot t).core.oops = w.core.oops ∧
        (w.cleanSnapshot t).task = w.task := by
      unfold World.cleanSnapshot
      rw [hget]
      exact ⟨rfl, rfl, rfl⟩
    refine ⟨hrest.1, hrest.2.1, hrest.2.2, heq ▸ h1, heq ▸ h2, fun u hu => heq ▸ h3 u hu, fun i hi => ?_⟩
    refine (congrArg (Registry.data · i) heq).trans (setData_of_ne fun hid => hi ?_)
    rw [hid, htsk]

theorem live_of_getTaskData_none {reg : Registry} (h : reg.getTaskData t = none) : reg.live t = none := by
  unfold Registry.live
  rw [h]
  rfl

end
end AflSnapshot
