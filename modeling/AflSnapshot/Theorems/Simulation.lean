import AflSnapshot.Theorems.Represented

/-! # Every run is a run of the module on its objects

Each step of the system is matched by what it calls of the module, block by block (`Runs.Matches`): the hooks for what a
process does to its memory, and the function of the command. -/

namespace AflSnapshot
open Runs

section
variable {hash : Nat → Fin 256} {μ μ' : ModuleMemory} {c : Core} {w : World} {env : Env} {t id config : Nat}

theorem ModuleMemory.hooks_eq (μ : ModuleMemory) (hash : Nat → Fin 256) (calls : List HookCall) :
    (calls.map ModuleCall.hook).foldl (ModuleMemory.step hash) μ = μ.hooks hash calls := by
  rw [List.foldl_map]
  rfl

/-! ### Records are made -/

theorem ensureTaskData_represents (hμ : μ.Represents hash c) (t : Nat) (alloc : Bool) :
    (μ.ensureTaskData t alloc).1.Represents hash { c with reg := (c.reg.ensureTaskData t alloc).1 } ∧
      (μ.ensureTaskData t alloc).2 = (c.reg.ensureTaskData t alloc).2 := by
  have howned : (μ.ensureTaskData t alloc).1.Owned hash := (hμ.owned.ensureTaskData rfl).1.owned
  unfold ModuleMemory.ensureTaskData Registry.ensureTaskData at *
  rw [hμ.getTaskData t] at howned ⊢
  cases hget : c.reg.getTaskData t with
  | some i => exact ⟨hμ, rfl⟩
  | none =>
    cases alloc with
    | false => exact ⟨hμ, rfl⟩
    | true =>
      rw [hget] at howned
      refine ⟨⟨howned, congrArg₂ List.cons hμ.fresh hμ.list, congrArg Nat.succ hμ.fresh, hμ.rcu, fun i hi => ?_, hμ.oops⟩,
        congrArg some hμ.fresh.symm⟩
      rcases List.mem_cons.mp hi with rfl | hi
      · have hmemory : (ModuleMemory.memory { μ with
            node := Function.update μ.node μ.fresh (.new t), taskDataList := μ.fresh :: μ.taskDataList, fresh := μ.fresh + 1 } μ.fresh) =
            ⟨μ.slab, .new t⟩ := congrArg (TaskMemory.mk μ.slab) (Function.update_self ..)
        have hdata : (c.reg.setData c.reg.fresh (.new t)).data μ.fresh = .new t := hμ.fresh ▸ setData_same
        show TaskMemory.Represents hash _ ((c.reg.setData c.reg.fresh (.new t)).data μ.fresh)
        rw [hdata]
        exact hmemory ▸ TaskMemory.new_represents μ.slab t
      · have hne : i ≠ μ.fresh := (hμ.owned.below i hi).ne
        have hmemory : (ModuleMemory.memory { μ with
            node := Function.update μ.node μ.fresh (.new t), taskDataList := μ.fresh :: μ.taskDataList, fresh := μ.fresh + 1 } i) =
            μ.memory i := congrArg (TaskMemory.mk μ.slab) (Function.update_of_ne hne ..)
        have hdata : (c.reg.setData c.reg.fresh (.new t)).data i = c.reg.data i := setData_of_ne (hμ.fresh ▸ hne)
        show TaskMemory.Represents hash _ ((c.reg.setData c.reg.fresh (.new t)).data i)
        rw [hdata]
        exact hmemory ▸ hμ.records i hi

theorem addVmrange_represents (hμ : μ.Represents hash w.core) (f : RangeLists → RangeLists) :
    (μ.addVmrange t env f).Represents hash (w.addVmrange env t f).core := by
  obtain ⟨hens, hsome⟩ := ensureTaskData_represents hμ t env.kzallocTaskData
  unfold ModuleMemory.addVmrange World.addVmrange World.ensureTaskData World.mapCore
  dsimp only
  have hlisted : ∀ id, (μ.ensureTaskData t env.kzallocTaskData).2 = some id → id ∈ (μ.ensureTaskData t env.kzallocTaskData).1.taskDataList :=
    (hμ.owned.ensureTaskData rfl).2
  generalize μ.ensureTaskData t env.kzallocTaskData = r at hens hsome hlisted
  generalize w.core.reg.ensureTaskData t env.kzallocTaskData = r' at hens hsome
  obtain ⟨μ₁, o⟩ := r
  obtain ⟨reg₁, o'⟩ := r'
  obtain rfl : o = o' := hsome
  cases o with
  | none =>
    dsimp only
    split
    · exact hens.oopsed true
    · exact hens
  | some id =>
    dsimp only at hens ⊢
    split
    swap
    · exact hens
    have hid : id ∈ μ₁.taskDataList := hlisted id rfl
    have hok := hens.owned.records id hid
    have hext : TaskMemory.Extends hash (μ₁.memory id) ⟨μ₁.slab, { μ₁.node id with ranges := f (μ₁.node id).ranges }⟩ :=
      .of_same { hok with } hens.owned.sound rfl rfl (fun _ _ => rfl) (fun _ => Iff.rfl) (fun hmade => hmade) (fun hhad => hhad) rfl
        fun _ hx => hx
    exact hens.store hid hext (hens.owned.store hid hext (hens.owned.blank id hid) (hens.owned.had id hid)).owned
      (TaskMemory.ranges_represents hok (hens.records id hid) f)

/-! ### Take -/

variable (config) in
/-- What a take leaves of the records. -/
theorem takeSnapshot_reg {reg₁ : Registry} (hens : w.core.reg.ensureTaskData t env.kzallocTaskData = (reg₁, some id))
    (htsk : (reg₁.data id).tsk = t) (hnot : (reg₁.data id).haveSnapshot = false) : ∃ ssFiles,
      (reg₁.setData id ((w.taking env t config (reg₁.data id)).1.1.withFiles ssFiles)).SameButCaches (w.takeSnapshot env t config).1.core.reg ∧
        (w.takeSnapshot env t config).1.core.oops = w.core.oops := by
  obtain ⟨w₃, hw₃⟩ : ∃ w₃ : World, ((w.mapCore fun c => { c with reg := reg₁ }).mapCore (·.modifyData id (w.initialized t config))).mapCore
      (fun c => (c.takeMemorySnapshot env (w.task t).mm id).1) = w₃ := ⟨_, rfl⟩
  have hcore : w₃.core = ⟨w.core.mem.setMm (w.task t).mm (w.taking env t config (reg₁.data id)).1.2,
      (reg₁.invalidateTaskDataCache t).setData id (w.taking env t config (reg₁.data id)).1.1, w.core.oops⟩ := by
    have h := takeMemorySnapshot_modifyData env { w.core with reg := reg₁ } (w.task t).mm id (w.initialized t config) rfl
    rw [htsk] at h
    rw [← hw₃]
    exact h
  have hstep : (w.takeSnapshot env t config).1 = w₃.takeFiles env t id := by
    unfold World.takeSnapshot World.ensureTaskData
    dsimp only
    rw [hens]
    have hnot' : ((w.mapCore fun c => { c with reg := reg₁ }).core.reg.data id).haveSnapshot = false := hnot
    dsimp only
    rw [hnot', if_neg (by simp), ← hw₃]
    rfl
  rw [hstep]
  unfold World.takeFiles World.mapCore Core.modifyData
  dsimp only
  rw [hcore]
  dsimp only
  rw [setData_setData, setData_same]
  exact ⟨_, rfl, rfl⟩

theorem takeSnapshot_represents (h : w.core.reg.Coherent) (hμ : μ.Represents hash w.core) (config : Nat) :
    (μ.takeSnapshot hash t config env (w.mmOf t) (w.task t).regs w.fs (w.task t).files).Represents hash (w.takeSnapshot env t config).1.core := by
  obtain ⟨hens, hsome⟩ := ensureTaskData_represents hμ t env.kzallocTaskData
  have hlisted : ∀ id, (μ.ensureTaskData t env.kzallocTaskData).2 = some id → id ∈ (μ.ensureTaskData t env.kzallocTaskData).1.taskDataList :=
    (hμ.owned.ensureTaskData rfl).2
  unfold ModuleMemory.takeSnapshot
  cases hr : w.core.reg.ensureTaskData t env.kzallocTaskData with
  | mk reg₁ o =>
    rw [hr] at hens hsome
    generalize μ.ensureTaskData t env.kzallocTaskData = r at hens hsome hlisted
    obtain ⟨μ₁, o'⟩ := r
    obtain rfl : o' = o := hsome
    dsimp only at hens hlisted ⊢
    cases o' with
    | none =>
      have hfails : (w.takeSnapshot env t config).1.core = { w.core with reg := reg₁, oops := true } := by
        unfold World.takeSnapshot World.ensureTaskData
        dsimp only
        rw [hr]
        rfl
      rw [hfails]
      exact hens.oopsed true
    | some id =>
      have hid : id ∈ μ₁.taskDataList := hlisted id rfl
      dsimp only
      by_cases hmade : (μ₁.node id).made = true
      · rw [if_pos hmade]
        have hlive : (reg₁.data id).haveSnapshot = true := (hens.made hid).trans hmade
        have hidle : (w.takeSnapshot env t config).1.core = { w.core with reg := reg₁ } := by
          unfold World.takeSnapshot World.ensureTaskData World.mapCore
          dsimp only
          rw [hr]
          dsimp only
          rw [if_pos hlive]
        rw [hidle]
        exact hens
      · rw [if_neg hmade]
        have hmade : (μ₁.node id).made = false := by simpa using hmade
        have hnot : (reg₁.data id).haveSnapshot = false := (hens.made hid).trans hmade
        have htsk : (reg₁.data id).tsk = t := by
          rcases ensureTaskData_spec h t env.kzallocTaskData with ⟨⟨i, hi, hget, -⟩, -⟩ | ⟨-, -, hnone⟩
          · rw [hr] at hi hget
            obtain rfl : id = i := Option.some.inj hi
            exact (getTaskData_spec hget).2
          · rw [hr] at hnone
            cases (Prod.mk.inj hnone).2
        obtain ⟨ssFiles, hreg, hoops⟩ := takeSnapshot_reg config hr htsk hnot
        obtain ⟨m₀, hm₀⟩ : ∃ m₀, (μ₁.memory id).initializeSnapshot config (w.task t).regs (w.mmOf t).brk = m₀ := ⟨_, rfl⟩
        obtain ⟨hinit, hqueue, hmemory, hfiles⟩ := hens.owned.takes hid hmade env w.fs (w.task t).files hm₀
        have hext := (hinit.trans hmemory.keeps).trans hfiles
        have hd₀ : m₀.Represents hash (w.initialized t config (reg₁.data id)) :=
          hm₀ ▸ TaskMemory.initializeSnapshot_represents (hens.owned.records id hid) (hens.records id hid) config _ _
        have hd₁ := TaskMemory.takeMemorySnapshot_represents hinit.ok hinit.sound hd₀ hqueue env.take (w.mmOf t)
        have hd₂ := TaskMemory.takeFilesSnapshot_represents hmemory.keeps.ok hmemory.keeps.sound hd₁ env w.fs (w.task t).files hfiles.ok ssFiles
        rw [hm₀]
        have hmade₀ : m₀.node.made = true := hm₀ ▸ rfl
        have hhad₀ : m₀.node.had = true := hm₀ ▸ rfl
        have howned := hens.owned.store hid hext (fun hunmade => by
          rw [hfiles.made (hmemory.keeps.made hmade₀)] at hunmade
          cases hunmade) fun _ => hfiles.had (hmemory.keeps.had hhad₀)
        exact (hens.store hid hext howned.owned hd₂).congr hreg hoops

/-! ### Clean and exit -/

theorem cleanSnapshot_represents (h : w.core.reg.Coherent) (hμ : μ.Represents hash w.core) (t : Nat) :
    (μ.cleanSnapshot t).Represents hash (w.cleanSnapshot t).core := by
  cases hget : w.core.reg.getTaskData t with
  | none =>
    have hidle : w.cleanSnapshot t = w := by
      unfold World.cleanSnapshot
      rw [hget]
    have hidle' : μ.cleanSnapshot t = μ := by
      unfold ModuleMemory.cleanSnapshot
      rw [hμ.getTaskData, hget]
    rw [hidle, hidle']
    exact hμ
  | some id =>
    have hget' : μ.getTaskData t = some id := (hμ.getTaskData t).trans hget
    have hid := (ModuleMemory.getTaskData_eq_some hget').1
    have hcleaned := ModuleMemory.cleanSnapshot_cleaned hμ.owned hget'
    obtain ⟨d, -, hreg⟩ := cleanSnapshot_reg hget
    have hoops := (cleanSnapshot_cleaned h t).oops
    have hrest : (μ.cleanSnapshot t).fresh = μ.fresh ∧ (μ.cleanSnapshot t).rcu = μ.rcu ++ [id] ∧ (μ.cleanSnapshot t).oops = μ.oops := by
      unfold ModuleMemory.cleanSnapshot
      rw [hget']
      dsimp only [ModuleMemory.removeTaskData, ModuleMemory.store]
      exact ⟨rfl, rfl, rfl⟩
    refine ⟨hcleaned.owned, ?_, ?_, ?_, fun i hi => ?_, fun ho => ?_⟩
    · rw [hreg, hcleaned.list]
      exact congrArg (List.erase · id) hμ.list
    · rw [hreg, hrest.1]
      exact hμ.fresh
    · rw [hreg, hrest.2.1]
      exact congrArg (· ++ [id]) hμ.rcu
    · rw [hcleaned.list] at hi
      obtain ⟨hne, hold⟩ := hμ.owned.once.mem_erase_iff.mp hi
      have hmemory : (μ.cleanSnapshot t).memory i = ⟨(μ.cleanSnapshot t).slab, (μ.memory i).node⟩ :=
        congrArg (TaskMemory.mk (μ.cleanSnapshot t).slab) (hcleaned.node i hne)
      have hdata : (w.cleanSnapshot t).core.reg.data i = w.core.reg.data i := by
        rw [hreg]
        exact setData_of_ne hne
      rw [hmemory, hdata]
      refine (hμ.records i hold).congr (hμ.owned.records i hold) fun x hx => ?_
      rw [hcleaned.slab, Slab.freeAll_obj, if_neg fun hin => hne (hμ.owned.apart i hold id hid x hx hin)]
      rfl
    · rw [hoops]
      exact hμ.oops (hrest.2.2 ▸ ho)

theorem doExitHook_represents (h : w.core.reg.Coherent) (hμ : μ.Represents hash w.core) (t : Nat) :
    (μ.doExitHook t).Represents hash (w.doExitHook t).core := by
  unfold ModuleMemory.doExitHook World.doExitHook
  rw [hμ.getTaskData]
  cases hget : w.core.reg.getTaskData t with
  | none => exact hμ
  | some id =>
    have hid := (ModuleMemory.getTaskData_eq_some ((hμ.getTaskData t).trans hget)).1
    have hhad : (w.core.reg.data id).hadSnapshot = (μ.node id).had := hμ.had hid
    dsimp only
    rw [hhad]
    split
    · exact cleanSnapshot_represents h hμ t
    · exact hμ

/-- `exit_group`, for what the kernel does in the restore. -/
theorem sysExitGroupHook_represents (env : Env) (h : w.Kept) (t : Nat) : ∃ r : Restoring, r.env = env ∧ r.fs = w.fs ∧
    ∀ hash μ, ModuleMemory.Represents hash μ w.core → (μ.sysExitGroupHook hash t r).Represents hash (w.sysExitGroupHook env t).core := by
  obtain ⟨r, henv, hfs, hrestore⟩ := restoreSnapshot_represents env h t ((w.core.reg.getTaskData t).getD 0)
  refine ⟨r, henv, hfs, fun hash μ hμ => ?_⟩
  have hkilled : ∀ w : World, (w.recoverThreadsSnapshot t).core = w.core := fun w => (recoverThreads_same w t).core
  unfold ModuleMemory.sysExitGroupHook ModuleMemory.exitSnapshot World.sysExitGroupHook World.exitSnapshot
  rw [hμ.getTaskData]
  cases hget : w.core.reg.getTaskData t with
  | none => exact doExitHook_represents ((hkilled w).symm ▸ h.coherent) ((hkilled w).symm ▸ hμ) t
  | some id =>
    rw [hget] at hrestore
    have hid := (ModuleMemory.getTaskData_eq_some ((hμ.getTaskData t).trans hget)).1
    have hhad : (w.core.reg.data id).hadSnapshot = (μ.node id).had := hμ.had hid
    have hmade : (w.core.reg.data id).haveSnapshot = (μ.node id).made := hμ.made hid
    dsimp only
    rw [hμ.config hid, hhad, hmade]
    by_cases hback : (hasFlag (μ.node id).config aflSnapshotExit && (μ.node id).made) = true
    · rw [if_pos hback, if_pos hback]
      exact hrestore hash μ hμ hid
    rw [if_neg hback, if_neg hback]
    by_cases hclean : (μ.node id).had = true
    · rw [if_pos hclean, if_pos hclean]
      have hcleaned := cleanSnapshot_represents h.coherent hμ t
      have hcoherent := (h.clean t).coherent
      exact doExitHook_represents ((hkilled _).symm ▸ hcoherent) ((hkilled _).symm ▸ hcleaned) t
    · rw [if_neg hclean, if_neg hclean]
      exact doExitHook_represents ((hkilled w).symm ▸ h.coherent) ((hkilled w).symm ▸ hμ) t

/-! ### Steps -/

/-- What a step calls of the module: the hooks, for what the process does to its memory, or the function of the command. -/
def Op.Calls (env : Env) (t : Nat) (w : World) (calls : List ModuleCall) : Op → Prop
  | .write .. | .munmap .. | .brk _ | .mmap .. => ∃ hooks : List HookCall, calls = hooks.map .hook
  | .ioctl (.excludeVmrange start end_) => calls = if env.copyFromUser then [.excludeVmrange t start end_ env] else []
  | .ioctl (.includeVmrange start end_) => calls = if env.copyFromUser then [.includeVmrange t start end_ env] else []
  | .ioctl (.take config) => calls = [.take t config env (w.mmOf t) (w.task t).regs w.fs (w.task t).files]
  | .ioctl .do_ => calls = [.take t (aflSnapshotMmap ||| aflSnapshotFds ||| aflSnapshotRegs ||| aflSnapshotExit) env (w.mmOf t)
      (w.task t).regs w.fs (w.task t).files]
  | .ioctl .restore => ∃ r : Restoring, r.env = env ∧ r.fs = w.fs ∧ calls = [.restore t r]
  | .ioctl .clean => calls = [.clean t]
  | .exit => calls = [.exit t]
  | .exitGroup => ∃ r : Restoring, r.env = env ∧ r.fs = w.fs ∧ calls = [.exitGroup t r]
  | _ => calls = []

/-- The blocks of calls that match a step from `w` to `w'`. -/
def World.Matched (w w' : World) (calls : List ModuleCall) : Prop :=
  ∀ hash μ, ModuleMemory.Represents hash μ w.core → (calls.foldl (ModuleMemory.step hash) μ).Represents hash w'.core

theorem Core.Hooked.matched {w' : World} {hooks : List HookCall} (h : w.core.Hooked hooks w'.core) : w.Matched w' (hooks.map .hook) :=
  fun hash μ hμ => by
    rw [μ.hooks_eq]
    exact h hash μ hμ

/-- Nothing is called. -/
theorem matched_of_same {w' : World} (hreg : w.core.reg.SameButCaches w'.core.reg) (hoops : w'.core.oops = w.core.oops) : w.Matched w' [] :=
  fun _ _ hμ => hμ.congr hreg hoops

theorem recoverSnapshot_represents (env : Env) (h : w.Kept) (t : Nat) : ∃ r : Restoring, r.env = env ∧ r.fs = w.fs ∧
    w.Matched (w.recoverSnapshot env t).1 [.restore t r] := by
  obtain ⟨r, henv, hfs, hrestore⟩ := restoreSnapshot_represents env h t ((w.core.reg.getTaskData t).getD 0)
  refine ⟨r, henv, hfs, fun hash μ hμ => ?_⟩
  show (μ.recoverSnapshot hash t r).Represents hash _
  unfold ModuleMemory.recoverSnapshot World.recoverSnapshot
  rw [hμ.getTaskData]
  cases hget : w.core.reg.getTaskData t with
  | none => exact hμ
  | some id =>
    rw [hget] at hrestore
    exact hrestore hash μ hμ (ModuleMemory.getTaskData_eq_some ((hμ.getTaskData t).trans hget)).1

theorem ioctl_matched (env : Env) (h : w.Kept) (t : Nat) (cmd : Ioctl) : ∃ calls, Op.Calls env t w calls (.ioctl cmd) ∧
    w.Matched (w.ioctl env t cmd).1 calls := by
  have htake : ∀ config, w.Matched (w.takeSnapshot env t config).1 [.take t config env (w.mmOf t) (w.task t).regs w.fs (w.task t).files] :=
    fun config hash μ hμ => takeSnapshot_represents h.coherent hμ config
  cases cmd with
  | excludeVmrange start end_ =>
    refine ⟨_, rfl, fun hash μ hμ => ?_⟩
    unfold World.ioctl
    dsimp only
    split
    · exact addVmrange_represents hμ (·.exclude start end_)
    · exact hμ
  | includeVmrange start end_ =>
    refine ⟨_, rfl, fun hash μ hμ => ?_⟩
    unfold World.ioctl
    dsimp only
    split
    · exact addVmrange_represents hμ (·.include_ start end_)
    · exact hμ
  | take config => exact ⟨_, rfl, htake config⟩
  | do_ => exact ⟨_, rfl, htake _⟩
  | restore =>
    obtain ⟨r, henv, hfs, hmatched⟩ := recoverSnapshot_represents env h t
    exact ⟨_, ⟨r, henv, hfs, rfl⟩, hmatched⟩
  | clean => exact ⟨_, rfl, fun hash μ hμ => cleanSnapshot_represents h.coherent hμ t⟩

theorem hooked_mprotect {m start len prot : Nat} : c.Hooked [] (c.mprotect env m start len prot) := by
  unfold Core.mprotect
  split
  · exact .refl c
  · exact (Core.Hooked.refl c).setMem _

theorem hooked_movePages {m old new len : Nat} : c.Hooked [] (c.movePages m old new len) := by
  unfold Core.movePages
  dsimp only
  split
  · exact (Core.Hooked.refl c).setMem _
  · exact .refl c

theorem hooked_swapIn {m page : Nat} {data : Page} {write : Bool} : c.Hooked [] (c.swapIn m page data write) := by
  unfold Core.swapIn
  split
  · split
    · exact .refl c
    · exact (Core.Hooked.refl c).setMem _
  · exact .refl c

/-- Every step is matched by what it calls. -/
theorem step_matched (env : Env) (h : w.Kept) (t : Nat) (op : Op) : ∃ calls, op.Calls env t w calls ∧ w.Matched (w.step env t op) calls := by
  have hhooks : ∀ {w'}, (∃ hooks, w.core.Hooked hooks (World.core w')) →
      ∃ calls, (∃ hooks : List HookCall, calls = hooks.map ModuleCall.hook) ∧ w.Matched w' calls := fun hooked => by
    obtain ⟨hooks, hhooks⟩ := hooked
    exact ⟨_, ⟨hooks, rfl⟩, hhooks.matched⟩
  cases op with
  | read addr => exact ⟨[], rfl, hooked_readByte⟩
  | write addr byte => exact hhooks (hooked_writeByte h.coherent)
  | discard addr => exact ⟨[], rfl, (Core.Hooked.refl w.core).zapPage _ _⟩
  | munmap start len =>
    have hpasses : w.core.Passes env (w.core.doMunmap env (w.task t).mm start len).1 := passes_doMunmap h.coherent
    exact hhooks hpasses.hooked
  | brk brk => exact hhooks (hooked_brkShrink h.coherent)
  | mprotect start len prot => exact ⟨[], rfl, hooked_mprotect⟩
  | mmap start len prot object shared => exact hhooks (hooked_mmapFixed h.coherent)
  | movePages old new len => exact ⟨[], rfl, hooked_movePages⟩
  | swapIn addr data write => exact ⟨[], rfl, hooked_swapIn⟩
  | file op => exact ⟨[], rfl, matched_of_same rfl rfl⟩
  | fork => exact ⟨[], rfl, matched_of_same rfl rfl⟩
  | ioctl cmd => exact ioctl_matched env h t cmd
  | exit => exact ⟨_, rfl, fun hash μ hμ => doExitHook_represents h.coherent hμ t⟩
  | exitGroup =>
    obtain ⟨r, henv, hfs, hmatched⟩ := sysExitGroupHook_represents env h t
    exact ⟨_, ⟨r, henv, hfs, rfl⟩, hmatched⟩

/-! ### Runs -/

/-- What is called while something happens. -/
def Deed.Calls (w : World) : Deed → List ModuleCall → Prop
  | .move env t op, calls => if w.Running t then op.Calls env t w calls else calls = []
  | _, calls => calls = []

theorem happen_matched (h : w.Kept) (a : Deed) : ∃ calls, a.Calls w calls ∧ w.Matched (w.happen a) calls := by
  cases a with
  | move env t op =>
    unfold Deed.Calls World.happen
    dsimp only
    split
    · exact step_matched env h t op
    · exact ⟨[], rfl, matched_of_same rfl rfl⟩
  | fork parent child =>
    refine ⟨[], rfl, ?_⟩
    unfold World.happen
    dsimp only
    split <;> exact matched_of_same rfl rfl
  | clone parent child =>
    refine ⟨[], rfl, ?_⟩
    unfold World.happen
    dsimp only
    split <;> exact matched_of_same rfl rfl
  | lookup cpu t => exact ⟨[], rfl, matched_of_same (withCache_spec h.coherent cpu t).1 rfl⟩

/-- Nothing is allocated yet, and the next record is that of the system. -/
def ModuleMemory.loadedAt (fresh : Nat) : ModuleMemory := { ModuleMemory.loaded with fresh }

theorem loaded_represents (h : w.Loaded) : (ModuleMemory.loadedAt w.core.reg.fresh).Represents hash w.core where
  owned := { ModuleMemory.loaded_owned with below := fun id hid => by cases hid }
  list := h.unlisted
  fresh := rfl
  rcu := h.unfreed
  records id hid := by cases hid
  oops ho := by cases ho

/-- A call of the module, for every hash function at once. -/
def ModuleMemory.steps (μ : (Nat → Fin 256) → ModuleMemory) (call : ModuleCall) : (Nat → Fin 256) → ModuleMemory := fun hash =>
  (μ hash).step hash call

theorem ModuleMemory.steps_eq (calls : List ModuleCall) (μ : (Nat → Fin 256) → ModuleMemory) (hash : Nat → Fin 256) :
    calls.foldl ModuleMemory.steps μ hash = calls.foldl (ModuleMemory.step hash) (μ hash) := by
  induction calls generalizing μ with
  | nil => rfl
  | cons call calls ih => exact ih (ModuleMemory.steps μ call)

/-- A task takes, writes, restores and exits. -/
def takesAndRestores : List Deed :=
  [.move .calm 1 (.ioctl (.take 0)), .move .calm 1 (.write 4096 7), .move .calm 1 (.ioctl .restore), .move .calm 1 .exitGroup]

end
end AflSnapshot
