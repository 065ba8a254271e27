import AflSnapshot.Starting
import AflSnapshot.Lib.Runs
import AflSnapshot.Theorems.Loading
import AflSnapshot.Theorems.TakeFailures

/-! # Calls through unresolved pointers

The device can be opened and hooks run before `mod_init` has resolved the pointers of the module. A task that takes a
snapshot that early makes the module call through a null pointer, at once or later. While no take needs a pointer that
is not there, none is called through. -/

namespace AflSnapshot
open Runs AflSnapshot.Module

/-! ### The steps of `mod_init` -/

section
variable {env : LoadEnv} {m : Module}

/-- Taking hooks back does not read the list. -/
theorem freeHooks_hooks (l hooks : List Nat) (m : Module) :
    l.foldl (fun m n => (m.setRegistered (.node n) false).freeHook n) { m with hooks } =
      { l.foldl (fun m n => (m.setRegistered (.node n) false).freeHook n) m with hooks } := by
  induction l generalizing m with
  | nil => rfl
  | cons n l ih => exact ih ((m.setRegistered (.node n) false).freeHook n)

variable (env) in
/-- `unhook_all`, hook by hook. -/
theorem unhooks_eq (l : List Nat) (m : Module) (h : m.hooks = l) :
    (l.map LoadStep.unhook).foldl (fun m s => (s.run env m).1) m = m.unhookAll := by
  induction l generalizing m with
  | nil =>
    unfold Module.unhookAll
    rw [h]
    exact congrArg (fun hooks => { m with hooks }) h
  | cons n l ih =>
    have hrest : ((LoadStep.unhook n).run env m).1 = { (m.setRegistered (.node n) false).freeHook n with hooks := l } := by
      simp [LoadStep.run, h]
    rw [List.map_cons, List.foldl_cons, hrest, ih _ rfl]
    unfold Module.unhookAll
    rw [freeHooks_hooks, h]
    rfl

variable (env) in
theorem rollBack_eq (i : Nat) (m : Module) :
    ((List.range i).reverse.map LoadStep.fhRemoveHook).foldl (fun m s => (s.run env m).1) m = fhRollBack i m := by
  induction i generalizing m with
  | zero => rfl
  | succ i ih =>
    rw [List.range_succ, List.reverse_append, List.map_append, List.foldl_append]
    exact ih (m.fhRemoveHook i)

variable (env) in
/-- The way back in a row. -/
def LoadStep.unwound (l : LoadStep) (m : Module) : Module := (l.unwind m).foldl (fun m l => (l.run env m).1) m

theorem runSteps_cons (l : LoadStep) (todo : List LoadStep) (m : Module) : runSteps env (l :: todo) m =
    if (l.run env m).2 = 0 then runSteps env todo (l.run env m).1 else l.unwound env (l.run env m).1 := rfl

theorem unwound_array {l : LoadStep} {i : Nat}
    (h : l.unwind m = (List.range i).reverse.map .fhRemoveHook ++ [LoadStep.miscDeregister]) :
    l.unwound env m = (fhRollBack i m).miscDeregister := by
  unfold LoadStep.unwound
  rw [h, List.foldl_append, rollBack_eq]
  rfl

theorem unwound_list {l : LoadStep} (h : l.unwind m = m.hooks.map .unhook ++ [LoadStep.miscDeregister]) :
    l.unwound env m = m.errHooks := by
  unfold LoadStep.unwound
  rw [h, List.foldl_append, unhooks_eq env _ m rfl]
  rfl

/-- The steps of the array, and what follows them. -/
theorem runSteps_install (hooks : List FtraceHook) (i : Nat) (m : Module) (todo : List LoadStep) :
    runSteps env (installSteps hooks i ++ todo) m =
      if (fhInstallHooks env hooks i m).2 ≠ 0 then (fhInstallHooks env hooks i m).1.miscDeregister
      else runSteps env todo (fhInstallHooks env hooks i m).1 := by
  induction hooks generalizing i m with
  | nil => simp [installSteps, fhInstallHooks]
  | cons hook hooks ih =>
    have h1 : ∀ m, (LoadStep.fhResolveHookAddress hook i).unwound env m = (fhRollBack i m).miscDeregister := fun _ => unwound_array rfl
    have h2 : ∀ m, (LoadStep.ftraceSetFilterIp i).unwound env m = (fhRollBack i m).miscDeregister := fun _ => unwound_array rfl
    have h3 : ∀ m, (LoadStep.registerFtraceFunction i).unwound env m = (fhRollBack i m).miscDeregister := fun _ => unwound_array rfl
    rw [fhInstallHooks, fhInstallHook]
    simp only [installSteps, List.cons_append, runSteps_cons, h1, h2, h3, ih, LoadStep.run]
    by_cases hresolve : (m.fhResolveHookAddress env hook i).2 = 0
    swap
    · simp [hresolve]
    by_cases hfilter : ((m.fhResolveHookAddress env hook i).1.ftraceSetFilterIp env i).2 = 0
    swap
    · simp [hresolve, hfilter]
    by_cases hregister : (((m.fhResolveHookAddress env hook i).1.ftraceSetFilterIp env i).1.registerFtraceFunction env
        (.hook i)).2 = 0
    · simp [hresolve, hfilter, hregister]
    · simp [hresolve, hfilter, hregister]

/-- The steps of the list, and what follows them. -/
theorem runSteps_try (hooks : List Hook) (m : Module) (todo : List LoadStep) :
    runSteps env (hooks.map .tryHook ++ todo) m =
      if (tryHooks env hooks m).2 ≠ 0 then (tryHooks env hooks m).1.errHooks
      else runSteps env todo (tryHooks env hooks m).1 := by
  induction hooks generalizing m with
  | nil => simp [tryHooks]
  | cons hook hooks ih =>
    have hback : ∀ m, (LoadStep.tryHook hook).unwound env m = m.errHooks := fun _ => unwound_list rfl
    rw [tryHooks]
    simp only [List.map_cons, List.cons_append, runSteps_cons, hback, ih, LoadStep.run]
    by_cases h : (m.tryHook env hook.symbolName hook.func).2 = 0
    · simp [h]
    · simp [h]

theorem runSteps_resolve (symbols : List (KernelFn × String)) (m : Module) (todo : List LoadStep) :
    runSteps env (symbols.map (fun s => .resolve s.1 s.2) ++ todo) m =
      runSteps env todo (symbols.foldl (fun m s => m.setPointer s.1 (env.kallsymsLookupName s.2)) m) := by
  induction symbols generalizing m with
  | nil => rfl
  | cons s symbols ih =>
    rw [List.map_cons, List.cons_append, List.foldl_cons, ← ih]
    rfl

variable (env m) in
/-- With nothing in between the steps are `mod_init`. -/
theorem runSteps_modInit : runSteps env loadSteps m = (m.modInit env).1 := by
  unfold loadSteps Module.modInit Module.modInitWith
  simp only [List.cons_append, List.append_assoc, runSteps_cons]
  by_cases h : env.miscRegister = 0
  swap
  · simp [LoadStep.run, LoadStep.unwound, LoadStep.unwind, h]
  simp only [LoadStep.run, h, ne_eq, not_true_eq_false, if_false, if_true]
  rw [runSteps_install]
  split
  · rfl
  rw [runSteps_try]
  split
  · rfl
  rw [runSteps_resolve, runSteps_cons, unwound_list rfl]
  unfold Module.resolveNonExportedSymbols
  dsimp only [LoadStep.run, runSteps]
  split <;> simp

end

/-! ### Pointers -/

/-- The pointer is resolved. -/
def Module.Resolved (m : Module) (f : KernelFn) : Prop := m.pointer f ≠ 0

instance {m : Module} {f : KernelFn} : Decidable (m.Resolved f) := inferInstanceAs (Decidable (_ ≠ _))

/-- The steps resolve the module's own pointers, and the original of a hook before the hook is registered. The pointers
    with `ok` are resolved already. -/
def Prepared : (KernelFn → Prop) → List LoadStep → Prop
  | _, [] => True
  | ok, .fhResolveHookAddress hook _ :: todo => hook ∈ ftraceHooks ∧ Prepared (fun f => ok f ∨ f = hook.original) todo
  | ok, .registerFtraceFunction i :: todo => (∀ hook, ftraceHooks[i]? = some hook → ok hook.original) ∧ Prepared ok todo
  | ok, .resolve f name :: todo => (f, name) ∈ nonExportedSymbols ∧ Prepared ok todo
  | ok, _ :: todo => Prepared ok todo

/-- What `mod_init` has resolved and registered, and is still to do. -/
structure Module.Loads (lenv : LoadEnv) (m : Module) (todo : List LoadStep) : Prop where
  prepared : Prepared m.Resolved todo
  found : ∀ s ∈ nonExportedSymbols, m.Resolved s.1 → lenv.kallsymsLookupName s.2 ≠ 0
  originals : ∀ (i : Nat) hook, ftraceHooks[i]? = some hook → m.registered (.hook i) = true → m.Resolved hook.original

section
variable {lenv : LoadEnv} {m : Module} {ok ok' : KernelFn → Prop} {todo : List LoadStep} {l : LoadStep}

theorem Prepared.mono (h : Prepared ok todo) (hok : ∀ f, ok f → ok' f) : Prepared ok' todo := by
  induction todo generalizing ok ok' with
  | nil => trivial
  | cons l todo ih =>
    cases l with
    | fhResolveHookAddress hook i => exact ⟨h.1, ih h.2 fun f hf => hf.imp_left (hok f)⟩
    | registerFtraceFunction i => exact ⟨fun hook hi => hok _ (h.1 hook hi), ih h.2 hok⟩
    | resolve f name => exact ⟨h.1, ih h.2 hok⟩
    | _ => exact @ih ok ok' h hok

/-- The way back neither resolves nor registers anything. -/
theorem prepared_unwind (l : LoadStep) (m : Module) (ok : KernelFn → Prop) : Prepared ok (l.unwind m) := by
  have hremove : ∀ is : List Nat, Prepared ok (is.map .fhRemoveHook ++ [.miscDeregister]) := fun is => by
    induction is with
    | nil => trivial
    | cons i is ih => exact ih
  have hunhook : ∀ ns : List Nat, Prepared ok (ns.map .unhook ++ [.miscDeregister]) := fun ns => by
    induction ns with
    | nil => trivial
    | cons n ns ih => exact ih
  cases l with
  | fhResolveHookAddress hook i => exact hremove _
  | ftraceSetFilterIp i => exact hremove _
  | registerFtraceFunction i => exact hremove _
  | tryHook hook => exact hunhook _
  | checkResolved => exact hunhook _
  | _ => trivial

theorem loads_start (lenv : LoadEnv) : Module.loaded.Loads lenv loadSteps where
  prepared := by
    have hall : ∀ ok, Prepared ok loadSteps := fun ok => by
      simp [loadSteps, installSteps, Prepared, ftraceHooks, triedHooks, nonExportedSymbols]
    exact hall _
  found _ _ h := absurd rfl h
  originals _ _ _ h := by cases h

/-- No pointer is lost. -/
def Module.KeepsResolved (m m' : Module) : Prop := ∀ f, m.Resolved f → m'.Resolved f

/-- The pointers are the same, and no further element of the array is registered. -/
def Module.NoneRegistered (m m' : Module) : Prop :=
  m'.pointer = m.pointer ∧ ∀ i, m'.registered (.hook i) = true → m.registered (.hook i) = true

theorem Module.NoneRegistered.loads {m' : Module} {todo' : List LoadStep} (h : m.NoneRegistered m') (hm : m.Loads lenv todo)
    (hprep : Prepared m.Resolved todo') : m'.Loads lenv todo' ∧ m.KeepsResolved m' := by
  have heq : m'.Resolved = m.Resolved := by
    funext f
    unfold Module.Resolved
    rw [h.1]
  refine ⟨⟨heq ▸ hprep, fun s hs hres => hm.found s hs (heq ▸ hres), fun i hook hi hreg => ?_⟩, fun f hf => heq ▸ hf⟩
  rw [heq]
  exact hm.originals i hook hi (h.2 i hreg)

/-- A step that sets a pointer which is not one of the module's own, or to what the kernel gives for it. -/
theorem Module.Loads.setPointer {todo' : List LoadStep} {f : KernelFn} {a : Nat} (h : m.Loads lenv todo)
    (hfound : ∀ s ∈ nonExportedSymbols, s.1 = f → a = lenv.kallsymsLookupName s.2) (ha : m.Resolved f → a ≠ 0)
    (hprep : m.KeepsResolved (m.setPointer f a) → Prepared (m.setPointer f a).Resolved todo') :
    (m.setPointer f a).Loads lenv todo' ∧ m.KeepsResolved (m.setPointer f a) := by
  have hself : (m.setPointer f a).pointer f = a := Function.update_self ..
  have hother : ∀ g, g ≠ f → (m.setPointer f a).pointer g = m.pointer g := fun g hg => Function.update_of_ne hg ..
  have hkeeps : m.KeepsResolved (m.setPointer f a) := fun g hg => by
    unfold Module.Resolved
    by_cases hgf : g = f
    · subst hgf
      rw [hself]
      exact ha hg
    · rw [hother g hgf]
      exact hg
  refine ⟨⟨hprep hkeeps, fun s hs hres => ?_, fun i hook hi hreg => hkeeps _ (h.originals i hook hi hreg)⟩, hkeeps⟩
  unfold Module.Resolved at hres
  by_cases hsf : s.1 = f
  · rw [hsf, hself, hfound s hs hsf] at hres
    exact hres
  · rw [hother _ hsf] at hres
    exact h.found s hs hres

/-- The originals are no functions that the module looks up, and each of those has one name. -/
theorem original_ne : ∀ hook ∈ ftraceHooks, ∀ s ∈ nonExportedSymbols, s.1 ≠ hook.original := by
  simp [ftraceHooks, nonExportedSymbols]

theorem symbol_unique : ∀ s ∈ nonExportedSymbols, ∀ s' ∈ nonExportedSymbols, s.1 = s'.1 → s = s' := by
  decide

theorem tryHook_noneRegistered (lenv : LoadEnv) (m : Module) (name : String) (handler : Handler) :
    m.NoneRegistered (m.tryHook lenv name handler).1 := by
  have hnode : ∀ (m' : Module) n b i, (m'.setRegistered (.node n) b).registered (.hook i) = m'.registered (.hook i) :=
    fun _ _ _ _ => setRegistered_of_ne _ (by simp)
  unfold Module.tryHook Module.registerFtraceFunction
  dsimp only
  split
  swap
  · exact ⟨rfl, fun _ => id⟩
  split
  · exact ⟨rfl, fun _ => id⟩
  split
  · simp only [ne_eq, not_true_eq_false, if_false]
    exact ⟨rfl, fun i h => by simpa [hnode] using h⟩
  · exact ⟨rfl, fun _ => id⟩

/-- `mod_init` goes on, or back, and no pointer is lost. -/
theorem Module.Loads.run (h : m.Loads lenv (l :: todo)) :
    (l.run lenv m).1.Loads lenv (if (l.run lenv m).2 = 0 then todo else l.unwind (l.run lenv m).1) ∧
      m.KeepsResolved (l.run lenv m).1 := by
  have hback : ∀ m' ok, Prepared ok (l.unwind m') := fun m' ok => prepared_unwind l m' ok
  have hquiet : Prepared m.Resolved todo → m.NoneRegistered (l.run lenv m).1 →
      (l.run lenv m).1.Loads lenv (if (l.run lenv m).2 = 0 then todo else l.unwind (l.run lenv m).1) ∧
        m.KeepsResolved (l.run lenv m).1 := fun hprep hnone =>
    hnone.loads h (by split; exacts [hprep, hback _ _])
  cases l with
  | miscRegister =>
    refine hquiet h.prepared ?_
    dsimp only [LoadStep.run]
    split <;> exact ⟨rfl, fun _ => id⟩
  | fhResolveHookAddress hook i =>
    obtain ⟨hin, hprep⟩ := h.prepared
    have hnone : ∀ a, m.NoneRegistered { m with address := Function.update m.address i a } := fun _ => ⟨rfl, fun _ => id⟩
    by_cases haddress : lenv.kallsymsLookupName hook.name = 0
    · have hrun : (LoadStep.fhResolveHookAddress hook i).run lenv m =
          ({ m with address := Function.update m.address i 0 }, -2) := by
        simp [LoadStep.run, fhResolveHookAddress, haddress]
      rw [hrun, if_neg (by simp)]
      exact (hnone 0).loads h (hback _ _)
    · have hrun : (LoadStep.fhResolveHookAddress hook i).run lenv m =
          (({ m with address := Function.update m.address i (lenv.kallsymsLookupName hook.name) } : Module).setPointer
            hook.original (lenv.kallsymsLookupName hook.name), 0) := by
        simp [LoadStep.run, fhResolveHookAddress, haddress]
      rw [hrun, if_pos rfl]
      refine ((hnone _).loads h h.prepared).1.setPointer (fun s hs heq => absurd heq (original_ne hook hin s hs)) (fun _ => haddress) fun hkeeps => ?_
      refine hprep.mono fun f hf => ?_
      rcases hf with hf | rfl
      · exact hkeeps f hf
      · exact fun h0 => haddress ((Function.update_self ..).symm.trans h0)
  | ftraceSetFilterIp i =>
    refine hquiet h.prepared ?_
    dsimp only [LoadStep.run, Module.ftraceSetFilterIp]
    split <;> exact ⟨rfl, fun _ => id⟩
  | registerFtraceFunction i =>
    obtain ⟨horiginal, hprep⟩ := h.prepared
    by_cases hregister : lenv.registerFtraceFunction (.hook i) = 0
    · have hrun : (LoadStep.registerFtraceFunction i).run lenv m = (m.setRegistered (.hook i) true, 0) :=
        registerFtraceFunction_ok hregister
      rw [hrun, if_pos rfl]
      refine ⟨⟨hprep, h.found, fun j hook hj hreg => ?_⟩, fun f hf => hf⟩
      by_cases hji : j = i
      · subst hji
        exact horiginal hook hj
      · exact h.originals j hook hj (by rwa [setRegistered_of_ne true (by simpa using hji)] at hreg)
    · have hrun : (LoadStep.registerFtraceFunction i).run lenv m = (m, lenv.registerFtraceFunction (.hook i)) :=
        registerFtraceFunction_fails hregister
      rw [hrun, if_neg hregister]
      exact Module.NoneRegistered.loads ⟨rfl, fun _ => id⟩ h (hback _ _)
  | tryHook hook => exact hquiet h.prepared (tryHook_noneRegistered lenv m _ _)
  | resolve f name =>
    obtain ⟨hin, hprep⟩ := h.prepared
    have hname : ∀ s ∈ nonExportedSymbols, s.1 = f → lenv.kallsymsLookupName name = lenv.kallsymsLookupName s.2 :=
      fun s hs heq => by rw [symbol_unique s hs (f, name) hin heq]
    exact h.setPointer hname (h.found (f, name) hin) fun hkeeps => hprep.mono hkeeps
  | checkResolved => exact hquiet h.prepared ⟨rfl, fun _ => id⟩
  | fhRemoveHook i =>
    refine hquiet h.prepared ⟨rfl, fun j hj => ?_⟩
    by_cases hji : j = i
    · subst hji
      simp [LoadStep.run, fhRemoveHook] at hj
    · simpa [LoadStep.run, fhRemoveHook, setRegistered_of_ne false (show FtraceOps.hook j ≠ .hook i by simpa using hji)] using hj
  | unhook n =>
    refine hquiet h.prepared ⟨rfl, fun i hi => ?_⟩
    simpa [LoadStep.run, freeHook, setRegistered_of_ne false (show FtraceOps.hook i ≠ .node n by simp)] using hi
  | miscDeregister => exact hquiet h.prepared ⟨rfl, fun _ => id⟩

end

/-! ### Records -/

namespace TaskData

/-- The record has no page, and no VMA is linked. -/
def Unwalked (d : TaskData) : Prop := d.ss.ssPages = [] ∧ d.ss.snapshottedVmas = []

/-- The record has no table. -/
def Unopened (d : TaskData) : Prop := d.ss.ssFiles.files = none

/-- A record that has neither gets neither. -/
structure NoMore (d d' : TaskData) : Prop where
  walked : d.Unwalked → d'.Unwalked
  opened : d.Unopened → d'.Unopened

theorem NoMore.refl (d : TaskData) : d.NoMore d := ⟨id, id⟩

theorem NoMore.trans {d d₁ d₂ : TaskData} (h₁ : d.NoMore d₁) (h₂ : d₁.NoMore d₂) : d.NoMore d₂ :=
  ⟨fun h => h₂.walked (h₁.walked h), fun h => h₂.opened (h₁.opened h)⟩

/-- Only pages and the dirty list change, and those only where there is a page. -/
theorem NoMore.of_same {d d' : TaskData} (hsame : SameButPages d d') (h : d.Unwalked → d' = d) : d.NoMore d' where
  walked hd := (h hd).symm ▸ hd
  opened hd := by
    unfold Unopened
    rw [hsame]
    exact hd

theorem Unwalked.missing {d : TaskData} (h : d.Unwalked) (page : Nat) : d.getSnapshotPage page = none := by
  unfold getSnapshotPage
  rw [h.1]
  rfl

end TaskData

/-- No record gets a page, a linked VMA or a table. -/
def Registry.NoMore (reg reg' : Registry) : Prop := ∀ id, (reg.data id).NoMore (reg'.data id)

section
variable {env : Env} {t id config m page start len : Nat} {c c' : Core} {w w' : World} {reg reg₁ reg₂ : Registry} {d : TaskData}

theorem Registry.NoMore.refl (reg : Registry) : reg.NoMore reg := fun _ => .refl _

theorem Registry.NoMore.trans (h₁ : reg.NoMore reg₁) (h₂ : reg₁.NoMore reg₂) : reg.NoMore reg₂ :=
  fun id => (h₁ id).trans (h₂ id)

theorem noMore_setData (h : (reg.data id).NoMore d) : reg.NoMore (reg.setData id d) := fun i => by
  by_cases hi : i = id
  · subst hi
    rwa [setData_same]
  · rw [setData_of_ne hi]
    exact .refl _

theorem noMore_modifyData (c : Core) (id : Nat) {f : TaskData → TaskData} (h : ∀ d : TaskData, d.NoMore (f d)) :
    c.reg.NoMore (c.modifyData id f).reg := noMore_setData (h _)

theorem noMore_new (reg : Registry) (t : Nat) (alloc : Bool) : reg.NoMore (reg.ensureTaskData t alloc).1 := by
  unfold Registry.ensureTaskData
  split
  · exact .refl reg
  split
  · have hnew : (reg.data reg.fresh).NoMore (.new t) := ⟨fun _ => ⟨rfl, rfl⟩, fun _ => rfl⟩
    exact noMore_setData hnew
  · exact .refl reg

theorem ownerLive_noMore (env : Env) (m : Nat) (c : Core) : c.reg.NoMore (c.ownerLive env m).1.reg := by
  unfold Core.ownerLive Registry.getTaskDataWithCache
  dsimp only
  split <;> exact fun _ => .refl _

theorem recordDirtyPage_noMore (d : TaskData) (page : Nat) (original : Page) (alloc : Bool) :
    d.NoMore (d.recordDirtyPage page original alloc).1 :=
  .of_same (recordDirtyPage_spec d page original alloc).1.same fun h => by
    unfold TaskData.recordDirtyPage
    rw [h.missing]

theorem recordDirtyPages_noMore (d : TaskData) (original : Nat → Page) (alloc : Nat → Bool) (addrs : List Nat) :
    d.NoMore (d.recordDirtyPages original alloc addrs) := by
  unfold TaskData.recordDirtyPages
  induction addrs generalizing d with
  | nil => exact .refl d
  | cons a addrs ih => exact (recordDirtyPage_noMore d a _ _).trans (ih _)

theorem doWpPageHook_noMore (env : Env) (m page : Nat) (c : Core) : c.reg.NoMore (c.doWpPageHook env m page).1.reg := by
  have hlook := ownerLive_noMore env m c
  unfold Core.doWpPageHook
  rcases hown : c.ownerLive env m with ⟨c₁, _ | id⟩
  · rwa [hown] at hlook
  rw [hown] at hlook
  dsimp only
  have hrec := hlook.trans (@noMore_setData id _ _
    (recordDirtyPage_noMore (c₁.reg.data id) page (c₁.mem.frame ((c₁.mem.mm m).pte page).pfn).data (env.pageData page)))
  split
  · exact hrec
  · split <;> exact hrec

theorem pageAddNewAnonRmapHook_noMore (env : Env) (m page : Nat) (c : Core) :
    c.reg.NoMore (c.pageAddNewAnonRmapHook env m page).reg := by
  have hlook := ownerLive_noMore env m c
  unfold Core.pageAddNewAnonRmapHook
  rcases hown : c.ownerLive env m with ⟨c₁, _ | id⟩
  · rwa [hown] at hlook
  rw [hown] at hlook
  dsimp only
  cases hadd : (c₁.reg.data id).pageAddNewAnonRmap page (env.snapshotPage page) with
  | none => exact hlook
  | some d =>
    refine hlook.trans (noMore_setData ?_)
    rcases pageAddNewAnonRmap_spec (c₁.reg.data id) page (env.snapshotPage page) with ⟨d', hd', hupd⟩ | ⟨-, hnone⟩
    · obtain rfl : d' = d := Option.some.inj (hd'.symm.trans hadd)
      refine .of_same hupd.same fun h => ?_
      -- Neither has the page an entry nor is it in a linked VMA.
      unfold TaskData.pageAddNewAnonRmap TaskData.isSnapshottedAddress at hadd
      rw [h.missing, h.2] at hadd
      exact (Option.some.inj hadd).symm
    · rw [hnone] at hadd
      cases hadd

theorem doMunmapHook_noMore (env : Env) (m start len : Nat) (c : Core) :
    c.reg.NoMore (c.doMunmapHook env m start len).reg := by
  have hlook := ownerLive_noMore env m c
  unfold Core.doMunmapHook
  rcases hown : c.ownerLive env m with ⟨c₁, _ | id⟩
  · rwa [hown] at hlook
  rw [hown] at hlook
  exact hlook.trans (noMore_setData (recordDirtyPages_noMore _ _ _ _))

theorem modifyPage_noMore (d : TaskData) (page : Nat) (f : SnapshotPage → SnapshotPage) : d.NoMore (d.modifyPage page f) where
  walked h := by
    refine ⟨?_, h.2⟩
    unfold TaskData.modifyPage
    rw [h.1]
    rfl
  opened := id

theorem dequeue_noMore (c : Core) (id page : Nat) : c.reg.NoMore (c.dequeue id page).reg :=
  noMore_modifyData c id fun d =>
    have h := modifyPage_noMore d page SnapshotPage.leaveDirtyList
    ⟨h.walked, h.opened⟩

theorem recoverPage_noMore (env : Env) (m id : Nat) (sp : SnapshotPage) (c : Core) (hcopy : ∀ page, env.copyToUser page = false) :
    c.reg.NoMore (c.recoverPage env m id sp).reg := by
  have hc : (c.copyToUser env m sp.pageBase (sp.pageData.getD fun _ => 0)).1 = c := by
    unfold Core.copyToUser
    rw [hcopy, if_neg (by simp)]
  unfold Core.recoverPage
  dsimp only
  rw [hc]
  set c₁ := c.modifyData id fun d => d.modifyPage sp.pageBase fun sp => { sp with dirty := false, hasHadPte := true } with hc₁
  have h₁ : c.reg.NoMore c₁.reg := noMore_modifyData c id fun d => modifyPage_noMore d _ _
  split
  · set c₂ := c₁.setMem (c₁.mem.setPte m sp.pageBase ((c₁.mem.mm m).pte sp.pageBase).wrprotect)
    have h₂ : c₁.reg.NoMore (c₂.modifyData id fun d => d.modifyPage sp.pageBase SnapshotPage.setPrivate).reg :=
      noMore_modifyData c₂ id fun d => modifyPage_noMore d _ _
    exact (h₁.trans h₂).trans (dequeue_noMore _ _ _)
  · exact h₁

theorem recoverNonePte_noMore (m id page : Nat) (c : Core) : c.reg.NoMore (c.recoverNonePte m id page).reg := by
  have hzap : (c.zapPage m page).reg = c.reg := by
    unfold Core.zapPage
    split <;> rfl
  unfold Core.recoverNonePte
  refine Registry.NoMore.trans ?_ (dequeue_noMore _ _ _)
  rw [← hzap]
  exact noMore_modifyData _ id fun d => modifyPage_noMore d _ _

theorem recoverEntry_noMore (env : Env) (m id page : Nat) (c : Core) (hcopy : ∀ page, env.copyToUser page = false) :
    c.reg.NoMore (c.recoverEntry env m id page).reg := by
  unfold Core.recoverEntry
  split
  · exact .refl _
  split
  · exact recoverPage_noMore env m id _ c hcopy
  split
  · exact dequeue_noMore c id page
  split
  · exact recoverNonePte_noMore m id page c
  · exact dequeue_noMore c id page

/-! ### Commands -/

theorem addVmrange_noMore (env : Env) (t : Nat) (w : World) (f : RangeLists → RangeLists) :
    w.core.reg.NoMore (w.addVmrange env t f).core.reg := by
  have hnew := noMore_new w.core.reg t env.kzallocTaskData
  unfold World.addVmrange World.ensureTaskData
  rcases hens : w.core.reg.ensureTaskData t env.kzallocTaskData with ⟨reg₁, _ | id⟩
  all_goals
    rw [hens] at hnew
    dsimp only
    split
  · exact hnew
  · exact hnew
  · refine hnew.trans (noMore_setData ?_)
    exact ⟨fun h => h, fun h => h⟩
  · exact hnew

theorem cleanFiles_none (fs : Files) (d : TaskData) : (fs.cleanFilesSnapshot d).2 = ⟨none, none⟩ := by
  unfold Files.cleanFilesSnapshot
  split <;> rfl

theorem cleanSnapshot_noMore (w : World) (t : Nat) : w.core.reg.NoMore (w.cleanSnapshot t).core.reg := by
  unfold World.cleanSnapshot
  cases hget : w.core.reg.getTaskData t with
  | none => exact .refl _
  | some id =>
    dsimp only
    rw [cleanFiles_none]
    set c₁ := w.core.cleanMemorySnapshot id with hc₁
    have h₁ : w.core.reg.NoMore c₁.reg :=
      noMore_modifyData { w.core with reg := w.core.reg.invalidateTaskDataCache (w.core.reg.data id).tsk } id
        (f := fun d => { d with ss := { d.ss with allVmas := [], snapshottedVmas := [], ssPages := [] } })
        fun d => ⟨fun _ => ⟨rfl, rfl⟩, fun h => h⟩
    have h₂ : c₁.reg.NoMore (c₁.modifyData id fun d => { d with ss := { d.ss with ssFiles := ⟨none, none⟩ } }).reg :=
      noMore_modifyData c₁ id fun d => ⟨fun h => h, fun _ => rfl⟩
    exact (h₁.trans h₂).trans (noMore_modifyData _ id fun d => ⟨fun h => h, fun h => h⟩)

theorem doExitHook_noMore (w : World) (t : Nat) : w.core.reg.NoMore (w.doExitHook t).core.reg := by
  rcases doExitHook_cases w t with heq | heq <;> rw [heq]
  · exact .refl _
  · exact cleanSnapshot_noMore w t

theorem recoverThreads_reg (w : World) (t : Nat) : (w.recoverThreadsSnapshot t).core.reg = w.core.reg := by
  rw [(recoverThreads_same w t).core]

/-! ### Take -/

/-- The VMAs that are skipped leave no pages and no links. -/
theorem takeVmas_skipped (alloc : TakeAlloc) (vmas : List VmArea) (s : WalkState)
    (h : ∀ v ∈ vmas, skipsVma s.data s.mm v = true) :
    (takeVmas alloc vmas s).1.data.ss.ssPages = s.data.ss.ssPages ∧
      (takeVmas alloc vmas s).1.data.ss.snapshottedVmas = s.data.ss.snapshottedVmas ∧ (takeVmas alloc vmas s).1.mm = s.mm := by
  induction vmas generalizing s with
  | nil => exact ⟨rfl, rfl, rfl⟩
  | cons v vmas ih =>
    rw [takeVmas]
    unfold TaskData.addSnapshotVma
    cases alloc.snapshotVma v.vmStart with
    | false => exact ⟨rfl, rfl, rfl⟩
    | true =>
      simp only [if_true]
      have hskip : ∀ u, skipsVma { s.data with ss := { s.data.ss with allVmas := s.data.ss.allVmas ++
          [TaskData.snapshotVmaOf v (alloc.garbage v.vmStart)] } } s.mm u = skipsVma s.data s.mm u :=
        fun u => skipsVma_congr rfl rfl rfl u
      rw [if_pos ((hskip v).trans (h v List.mem_cons_self))]
      exact ih _ fun u hu => (hskip u).trans (h u (List.mem_cons_of_mem _ hu))

theorem config_kept (alloc : TakeAlloc) (config : Nat) : WalkKeeps alloc fun s => s.data.config = config where
  cached _ _ h := h
  page s p h := by
    rcases makeSnapshotPage_cases s.data s.mm p (alloc.snapshotPage p) with ⟨sp, data', hadd, -, hmake⟩ | ⟨-, -, hmake⟩ <;>
      simp only [hmake]
    · rw [hadd.same]
      exact h
    · exact h
  vma _ _ _ _ h := h

/-- The record that a take works on. -/
theorem ensureTaskData_record {w' : World} (h : w.ensureTaskData env t = (w', some id)) :
    w'.core.reg.data id = w.recordFor t ∧ w'.core.mem = w.core.mem ∧ w'.task = w.task ∧ w'.fs = w.fs := by
  unfold World.ensureTaskData Registry.ensureTaskData at h
  unfold World.recordFor World.recordOf
  cases hget : w.core.reg.getTaskData t with
  | some i =>
    rw [hget] at h
    cases h
    exact ⟨rfl, rfl, rfl, rfl⟩
  | none =>
    rw [hget] at h
    cases halloc : env.kzallocTaskData with
    | false =>
      rw [halloc] at h
      cases h
    | true =>
      rw [halloc] at h
      cases h
      exact ⟨setData_same, rfl, rfl, rfl⟩

/-- The task would get a snapshot by a take, with a VMA to walk. -/
def World.WalksVma (w : World) (t config : Nat) : Prop :=
  (w.recordFor t).haveSnapshot = false ∧
    ∃ v ∈ (w.mmOf t).mmap, skipsVma (w.initialized t config (w.recordFor t)) (w.mmOf t) v = false

/-- The task would get a snapshot by a take, with its files. -/
def World.SavesFiles (w : World) (t config : Nat) : Prop :=
  (w.recordFor t).haveSnapshot = false ∧ hasFlag config aflSnapshotFds = true

/-- The core after the walk of a take. -/
theorem walk_eq (config : Nat) (hens : w.ensureTaskData env t = (w', some id)) :
    ((w'.initializeSnapshot t id config).core.takeMemorySnapshot env (w.task t).mm id).1 =
      ⟨w.core.mem.setMm (w.task t).mm (w.taking env t config (w.recordFor t)).1.2,
        (w'.core.reg.invalidateTaskDataCache (w'.core.reg.data id).tsk).setData id (w.taking env t config (w.recordFor t)).1.1,
        w'.core.oops⟩ := by
  obtain ⟨hdata, hmem, htask, -⟩ := ensureTaskData_record hens
  have hinit : w'.initialized t config (w'.core.reg.data id) = w.initialized t config (w.recordFor t) := by
    unfold World.initialized World.mmOf
    rw [hdata, hmem, htask]
  have hwalk := takeMemorySnapshot_modifyData env w'.core (w.task t).mm id (w'.initialized t config) rfl
  rw [hinit, hmem] at hwalk
  exact hwalk

/-- What a take does to the records: none, or it makes a snapshot in one. -/
theorem takeSnapshot_records (env : Env) (t config : Nat) (w : World) :
    w.core.reg.NoMore (w.takeSnapshot env t config).1.core.reg ∨
    (w.recordFor t).haveSnapshot = false ∧ ∃ w₁ id, w.ensureTaskData env t = (w₁, some id) ∧
      (∀ i, i ≠ id → (w₁.core.reg.data i).NoMore ((w.takeSnapshot env t config).1.core.reg.data i)) ∧
      ∃ fs : Files, (w.takeSnapshot env t config).1.core.reg.data id = (w.taking env t config (w.recordFor t)).1.1.withFiles
        (fs.takeFilesSnapshot env (w.task t).files (w.taking env t config (w.recordFor t)).1.1).1.2 := by
  have hnew := noMore_new w.core.reg t env.kzallocTaskData
  have hensured : ∀ {w₁ o}, w.ensureTaskData env t = (w₁, o) → w.core.reg.NoMore w₁.core.reg := fun {w₁ o} h => by
    rw [show w₁ = (w.ensureTaskData env t).1 by rw [h]]
    exact hnew
  unfold World.takeSnapshot
  rcases hens : w.ensureTaskData env t with ⟨w₁, _ | id⟩
  · have hnone : w.core.reg.NoMore w₁.core.reg := hensured hens
    exact Or.inl hnone
  obtain ⟨hdata, -, htask, -⟩ := ensureTaskData_record hens
  dsimp only
  split
  · exact Or.inl (hensured hens)
  rename_i hmade
  rw [hdata] at hmade
  have hwalk := walk_eq config hens
  refine Or.inr ⟨by simpa using hmade, w₁, id, rfl, fun i hi => ?_, w₁.fs, ?_⟩
  · show (w₁.core.reg.data i).NoMore
      ((((w₁.initializeSnapshot t id config).core.takeMemorySnapshot env (w₁.task t).mm id).1.reg.setData id _).data i)
    rw [setData_of_ne hi, htask, hwalk]
    dsimp only
    rw [setData_of_ne hi]
    exact .refl _
  · show ((((w₁.initializeSnapshot t id config).core.takeMemorySnapshot env (w₁.task t).mm id).1.reg.setData id
      (TaskData.withFiles (((w₁.initializeSnapshot t id config).core.takeMemorySnapshot env (w₁.task t).mm id).1.reg.data id)
        (w₁.fs.takeFilesSnapshot env (w₁.task t).files
          (((w₁.initializeSnapshot t id config).core.takeMemorySnapshot env (w₁.task t).mm id).1.reg.data id)).1.2)).data id) = _
    rw [setData_same, htask, hwalk]
    dsimp only
    rw [setData_same]

/-- Where a take has no VMA to walk no record gets a page, and where it saves no files none gets a table. -/
theorem takeSnapshot_keeps (env : Env) (t config : Nat) (w : World) :
    (¬w.WalksVma t config → (∀ i, (w.core.reg.data i).Unwalked) → ∀ i, ((w.takeSnapshot env t config).1.core.reg.data i).Unwalked) ∧
      (¬w.SavesFiles t config → (∀ i, (w.core.reg.data i).Unopened) →
        ∀ i, ((w.takeSnapshot env t config).1.core.reg.data i).Unopened) := by
  rcases takeSnapshot_records env t config w with hno | ⟨hmade, w₁, id, hens, hothers, fs, hid⟩
  · exact ⟨fun _ h i => (hno i).walked (h i), fun _ h i => (hno i).opened (h i)⟩
  have hw₁ : w.core.reg.NoMore w₁.core.reg := by
    have hnew := noMore_new w.core.reg t env.kzallocTaskData
    rw [show w₁ = (w.ensureTaskData env t).1 by rw [hens]]
    exact hnew
  have hrecord := (ensureTaskData_record hens).1
  refine ⟨fun hskip h i => ?_, fun hskip h i => ?_⟩
  · by_cases hi : i = id
    · subst hi
      have hold : (w.recordFor t).Unwalked := hrecord ▸ (hw₁ i).walked (h i)
      have hall : ∀ v ∈ (w.mmOf t).mmap, skipsVma (w.initialized t config (w.recordFor t)) (w.mmOf t) v = true := fun v hv => by
        by_contra hno
        exact hskip ⟨hmade, v, hv, by simpa using hno⟩
      obtain ⟨h1, h2, -⟩ := takeVmas_skipped env.take (w.mmOf t).mmap
        ⟨w.initialized t config (w.recordFor t), w.mmOf t, ⟨0, 0⟩⟩ hall
      rw [hid]
      exact ⟨h1.trans hold.1, h2.trans hold.2⟩
    · exact (hothers i hi).walked ((hw₁ i).walked (h i))
  · by_cases hi : i = id
    · subst hi
      have hfds : hasFlag config aflSnapshotFds = false := by
        by_contra hno
        exact hskip ⟨hmade, by simpa using hno⟩
      have hconfig : (w.taking env t config (w.recordFor t)).1.1.config = config :=
        (config_kept env.take config).takeVmas (w.mmOf t).mmap (s := ⟨w.initialized t config (w.recordFor t), w.mmOf t, ⟨0, 0⟩⟩) rfl
      rw [hid]
      unfold Files.takeFilesSnapshot
      rw [hconfig, hfds]
      rfl
    · exact (hothers i hi).opened ((hw₁ i).opened (h i))

end

/-! ### Runs -/

namespace Starting

/-- A take finds the pointers that lead to its pages and to its files. -/
structure TakeReady (s : Starting) (tsk config : Nat) : Prop where
  walks : s.world.WalksVma tsk config →
    s.mod.Resolved .flushTlbMmRange ∧ s.mod.Resolved .zapPageRange ∧ s.mod.Resolved .walkPageVma
  saves : s.world.SavesFiles tsk config → s.mod.Resolved .dupFd ∧ s.mod.Resolved .putFilesStruct

/-- A take finds its pointers, and a `munmap` of a task with a live snapshot the one that leads to its page table. -/
def Permits (s : Starting) : StartEvent → Prop
  | .ioctl _ tsk (.take config) => s.TakeReady tsk config
  | .ioctl _ tsk .do_ => s.TakeReady tsk (aflSnapshotMmap ||| aflSnapshotFds ||| aflSnapshotRegs ||| aflSnapshotExit)
  | .doMunmapHook env m _ _ => (s.world.core.ownerLive env m).2.isSome = true → s.mod.Resolved .walkPageRange
  | _ => True

/-- The records need no pointer that is missing. -/
structure Provided (lenv : LoadEnv) (s : Starting) : Prop where
  loads : s.mod.Loads lenv s.todo
  walked : ¬(s.mod.Resolved .flushTlbMmRange ∧ s.mod.Resolved .zapPageRange ∧ s.mod.Resolved .walkPageVma) →
    ∀ id, (s.world.core.reg.data id).Unwalked
  opened : ¬(s.mod.Resolved .dupFd ∧ s.mod.Resolved .putFilesStruct) → ∀ id, (s.world.core.reg.data id).Unopened

end Starting

section
variable {lenv : LoadEnv} {s : Starting} {env : Env} {t config : Nat} {w : World} {e : StartEvent} {f : KernelFn}
open Starting

theorem Starting.Provided.of_noMore (h : s.Provided lenv) (hw : s.world.core.reg.NoMore w.core.reg) :
    Starting.Provided lenv { s with world := w } :=
  ⟨h.loads, fun hno id => (hw id).walked (h.walked hno id), fun hno id => (hw id).opened (h.opened hno id)⟩

theorem Starting.Provided.take (h : s.Provided lenv) (env : Env) (hready : s.TakeReady t config) :
    Starting.Provided lenv { s with world := (s.world.takeSnapshot env t config).1 } := by
  obtain ⟨h1, h2⟩ := takeSnapshot_keeps env t config s.world
  exact ⟨h.loads, fun hno => h1 (fun hwalk => hno (hready.walks hwalk)) (h.walked hno),
    fun hno => h2 (fun hfiles => hno (hready.saves hfiles)) (h.opened hno)⟩

theorem exitGroupHook_noMore (w : World) (t : Nat) : w.core.reg.NoMore (w.exitGroupHook t).core.reg := by
  unfold World.exitGroupHook
  split
  · exact .refl _
  split
  · rw [recoverThreads_reg]
    exact .refl _
  split
  · exact cleanSnapshot_noMore w t
  · exact .refl _

/-- What a permitted event leaves. -/
theorem Starting.Provided.step (h : s.Provided lenv) (hallow : s.Permits e) : (s.step lenv e).Provided lenv := by
  cases e with
  | load =>
    show (s.load lenv).Provided lenv
    unfold Starting.load
    cases htodo : s.todo with
    | nil => exact h
    | cons l todo =>
      obtain ⟨hloads, hkeeps⟩ := Module.Loads.run (htodo ▸ h.loads)
      exact ⟨hloads, fun hno => h.walked fun hall => hno ⟨hkeeps _ hall.1, hkeeps _ hall.2.1, hkeeps _ hall.2.2⟩,
        fun hno => h.opened fun hall => hno ⟨hkeeps _ hall.1, hkeeps _ hall.2⟩⟩
  | openDevice => exact ⟨h.loads, h.walked, h.opened⟩
  | ioctl env tsk cmd =>
    have hrange : ∀ f, Starting.Provided lenv { s with world := s.world.addVmrange env tsk f } := fun f =>
      h.of_noMore (addVmrange_noMore env tsk s.world f)
    cases cmd with
    | excludeVmrange start end_ =>
      show Starting.Provided lenv { s with world := (if env.copyFromUser then _ else _ : World × Int).1 }
      split
      · exact hrange (·.exclude start end_)
      · exact h
    | includeVmrange start end_ =>
      show Starting.Provided lenv { s with world := (if env.copyFromUser then _ else _ : World × Int).1 }
      split
      · exact hrange (·.include_ start end_)
      · exact h
    | take config => exact h.take env hallow
    | do_ => exact h.take env hallow
    | restore =>
      refine h.of_noMore ?_
      unfold Starting.command
      dsimp only
      split
      · exact .refl _
      · rw [recoverThreads_reg]
        exact .refl _
    | clean => exact h.of_noMore (cleanSnapshot_noMore s.world tsk)
  | recoverEntry env tsk page =>
    refine h.of_noMore ?_
    unfold World.recoverEntry
    split
    · exact .refl _
    · exact recoverEntry_noMore { env with copyToUser := fun _ => false } _ _ page s.world.core fun _ => rfl
  | recoverFiles env tsk =>
    refine h.of_noMore ?_
    unfold World.recoverFiles
    split
    · exact .refl _
    · rw [(recoverFiles_same env s.world tsk _).core]
      exact .refl _
  | doWpPageHook env m page => exact h.of_noMore (doWpPageHook_noMore env m page s.world.core)
  | pageAddNewAnonRmapHook env m page => exact h.of_noMore (pageAddNewAnonRmapHook_noMore env m page s.world.core)
  | doMunmapHook env m start len => exact h.of_noMore (doMunmapHook_noMore env m start len s.world.core)
  | sysExitGroupHook tsk => exact h.of_noMore (exitGroupHook_noMore s.world tsk)
  | doExitHook tsk => exact h.of_noMore (doExitHook_noMore s.world tsk)
  | system w => exact h.of_noMore fun _ => .refl _

/-! ### Calls -/

/-- A take without a VMA to walk neither links nor write-protects anything. -/
theorem takeCalls_spec {env : Env} {t config : Nat} {w : World} (h : w.TakeCalls env t config f) :
    ((f = .walkPageVma ∨ f = .flushTlbMmRange) ∧ w.WalksVma t config) ∨
      ((f = .dupFd ∨ f = .putFilesStruct) ∧ w.SavesFiles t config) := by
  unfold World.TakeCalls at h
  rcases hens : w.ensureTaskData env t with ⟨w₁, _ | id⟩
  · rw [hens] at h
    exact h.elim
  rw [hens] at h
  obtain ⟨hdata, hmem, htask, -⟩ := ensureTaskData_record hens
  dsimp only at h
  split at h
  · exact h.elim
  rename_i hmade
  have hmade : (w.recordFor t).haveSnapshot = false := by simpa [hdata] using hmade
  have hmm : ((w₁.initializeSnapshot t id config).task t).mm = (w.task t).mm := congrArg (fun task => (task t).mm) htask
  rw [hmm, walk_eq config hens] at h
  have hskipped : ¬w.WalksVma t config → (w.taking env t config (w.recordFor t)).1.1.ss.snapshottedVmas =
      (w.recordFor t).ss.snapshottedVmas ∧ (w.taking env t config (w.recordFor t)).1.2 = w.mmOf t := fun hno => by
    obtain ⟨-, h2, h3⟩ := takeVmas_skipped env.take (w.mmOf t).mmap
      ⟨w.initialized t config (w.recordFor t), w.mmOf t, ⟨0, 0⟩⟩ fun v hv => by
        by_contra hv'
        exact hno ⟨hmade, v, hv, by simpa using hv'⟩
    exact ⟨h2, h3⟩
  cases f with
  | walkPageVma =>
    refine Or.inl ⟨Or.inl rfl, ?_⟩
    by_contra hno
    refine h ?_
    show ((Registry.setData _ id _).data id).ss.snapshottedVmas = ((Registry.setData _ id _).data id).ss.snapshottedVmas
    rw [setData_same, setData_same, (hskipped hno).1, ← hdata]
  | flushTlbMmRange =>
    refine Or.inl ⟨Or.inr rfl, ?_⟩
    by_contra hno
    obtain ⟨page, hpage⟩ := h
    refine hpage ?_
    show ((w.core.mem.setMm _ _).mm _).pte page = (w₁.core.mem.mm _).pte page
    rw [(hskipped hno).2, hmem]
    simp [Memory.setMm, World.mmOf]
  | dupFd => exact Or.inr ⟨Or.inl rfl, hmade, h⟩
  | putFilesStruct => exact Or.inr ⟨Or.inr rfl, hmade, h.1⟩
  | _ => exact h.elim

/-- A recorded page is needed for `do_wp_page` to be skipped. -/
theorem doWpPageHook_unwalked (env : Env) (m page : Nat) (c : Core) (h : ∀ id, (c.reg.data id).Unwalked) :
    (c.doWpPageHook env m page).2 = false := by
  have hlook := ownerLive_noMore env m c
  unfold Core.doWpPageHook
  rcases hown : c.ownerLive env m with ⟨c₁, _ | id⟩
  · rfl
  rw [hown] at hlook
  have hmissing : (c₁.reg.data id).getSnapshotPage page = none := ((hlook id).walked (h id)).missing page
  dsimp only
  unfold TaskData.recordDirtyPage
  rw [hmissing]

/-- A permitted event calls through resolved pointers only. -/
theorem Starting.Provided.calls (h : s.Provided lenv) (hpossible : s.Possible e) (hallow : s.Permits e) (hcall : s.Calls e f) :
    s.mod.Resolved f := by
  have htake : ∀ env tsk config, s.TakeReady tsk config → s.world.TakeCalls env tsk config f → s.mod.Resolved f := by
    intro env tsk config hready hcall
    rcases takeCalls_spec hcall with ⟨rfl | rfl, hwalk⟩ | ⟨rfl | rfl, hfiles⟩
    · exact (hready.walks hwalk).2.2
    · exact (hready.walks hwalk).1
    · exact (hready.saves hfiles).1
    · exact (hready.saves hfiles).2
  have hopened : ∀ id, (s.world.core.reg.data id).ss.ssFiles.files ≠ none → s.mod.Resolved .dupFd ∧ s.mod.Resolved .putFilesStruct := by
    intro id hfiles
    by_contra hno
    exact hfiles (h.opened hno id)
  have hwalked : ∀ id page, (s.world.core.reg.data id).getSnapshotPage page ≠ none →
      s.mod.Resolved .flushTlbMmRange ∧ s.mod.Resolved .zapPageRange ∧ s.mod.Resolved .walkPageVma := by
    intro id page hpage
    by_contra hno
    exact hpage ((h.walked hno id).missing page)
  have hclean : ∀ tsk, s.world.CleanCalls tsk f → s.mod.Resolved f := by
    rintro tsk ⟨rfl, id, -, hfiles⟩
    refine (hopened id fun hnone => ?_).2
    rw [hnone] at hfiles
    cases hfiles
  have horiginal : ∀ handler f, (∀ hook ∈ ftraceHooks, hook.function = handler → hook.original = f) → s.mod.ArrayRuns handler →
      s.mod.Resolved f := by
    rintro handler f heq ⟨i, hook, hi, hfun, hreg⟩
    rw [← heq hook (List.mem_of_getElem? hi) hfun]
    exact h.loads.originals i hook hi hreg
  cases e with
  | ioctl env tsk cmd =>
    cases cmd with
    | take config => exact htake env tsk config hallow hcall
    | do_ => exact htake env tsk _ hallow hcall
    | clean => exact hclean tsk hcall
    | _ => exact hcall.elim
  | recoverEntry env tsk page =>
    obtain ⟨id, sp, -, hpage, hf⟩ := hcall
    have hall := hwalked id page (by rw [hpage]; simp)
    cases f with
    | flushTlbMmRange => exact hall.1
    | zapPageRange => exact hall.2.1
    | _ => exact hf.elim
  | recoverFiles env tsk =>
    obtain ⟨id, files, offsets, -, -, hfiles, rfl | ⟨rfl, -⟩⟩ := hcall
    · exact (hopened id (by rw [hfiles]; simp)).1
    · exact (hopened id (by rw [hfiles]; simp)).2
  | doWpPageHook env m page =>
    obtain ⟨rfl, hskip⟩ := hcall
    by_contra hno
    rw [doWpPageHook_unwalked env m page _ (h.walked fun hall => hno hall.1)] at hskip
    cases hskip
  | doMunmapHook env m start len =>
    obtain ⟨rfl, hlive⟩ := hcall
    exact hallow hlive
  | sysExitGroupHook tsk =>
    obtain ⟨-, rfl | ⟨-, -, -, hf⟩⟩ := hcall
    · exact horiginal _ _ (by simp [ftraceHooks]) hpossible
    · exact hclean tsk hf
  | doExitHook tsk =>
    obtain rfl | ⟨-, -, -, hf⟩ := hcall
    · exact horiginal _ _ (by simp [ftraceHooks]) hpossible
    · exact hclean tsk hf
  | _ => exact hcall.elim

theorem start_provided (lenv : LoadEnv) (w : World) : (start w).Provided lenv :=
  ⟨loads_start lenv, fun _ _ => ⟨rfl, rfl⟩, fun _ _ => rfl⟩

/-- Whatever happens while the module is loaded, no pointer is called through before it is resolved, as long as every take
    and every `munmap` finds its own. -/
theorem calls_resolved (hrun : Run (Starting.step lenv) (fun s e => s.Possible e ∧ s.Permits e) (start w) s)
    (hpossible : s.Possible e) (hallow : s.Permits e) : ∀ f, s.Calls e f → s.mod.Resolved f := fun _ hcall =>
  (hrun.invariant (start_provided lenv w) fun _ _ h ha => h.step ha.2).calls hpossible hallow hcall

end

/-- The module is loaded, and its device open. -/
def openedDevice : Starting :=
  (List.replicate 17 StartEvent.load ++ [StartEvent.openDevice]).foldl (Starting.step (.without "")) (.start (.boot heapMm [1]))

theorem calls_resolved_loaded : openedDevice.Calls (.ioctl .calm 1 .do_) .walkPageVma ∧
    ∀ f, openedDevice.Calls (.ioctl .calm 1 .do_) f → openedDevice.mod.Resolved f := by
  refine ⟨?_, calls_resolved (Along.run ?_) rfl ⟨fun _ => ?_, fun _ => ?_⟩⟩
  · show (_ : List SnapshotVma) ≠ _
    decide
  · simp only [List.replicate, List.cons_append, List.nil_append, Along, Starting.Possible, Starting.Permits, and_true, true_and]
    decide
  · decide
  · decide

/-- A process that opens the device at once and takes a snapshot makes the module call `walk_page_vma` through a null
    pointer. -/
theorem calls_resolved_fails : ∃ s, Run (Starting.step (.without "")) Starting.Possible (.start (.boot heapMm [1])) s ∧
    s.Possible (.ioctl .calm 1 .do_) ∧ s.Calls (.ioctl .calm 1 .do_) .walkPageVma ∧ ¬s.mod.Resolved .walkPageVma := by
  refine ⟨_, Run.step (a := StartEvent.openDevice) (Run.step (a := StartEvent.load) Run.start trivial) rfl, rfl, ?_, by decide⟩
  show (_ : List SnapshotVma) ≠ _
  decide

end AflSnapshot
