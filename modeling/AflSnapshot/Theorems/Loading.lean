import AflSnapshot.Loading
import Mathlib.Tactic.ByContra
import Mathlib.Data.List.Basic

/-! # Loading the module

What `mod_init` leaves behind when it fails. A failure in the array of hooks is rolled back but for one filter; a later
one takes back the hooks of the list, and neither their filters nor the hooks of the array. -/

namespace AflSnapshot
open AflSnapshot.Module

/-- Nothing of the module is left in the kernel. -/
structure Module.Clean (m : Module) : Prop where
  registered : ∀ ops, m.registered ops = false
  filtered : ∀ ops, m.filtered ops = false
  allocated : ∀ n, m.allocated n = false
  device : m.device = false

/-- The first `k` elements of the array are hooked. -/
def Module.HasHooks (k : Nat) (m : Module) : Prop :=
  ∀ j, m.registered (.hook j) = decide (j < k) ∧ m.filtered (.hook j) = decide (j < k)

/-- The list and its nodes are as before, and so is the device. -/
structure Module.SameNodes (m m' : Module) : Prop where
  device : m'.device = m.device
  hooks : m'.hooks = m.hooks
  allocated : m'.allocated = m.allocated
  fresh : m'.fresh = m.fresh
  registered : ∀ n, m'.registered (.node n) = m.registered (.node n)
  filtered : ∀ n, m'.filtered (.node n) = m.filtered (.node n)

/-- The elements of the array are hooked as before. -/
def Module.SameHooks (m m' : Module) : Prop :=
  ∀ j, m'.registered (.hook j) = m.registered (.hook j) ∧ m'.filtered (.hook j) = m.filtered (.hook j)

/-- The element number `i` of the array can be found and filtered. -/
def LoadEnv.Filters (env : LoadEnv) (hook : FtraceHook) (i : Nat) : Prop :=
  env.kallsymsLookupName hook.name ≠ 0 ∧ env.ftraceSetFilterIp i = 0

def LoadEnv.Hooks (env : LoadEnv) (hook : FtraceHook) (i : Nat) : Prop :=
  env.Filters hook i ∧ env.registerFtraceFunction (.hook i) = 0

section
variable {env : LoadEnv} {m m' m₁ : Module} {hook : FtraceHook} {hooks : List FtraceHook} {i j k n : Nat}

namespace Module.SameNodes

theorem refl (m : Module) : m.SameNodes m := ⟨rfl, rfl, rfl, rfl, fun _ => rfl, fun _ => rfl⟩

theorem trans (h₁ : m.SameNodes m₁) (h₂ : m₁.SameNodes m') : m.SameNodes m' where
  device := h₂.device.trans h₁.device
  hooks := h₂.hooks.trans h₁.hooks
  allocated := h₂.allocated.trans h₁.allocated
  fresh := h₂.fresh.trans h₁.fresh
  registered n := (h₂.registered n).trans (h₁.registered n)
  filtered n := (h₂.filtered n).trans (h₁.filtered n)

end Module.SameNodes

/-! ### The array -/

@[simp] theorem setRegistered_self (ops : FtraceOps) (b : Bool) : (m.setRegistered ops b).registered ops = b :=
  Function.update_self ..

@[simp] theorem setFiltered_self (ops : FtraceOps) (b : Bool) : (m.setFiltered ops b).filtered ops = b :=
  Function.update_self ..

@[simp] theorem setRegistered_filtered (ops : FtraceOps) (b : Bool) : (m.setRegistered ops b).filtered = m.filtered := rfl

@[simp] theorem setFiltered_registered (ops : FtraceOps) (b : Bool) : (m.setFiltered ops b).registered = m.registered := rfl

theorem setRegistered_of_ne {ops ops' : FtraceOps} (b : Bool) (h : ops' ≠ ops) :
    (m.setRegistered ops b).registered ops' = m.registered ops' := Function.update_of_ne h ..

theorem setFiltered_of_ne {ops ops' : FtraceOps} (b : Bool) (h : ops' ≠ ops) :
    (m.setFiltered ops b).filtered ops' = m.filtered ops' := Function.update_of_ne h ..

theorem sameNodes_setRegistered (m : Module) (i : Nat) (b : Bool) : m.SameNodes (m.setRegistered (.hook i) b) :=
  ⟨rfl, rfl, rfl, rfl, fun _ => setRegistered_of_ne b (by simp), fun _ => rfl⟩

theorem sameNodes_setFiltered (m : Module) (i : Nat) (b : Bool) : m.SameNodes (m.setFiltered (.hook i) b) :=
  ⟨rfl, rfl, rfl, rfl, fun _ => rfl, fun _ => setFiltered_of_ne b (by simp)⟩

theorem registerFtraceFunction_ok {ops : FtraceOps} (h : env.registerFtraceFunction ops = 0) :
    m.registerFtraceFunction env ops = (m.setRegistered ops true, 0) := by
  unfold Module.registerFtraceFunction
  rw [h]
  rfl

theorem registerFtraceFunction_fails {ops : FtraceOps} (h : env.registerFtraceFunction ops ≠ 0) :
    m.registerFtraceFunction env ops = (m, env.registerFtraceFunction ops) := if_neg h

/-- A hook is not found or filtered, is filtered only, or is installed. -/
theorem fhInstallHook_cases (env : LoadEnv) (m : Module) (hook : FtraceHook) (i : Nat) :
    ∃ m₁, m.SameNodes m₁ ∧ m₁.registered = m.registered ∧ m₁.filtered = m.filtered ∧
      (¬env.Filters hook i ∧ (∃ err ≠ 0, m.fhInstallHook env hook i = (m₁, err)) ∨
        env.Filters hook i ∧ env.registerFtraceFunction (.hook i) ≠ 0 ∧
          m.fhInstallHook env hook i = (m₁.setFiltered (.hook i) true, env.registerFtraceFunction (.hook i)) ∨
        env.Hooks hook i ∧
          m.fhInstallHook env hook i = ((m₁.setFiltered (.hook i) true).setRegistered (.hook i) true, 0)) := by
  unfold LoadEnv.Hooks LoadEnv.Filters
  set m₀ : Module := { m with address := Function.update m.address i (env.kallsymsLookupName hook.name) } with hm₀
  have hsame : ∀ f a, m.SameNodes (m₀.setPointer f a) := fun f a => ⟨rfl, rfl, rfl, rfl, fun _ => rfl, fun _ => rfl⟩
  by_cases haddress : env.kallsymsLookupName hook.name = 0
  · refine ⟨m₀, ⟨rfl, rfl, rfl, rfl, fun _ => rfl, fun _ => rfl⟩, rfl, rfl, Or.inl ⟨fun h => h.1 haddress, -2, by simp, ?_⟩⟩
    simp [Module.fhInstallHook, Module.fhResolveHookAddress, haddress, hm₀]
  refine ⟨m₀.setPointer hook.original (env.kallsymsLookupName hook.name), hsame _ _, rfl, rfl, ?_⟩
  by_cases hfilter : env.ftraceSetFilterIp i = 0
  swap
  · refine Or.inl ⟨fun h => hfilter h.2, env.ftraceSetFilterIp i, hfilter, ?_⟩
    simp [Module.fhInstallHook, Module.fhResolveHookAddress, Module.ftraceSetFilterIp, haddress, hfilter, hm₀]
  by_cases hregister : env.registerFtraceFunction (.hook i) = 0
  · refine Or.inr (Or.inr ⟨⟨⟨haddress, hfilter⟩, hregister⟩, ?_⟩)
    simp [Module.fhInstallHook, Module.fhResolveHookAddress, Module.ftraceSetFilterIp, Module.registerFtraceFunction, haddress,
      hfilter, hregister, hm₀]
  · refine Or.inr (Or.inl ⟨⟨haddress, hfilter⟩, hregister, ?_⟩)
    simp [Module.fhInstallHook, Module.fhResolveHookAddress, Module.ftraceSetFilterIp, Module.registerFtraceFunction, haddress,
      hfilter, hregister, hm₀]

/-- The roll-back removes the elements below `i`. -/
theorem fhRollBack_spec (i : Nat) (m : Module) : m.SameNodes (fhRollBack i m) ∧
    ∀ j, (fhRollBack i m).registered (.hook j) = (m.registered (.hook j) && decide (i ≤ j)) ∧
      (fhRollBack i m).filtered (.hook j) = (m.filtered (.hook j) && decide (i ≤ j)) := by
  induction i generalizing m with
  | zero => exact ⟨.refl m, by simp [fhRollBack]⟩
  | succ i ih =>
    obtain ⟨hsame, hhooks⟩ := ih (m.fhRemoveHook i)
    refine ⟨((sameNodes_setRegistered m i false).trans (sameNodes_setFiltered _ i false)).trans hsame, fun j => ?_⟩
    obtain ⟨hreg, hfil⟩ := hhooks j
    unfold fhRollBack
    rw [hreg, hfil]
    by_cases hj : j = i
    · simp [Module.fhRemoveHook, hj]
    · have hne : FtraceOps.hook j ≠ .hook i := by simpa using hj
      have hle : decide (i + 1 ≤ j) = decide (i ≤ j) := by
        rw [decide_eq_decide]
        omega
      rw [hle]
      simp [Module.fhRemoveHook, setRegistered_of_ne false hne, setFiltered_of_ne false hne]

/-- The elements from `i` on are all installed, or the first that is not is left with its filter at most. -/
theorem fhInstallHooks_spec (env : LoadEnv) (hooks : List FtraceHook) (i : Nat) (h : m.HasHooks i) :
    m.SameNodes (fhInstallHooks env hooks i m).1 ∧
      ((∀ k hook, hooks[k]? = some hook → env.Hooks hook (i + k)) ∧ (fhInstallHooks env hooks i m).2 = 0 ∧
          (fhInstallHooks env hooks i m).1.HasHooks (i + hooks.length) ∨
        ∃ k hook, hooks[k]? = some hook ∧ (∀ j h, j < k → hooks[j]? = some h → env.Hooks h (i + j)) ∧
          ¬env.Hooks hook (i + k) ∧ (fhInstallHooks env hooks i m).2 ≠ 0 ∧
          ∀ j, (fhInstallHooks env hooks i m).1.registered (.hook j) = false ∧
            ((fhInstallHooks env hooks i m).1.filtered (.hook j) = true ↔ j = i + k ∧ env.Filters hook (i + k))) := by
  induction hooks generalizing i m with
  | nil => exact ⟨.refl m, Or.inl ⟨by simp, rfl, h⟩⟩
  | cons hook hooks ih =>
    obtain ⟨m₁, hsame, hreg, hfil, hcase⟩ := fhInstallHook_cases env m hook i
    unfold fhInstallHooks
    rcases hcase with ⟨hnot, err, herr, heq⟩ | ⟨hfilters, hnot, heq⟩ | ⟨hok, heq⟩
    · obtain ⟨hback, hhooks⟩ := fhRollBack_spec i m₁
      rw [heq]
      dsimp only
      rw [if_pos herr]
      refine ⟨hsame.trans hback, Or.inr ⟨0, hook, rfl, by simp, fun hok => hnot hok.1, herr, fun j => ?_⟩⟩
      obtain ⟨hreg', hfil'⟩ := hhooks j
      obtain ⟨hhas, hhas'⟩ := h j
      rw [hreg', hfil', hreg, hfil, hhas, hhas']
      simp only [Nat.add_zero, hnot, and_false, iff_false]
      constructor
      · rw [Bool.and_eq_false_iff, decide_eq_false_iff_not, decide_eq_false_iff_not]
        omega
      · rw [Bool.and_eq_true, decide_eq_true_iff, decide_eq_true_iff]
        omega
    · obtain ⟨hback, hhooks⟩ := fhRollBack_spec i (m₁.setFiltered (.hook i) true)
      rw [heq]
      dsimp only
      rw [if_pos hnot]
      refine ⟨(hsame.trans (sameNodes_setFiltered m₁ i true)).trans hback,
        Or.inr ⟨0, hook, rfl, by simp, fun hok => hnot hok.2, hnot, fun j => ?_⟩⟩
      obtain ⟨hreg', hfil'⟩ := hhooks j
      obtain ⟨hhas, hhas'⟩ := h j
      rw [hreg', hfil', setFiltered_registered, hreg, hhas]
      refine ⟨by simp, ?_⟩
      by_cases hj : j = i
      · simp [hj, hfilters]
      · rw [setFiltered_of_ne true (by simpa using hj), hfil, hhas']
        simp [hj]
    · have hhas : ((m₁.setFiltered (.hook i) true).setRegistered (.hook i) true).HasHooks (i + 1) := fun j => by
        obtain ⟨hhas, hhas'⟩ := h j
        by_cases hj : j = i
        · simp [hj]
        · have hlt : decide (j < i + 1) = decide (j < i) := by
            rw [decide_eq_decide]
            omega
          have hne : FtraceOps.hook j ≠ .hook i := by simpa using hj
          rw [setRegistered_of_ne true hne, setRegistered_filtered, setFiltered_of_ne true hne, setFiltered_registered, hreg,
            hfil, hlt]
          exact ⟨hhas, hhas'⟩
      have hinstalled := (hsame.trans (sameNodes_setFiltered m₁ i true)).trans (sameNodes_setRegistered _ i true)
      obtain ⟨hrest, hres⟩ := ih (i + 1) hhas
      have hshift : ∀ k, i + 1 + k = i + (k + 1) := fun k => by omega
      rw [heq]
      dsimp only
      rw [if_neg (by simp)]
      refine ⟨hinstalled.trans hrest, ?_⟩
      rcases hres with ⟨hall, hzero, hlast⟩ | ⟨k, bad, hk, hbefore, hnot, herr, hleft⟩
      · refine Or.inl ⟨fun k hook' hk => ?_, hzero, ?_⟩
        · cases k with
          | zero => exact Option.some.inj hk ▸ hok
          | succ k => exact hshift k ▸ hall k hook' hk
        · rw [List.length_cons, ← hshift]
          exact hlast
      · refine Or.inr ⟨k + 1, bad, hk, fun j hook' hj hj' => ?_, hshift k ▸ hnot, herr, fun j => hshift k ▸ hleft j⟩
        cases j with
        | zero => exact Option.some.inj hj' ▸ hok
        | succ j => exact hshift j ▸ hbefore j hook' (Nat.lt_of_succ_lt_succ hj) hj'

/-! ### The list -/

/-- The list has the first `k` nodes, which are hooked. -/
structure Module.HasNodes (k : Nat) (m : Module) : Prop where
  fresh : m.fresh = k
  hooks : ∀ n, n ∈ m.hooks ↔ n < k
  allocated : ∀ n, m.allocated n = true ↔ n < k
  registered : ∀ n, m.registered (.node n) = true ↔ n < k
  filtered : ∀ n, m.filtered (.node n) = true ↔ n < k

/-- The node number `n` can be allocated and filtered. -/
def LoadEnv.FiltersNode (env : LoadEnv) (n : Nat) : Prop := env.kzallocHook n = true ∧ env.ftraceSetFilter n = 0

def LoadEnv.HooksNode (env : LoadEnv) (n : Nat) : Prop := env.FiltersNode n ∧ env.registerFtraceFunction (.node n) = 0

/-- What is left of the list when `k` nodes were hooked, and the next one failed. -/
structure Module.LeftNodes (env : LoadEnv) (k : Nat) (m : Module) : Prop where
  hooks : ∀ n, n ∈ m.hooks ↔ n < k
  allocated : ∀ n, m.allocated n = true ↔ n < k
  registered : ∀ n, m.registered (.node n) = true ↔ n < k
  filtered : ∀ n, m.filtered (.node n) = true ↔ n < k ∨ n = k ∧ env.FiltersNode k

theorem tryHook_spec (env : LoadEnv) (name : String) (handler : Handler) (h : m.HasNodes k) :
    m.SameHooks (m.tryHook env name handler).1 ∧ (m.tryHook env name handler).1.device = m.device ∧
      (env.HooksNode k ∧ (m.tryHook env name handler).2 = 0 ∧ (m.tryHook env name handler).1.HasNodes (k + 1) ∨
        ¬env.HooksNode k ∧ (m.tryHook env name handler).2 ≠ 0 ∧ (m.tryHook env name handler).1.LeftNodes env k) := by
  unfold Module.tryHook LoadEnv.HooksNode
  rw [h.fresh]
  by_cases halloc : env.kzallocHook k = true
  swap
  · have hnot : ¬env.FiltersNode k := fun hf => halloc hf.1
    dsimp only
    rw [if_neg halloc]
    refine ⟨fun _ => ⟨rfl, rfl⟩, rfl, Or.inr ⟨fun hf => hnot hf.1, by simp, h.hooks, h.allocated, h.registered, fun n => ?_⟩⟩
    rw [h.filtered]
    simp [hnot]
  dsimp only
  rw [if_pos halloc]
  set m₁ : Module := { m with
    node := Function.update m.node k ⟨name, handler⟩
    allocated := Function.update m.allocated k true
    fresh := k + 1 } with hm₁
  -- What the node that is freed leaves.
  have hfreed : ∀ n, (m₁.freeHook k).allocated n = true ↔ n < k := fun n => by
    by_cases hn : n = k
    · simp [Module.freeHook, hn]
    · simp [Module.freeHook, hm₁, hn, h.allocated]
  by_cases hfilter : env.ftraceSetFilter k = 0
  swap
  · have hnot : ¬env.FiltersNode k := fun hf => hfilter hf.2
    rw [if_pos hfilter]
    refine ⟨fun _ => ⟨rfl, rfl⟩, rfl, Or.inr ⟨fun hf => hnot hf.1, hfilter, h.hooks, hfreed, h.registered, fun n => ?_⟩⟩
    show m.filtered (.node n) = true ↔ _
    rw [h.filtered]
    simp [hnot]
  rw [if_neg (not_not.mpr hfilter)]
  have hfilters : env.FiltersNode k := ⟨halloc, hfilter⟩
  have hfil : ∀ n, (m₁.setFiltered (.node k) true).filtered (.node n) = true ↔ n < k ∨ n = k := fun n => by
    by_cases hn : n = k
    · simp [hn]
    · rw [setFiltered_of_ne true (by simpa using hn)]
      exact (h.filtered n).trans (by simp [hn])
  have hsame : m.SameHooks (m₁.setFiltered (.node k) true) := fun j => ⟨rfl, setFiltered_of_ne true (by simp)⟩
  by_cases hregister : env.registerFtraceFunction (.node k) = 0
  swap
  · rw [registerFtraceFunction_fails hregister]
    dsimp only
    rw [if_pos hregister]
    refine ⟨hsame, rfl, Or.inr ⟨fun hf => hregister hf.2, hregister, h.hooks, hfreed, h.registered, fun n => ?_⟩⟩
    exact (hfil n).trans (by simp [hfilters])
  rw [registerFtraceFunction_ok hregister]
  dsimp only
  rw [if_neg (by simp)]
  have hlast : ∀ n, n < k + 1 ↔ n < k ∨ n = k := fun n => by omega
  have hother : ∀ j, FtraceOps.hook j ≠ .node k := fun j => by simp
  refine ⟨fun j => ⟨setRegistered_of_ne true (hother j), (hsame j).2⟩, rfl, Or.inl ⟨⟨hfilters, hregister⟩, rfl, rfl, fun n => ?_,
    fun n => ?_, fun n => ?_, fun n => ?_⟩⟩
  · rw [List.mem_cons, hlast, or_comm]
    exact or_congr_left (h.hooks n)
  · show Function.update m.allocated k true n = true ↔ _
    by_cases hn : n = k
    · simp [hn]
    · rw [Function.update_of_ne hn, h.allocated, hlast]
      simp [hn]
  · by_cases hn : n = k
    · simp [hn]
    · refine (iff_of_eq (congrArg (· = true) (setRegistered_of_ne true (by simpa using hn)))).trans ?_
      rw [hlast]
      exact (h.registered n).trans (by simp [hn])
  · exact (hfil n).trans (hlast n).symm

/-- The nodes are all hooked, or those before the first that is not. -/
theorem tryHooks_spec (env : LoadEnv) (tried : List Hook) (h : m.HasNodes k) :
    m.SameHooks (tryHooks env tried m).1 ∧ (tryHooks env tried m).1.device = m.device ∧
      ((∀ n, n < tried.length → env.HooksNode (k + n)) ∧ (tryHooks env tried m).2 = 0 ∧
          (tryHooks env tried m).1.HasNodes (k + tried.length) ∨
        ∃ n, n < tried.length ∧ ¬env.HooksNode (k + n) ∧ (∀ j, j < n → env.HooksNode (k + j)) ∧
          (tryHooks env tried m).2 ≠ 0 ∧ (tryHooks env tried m).1.LeftNodes env (k + n)) := by
  induction tried generalizing k m with
  | nil => exact ⟨fun _ => ⟨rfl, rfl⟩, rfl, Or.inl ⟨by simp, rfl, h⟩⟩
  | cons hook tried ih =>
    obtain ⟨hsame, hdevice, hcase⟩ := tryHook_spec env hook.symbolName hook.func h
    unfold tryHooks
    rcases hcase with ⟨hok, hzero, hnext⟩ | ⟨hnot, herr, hleft⟩
    · obtain ⟨hsame', hdevice', hrest⟩ := ih hnext
      have hshift : ∀ n, k + 1 + n = k + (n + 1) := fun n => by omega
      dsimp only
      rw [if_neg (not_not.mpr hzero)]
      refine ⟨fun j => ⟨(hsame' j).1.trans (hsame j).1, (hsame' j).2.trans (hsame j).2⟩, hdevice'.trans hdevice, ?_⟩
      rcases hrest with ⟨hall, hlast, hnodes⟩ | ⟨n, hn, hbad, hbefore, herr, hleft⟩
      · refine Or.inl ⟨fun n hn => ?_, hlast, ?_⟩
        · cases n with
          | zero => exact hok
          | succ n => exact hshift n ▸ hall n (Nat.lt_of_succ_lt_succ hn)
        · rw [List.length_cons, ← hshift]
          exact hnodes
      · refine Or.inr ⟨n + 1, Nat.succ_lt_succ hn, hshift n ▸ hbad, fun j hj => ?_, herr, hshift n ▸ hleft⟩
        cases j with
        | zero => exact hok
        | succ j => exact hshift j ▸ hbefore j (Nat.lt_of_succ_lt_succ hj)
    · dsimp only
      rw [if_pos herr]
      exact ⟨hsame, hdevice, Or.inr ⟨0, Nat.succ_pos _, hnot, by simp, by simp, hleft⟩⟩


/-- `unhook_all` unregisters and frees the nodes of the list. -/
theorem unhookAll_spec (m : Module) : m.SameHooks m.unhookAll ∧ m.unhookAll.device = m.device ∧
    ∀ n, (m.unhookAll.registered (.node n) = true ↔ m.registered (.node n) = true ∧ n ∉ m.hooks) ∧
      (m.unhookAll.allocated n = true ↔ m.allocated n = true ∧ n ∉ m.hooks) ∧
      m.unhookAll.filtered (.node n) = m.filtered (.node n) := by
  have hgo : ∀ (l : List Nat) (m : Module),
      let m' := l.foldl (fun m n => (m.setRegistered (.node n) false).freeHook n) m
      m.SameHooks m' ∧ m'.device = m.device ∧ ∀ n, (m'.registered (.node n) = true ↔ m.registered (.node n) = true ∧ n ∉ l) ∧
        (m'.allocated n = true ↔ m.allocated n = true ∧ n ∉ l) ∧ m'.filtered (.node n) = m.filtered (.node n) := by
    intro l
    induction l with
    | nil => simp [Module.SameHooks]
    | cons k l ih =>
      intro m
      obtain ⟨hsame, hdevice, hnodes⟩ := ih ((m.setRegistered (.node k) false).freeHook k)
      have hother : ∀ j, FtraceOps.hook j ≠ .node k := fun j => by simp
      refine ⟨fun j => ⟨(hsame j).1.trans (setRegistered_of_ne false (hother j)), (hsame j).2⟩, hdevice, fun n => ?_⟩
      obtain ⟨hreg, halloc, hfil⟩ := hnodes n
      rw [List.foldl_cons, hreg, halloc, hfil]
      by_cases hn : n = k
      · simp [hn, Module.freeHook]
      · have hne : FtraceOps.node n ≠ .node k := by simpa using hn
        have hreg' : ((m.setRegistered (.node k) false).freeHook k).registered (.node n) = m.registered (.node n) :=
          setRegistered_of_ne false hne
        have halloc' : ((m.setRegistered (.node k) false).freeHook k).allocated n = m.allocated n :=
          Function.update_of_ne hn ..
        rw [hreg', halloc']
        simp [hn, Module.freeHook]
  exact hgo m.hooks m

/-- Pointers are set in a row, each at most once. -/
theorem setPointers_spec (look : String → Nat) (l : List (KernelFn × String)) (hl : (l.map Prod.fst).Nodup) (m : Module) :
    ∃ pointer, l.foldl (fun m s => m.setPointer s.1 (look s.2)) m = { m with pointer } ∧
      (∀ s ∈ l, pointer s.1 = look s.2) ∧ ∀ f, f ∉ l.map Prod.fst → pointer f = m.pointer f := by
  induction l generalizing m with
  | nil => exact ⟨m.pointer, rfl, by simp, fun _ _ => rfl⟩
  | cons s l ih =>
    obtain ⟨hnot, hl⟩ := List.nodup_cons.mp hl
    obtain ⟨pointer, heq, hset, hother⟩ := ih hl (m.setPointer s.1 (look s.2))
    refine ⟨pointer, heq, fun s' hs' => ?_, fun f hf => ?_⟩
    · rcases List.mem_cons.mp hs' with rfl | hs'
      · rw [hother _ hnot]
        exact Function.update_self ..
      · exact hset s' hs'
    · obtain ⟨hne, hf⟩ := not_or.mp fun h => hf (List.mem_cons.mpr h)
      rw [hother f hf]
      exact Function.update_of_ne hne ..

theorem resolveNonExportedSymbols_spec (env : LoadEnv) (m : Module) :
    (∃ pointer, (m.resolveNonExportedSymbols env).1 = { m with pointer }) ∧
      ((m.resolveNonExportedSymbols env).2 = 0 ↔ ∀ s ∈ nonExportedSymbols, env.kallsymsLookupName s.2 ≠ 0) := by
  obtain ⟨pointer, heq, hset, -⟩ := setPointers_spec env.kallsymsLookupName nonExportedSymbols (by decide) m
  unfold Module.resolveNonExportedSymbols
  rw [heq]
  dsimp only
  by_cases hany : nonExportedSymbols.any (fun s => pointer s.1 == 0) = true
  · rw [if_pos hany]
    refine ⟨⟨pointer, rfl⟩, iff_of_false (by simp) fun hall => ?_⟩
    obtain ⟨s, hs, hzero⟩ := List.any_eq_true.mp hany
    exact hall s hs ((hset s hs).symm.trans (by simpa using hzero))
  · rw [if_neg hany]
    refine ⟨⟨pointer, rfl⟩, iff_of_true rfl fun s hs hzero => hany (List.any_eq_true.mpr ⟨s, hs, ?_⟩)⟩
    simpa using (hset s hs).trans hzero

/-! ### `mod_init` -/

/-- All steps of loading go through. -/
structure LoadEnv.Loads (env : LoadEnv) (hooks : List FtraceHook) (tried : List Hook) : Prop where
  device : env.miscRegister = 0
  hooks : ∀ i hook, hooks[i]? = some hook → env.Hooks hook i
  nodes : ∀ n, n < tried.length → env.HooksNode n
  symbols : ∀ s ∈ nonExportedSymbols, env.kallsymsLookupName s.2 ≠ 0

/-- The device cannot be registered, an element of the array not be found or filtered; or there is no element, and no
    node is filtered. -/
def LoadEnv.FailsEarly (env : LoadEnv) (hooks : List FtraceHook) (tried : List Hook) : Prop :=
  env.miscRegister ≠ 0 ∨
  (∃ i hook, hooks[i]? = some hook ∧ (∀ j h, j < i → hooks[j]? = some h → env.Hooks h j) ∧ ¬env.Filters hook i) ∨
  hooks = [] ∧ (tried = [] ∨ ¬env.FiltersNode 0)


theorem loaded_hasHooks : Module.loaded.HasHooks 0 := fun _ => by simp [Module.loaded]

theorem loaded_clean : Module.loaded.Clean := ⟨fun _ => rfl, fun _ => rfl, fun _ => rfl, rfl⟩

/-- What the label `err_hooks` leaves after `k` nodes were hooked. -/
theorem errHooks_clean_iff (hhooks : ∀ n, n ∈ m.hooks ↔ n < k) (halloc : ∀ n, m.allocated n = true ↔ n < k)
    (hreg : ∀ n, m.registered (.node n) = true ↔ n < k) : m.errHooks.Clean ↔
      (∀ j, m.registered (.hook j) = false ∧ m.filtered (.hook j) = false) ∧ ∀ n, m.filtered (.node n) = false := by
  obtain ⟨hsame, -, hnodes⟩ := unhookAll_spec m
  constructor
  · intro h
    exact ⟨fun j => ⟨(hsame j).1.symm.trans (h.registered _), (hsame j).2.symm.trans (h.filtered _)⟩,
      fun n => (hnodes n).2.2.symm.trans (h.filtered _)⟩
  · intro ⟨harray, hlist⟩
    refine ⟨fun ops => ?_, fun ops => ?_, fun n => ?_, rfl⟩
    · cases ops with
      | hook j => exact (hsame j).1.trans (harray j).1
      | node n =>
        refine Bool.eq_false_iff.mpr fun h => ?_
        obtain ⟨hr, hn⟩ := (hnodes n).1.mp h
        exact hn ((hhooks n).mpr ((hreg n).mp hr))
    · cases ops with
      | hook j => exact (hsame j).2.trans (harray j).2
      | node n => exact (hnodes n).2.2.trans (hlist n)
    · refine Bool.eq_false_iff.mpr fun h => ?_
      obtain ⟨ha, hn⟩ := (hnodes n).2.1.mp h
      exact hn ((hhooks n).mpr ((halloc n).mp ha))

/-- With elements in the array the hooks are not taken back. -/
theorem not_clean_of_hasHooks (h : m.HasHooks hooks.length) (hne : hooks ≠ []) :
    ¬∀ j, m.registered (.hook j) = false ∧ m.filtered (.hook j) = false := fun hall => by
  have hreg := (hall 0).1
  rw [(h 0).1, decide_eq_false_iff_not] at hreg
  exact hreg (List.length_pos_iff.mpr hne)

theorem HasHooks.none (h : m.HasHooks 0) (j : Nat) : m.registered (.hook j) = false ∧ m.filtered (.hook j) = false := by
  obtain ⟨hreg, hfil⟩ := h j
  exact ⟨hreg.trans (by simp), hfil.trans (by simp)⟩

/-- Where the device is registered and the array fails at the element number `k`, this is early if the element is not
    filtered. -/
theorem failsEarly_of_array {tried : List Hook} {bad : FtraceHook} (hmisc : env.miscRegister = 0) (hk : hooks[k]? = some bad)
    (hbefore : ∀ j h, j < k → hooks[j]? = some h → env.Hooks h j) (hnot : ¬env.Hooks bad k) :
    env.FailsEarly hooks tried ↔ ¬env.Filters bad k := by
  refine ⟨fun h => ?_, fun hnf => Or.inr (Or.inl ⟨k, bad, hk, hbefore, hnf⟩)⟩
  rcases h with hdevice | ⟨i, hook, hi, hfirst, hnf⟩ | ⟨hnil, -⟩
  · exact absurd hmisc hdevice
  · rcases Nat.lt_trichotomy i k with hlt | rfl | hlt
    · exact absurd (hbefore i hook hlt hi).1 hnf
    · rw [hk] at hi
      exact Option.some.inj hi ▸ hnf
    · exact absurd (hfirst k bad hlt hk) hnot
  · rw [hnil] at hk
    cases hk

/-- Where the array is installed, a failure is early if there are neither elements nor filtered nodes. -/
theorem failsEarly_of_installed {tried : List Hook} (hmisc : env.miscRegister = 0)
    (hall : ∀ i hook, hooks[i]? = some hook → env.Hooks hook i) :
    env.FailsEarly hooks tried ↔ hooks = [] ∧ (tried = [] ∨ ¬env.FiltersNode 0) := by
  refine ⟨fun h => ?_, fun h => Or.inr (Or.inr h)⟩
  rcases h with hdevice | ⟨i, hook, hi, -, hnf⟩ | hempty
  · exact absurd hmisc hdevice
  · exact absurd (hall i hook hi).1 hnf
  · exact hempty

/-- A `mod_init` that fails leaves nothing behind if and only if it fails early. -/
theorem modInit_clean_iff (env : LoadEnv) (hooks : List FtraceHook) (tried : List Hook) :
    ((Module.loaded.modInitWith env hooks tried).2 ≠ 0 → (Module.loaded.modInitWith env hooks tried).1.Clean) ↔
      env.Loads hooks tried ∨ env.FailsEarly hooks tried := by
  unfold Module.modInitWith
  by_cases hmisc : env.miscRegister = 0
  swap
  · rw [if_pos hmisc]
    exact iff_of_true (fun _ => loaded_clean) (Or.inr (Or.inl hmisc))
  rw [if_neg (not_not.mpr hmisc)]
  have hstart : Module.HasHooks 0 { Module.loaded with device := true } := loaded_hasHooks
  obtain ⟨hsame, hcase⟩ := fhInstallHooks_spec env hooks 0 hstart
  simp only [Nat.zero_add] at hcase
  dsimp only
  generalize fhInstallHooks env hooks 0 { Module.loaded with device := true } = r at hsame hcase
  rcases hcase with ⟨hall, hzero, hhas⟩ | ⟨k, bad, hk, hbefore, hnot, herr, hleft⟩
  swap
  · -- The array is rolled back, less the filter of the element that failed.
    have hloads : ¬env.Loads hooks tried := fun h => hnot (h.hooks k bad hk)
    rw [if_pos herr, failsEarly_of_array hmisc hk hbefore hnot, or_iff_right hloads]
    constructor
    · intro hclean hf
      have hfil := (hclean herr).filtered (.hook k)
      rw [Bool.eq_false_iff] at hfil
      exact hfil ((hleft k).2.mpr ⟨rfl, hf⟩)
    · intro hnf _
      refine ⟨fun ops => ?_, fun ops => ?_, fun n => congrFun hsame.allocated n, rfl⟩
      · cases ops with
        | hook j => exact (hleft j).1
        | node n => exact hsame.registered n
      · cases ops with
        | hook j => exact Bool.eq_false_iff.mpr fun h => hnf ((hleft j).2.mp h).2
        | node n => exact hsame.filtered n
  have hnodes : r.1.HasNodes 0 := by
    refine ⟨hsame.fresh, fun n => ?_, fun n => ?_, fun n => ?_, fun n => ?_⟩
    · rw [hsame.hooks]
      simp [Module.loaded]
    · rw [hsame.allocated]
      simp [Module.loaded]
    · rw [hsame.registered]
      simp [Module.loaded]
    · rw [hsame.filtered]
      simp [Module.loaded]
  obtain ⟨harray, -, hcase⟩ := tryHooks_spec env tried hnodes
  simp only [Nat.zero_add] at hcase
  rw [if_neg (not_not.mpr hzero), failsEarly_of_installed hmisc hall]
  generalize tryHooks env tried r.1 = r' at harray hcase
  have hhas' : r'.1.HasHooks hooks.length := fun j =>
    ⟨(harray j).1.trans (hhas j).1, (harray j).2.trans (hhas j).2⟩
  rcases hcase with ⟨hall', hzero', hlist⟩ | ⟨n, hn, hnot, hbefore, herr, hleft⟩
  swap
  · -- A node of the list fails.
    have hloads : ¬env.Loads hooks tried := fun h => hnot (h.nodes n hn)
    rw [if_pos herr, or_iff_right hloads]
    dsimp only
    rw [errHooks_clean_iff hleft.hooks hleft.allocated hleft.registered]
    constructor
    · intro hclean
      obtain ⟨hnone, hfil⟩ := hclean herr
      refine ⟨by_contra fun hne => not_clean_of_hasHooks hhas' hne hnone, Or.inr fun hf => ?_⟩
      have hzero : (0 : Nat) < n ∨ 0 = n ∧ env.FiltersNode n := by
        rcases Nat.eq_zero_or_pos n with rfl | hpos
        · exact Or.inr ⟨rfl, hf⟩
        · exact Or.inl hpos
      exact Bool.eq_false_iff.mp (hfil 0) ((hleft.filtered 0).mpr hzero)
    · rintro ⟨rfl, hempty⟩ -
      have hnf : ¬env.FiltersNode 0 := by
        rcases hempty with rfl | hnf
        · cases hn
        · exact hnf
      have hfirst : n = 0 := by
        by_contra hpos
        exact hnf (hbefore 0 (Nat.pos_of_ne_zero hpos)).1
      refine ⟨HasHooks.none hhas', fun j => Bool.eq_false_iff.mpr fun h => ?_⟩
      rcases (hleft.filtered j).mp h with hlt | ⟨-, hf⟩
      · omega
      · exact hnf (hfirst ▸ hf)
  rw [if_neg (not_not.mpr hzero')]
  obtain ⟨⟨pointer, heq⟩, hres⟩ := resolveNonExportedSymbols_spec env r'.1
  generalize r'.1.resolveNonExportedSymbols env = r'' at heq hres
  by_cases hsymbols : r''.2 = 0
  · exact iff_of_true (fun h => by simp [hsymbols] at h) (Or.inl ⟨hmisc, hall, hall', hres.mp hsymbols⟩)
  · -- A symbol is not found.
    have hloads : ¬env.Loads hooks tried := fun h => hsymbols (hres.mpr h.symbols)
    have hhooks : r''.1.HasHooks hooks.length := heq ▸ hhas'
    have hlast : r''.1.HasNodes tried.length :=
      heq ▸ ⟨hlist.fresh, hlist.hooks, hlist.allocated, hlist.registered, hlist.filtered⟩
    rw [if_pos hsymbols, or_iff_right hloads]
    dsimp only
    rw [errHooks_clean_iff hlast.hooks hlast.allocated hlast.registered]
    constructor
    · intro hclean
      obtain ⟨hnone, hfil⟩ := hclean hsymbols
      refine ⟨by_contra fun hne => not_clean_of_hasHooks hhooks hne hnone, Or.inl (by_contra fun hne => ?_)⟩
      exact Bool.eq_false_iff.mp (hfil 0) ((hlast.filtered 0).mpr (List.length_pos_iff.mpr hne))
    · rintro ⟨rfl, hempty⟩ -
      refine ⟨HasHooks.none hhooks, fun j => Bool.eq_false_iff.mpr fun h => ?_⟩
      have hlt := (hlast.filtered j).mp h
      rcases hempty with rfl | hnf
      · cases hlt
      · exact hnf (hall' 0 (by omega)).1

/-- All calls into the kernel go through, but for one symbol. -/
def LoadEnv.without (name : String) : LoadEnv where
  miscRegister := 0
  kallsymsLookupName s := if s = name then 0 else 1
  ftraceSetFilterIp _ := 0
  kzallocHook _ := true
  ftraceSetFilter _ := 0
  registerFtraceFunction _ := 0

/-- Without `walk_page_range` the module is not loaded, and its first hook stays. -/
theorem modInit_clean_fails :
    let r := Module.loaded.modInit (.without "walk_page_range")
    r.2 = -2 ∧ r.1.registered (.hook 0) = true ∧ r.1.filtered (.node 0) = true ∧ ¬r.1.Clean :=
  ⟨by decide, by decide, by decide, fun h => absurd (h.registered (.hook 0)) (by decide)⟩

end
end AflSnapshot
