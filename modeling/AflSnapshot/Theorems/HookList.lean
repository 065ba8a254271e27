import AflSnapshot.Lib.Runs
import AflSnapshot.Theorems.Loading
import Mathlib.Data.List.Nodup

/-! # The list of hooks

`try_hook`, `unhook` and `unhook_all` keep a stack of hooks: what is registered and what is allocated is what is in the
list, in every order of the calls and wherever they fail. -/

namespace AflSnapshot
open AflSnapshot.Module Runs

/-- A call of `hook.c`, with the results of the calls into the kernel. -/
inductive ListCall
  | tryHook (env : LoadEnv) (funcName : String) (handler : Handler)
  | unhook (funcName : String)
  | unhookAll

/-- The module after the call, and what the call returns. -/
def ListCall.run (m : Module) : ListCall → Module × Int
  | .tryHook env funcName handler => m.tryHook env funcName handler
  | .unhook funcName => (m.unhook funcName, 0)
  | .unhookAll => (m.unhookAll, 0)

/-- What a call makes of a stack of hooks, by its result. -/
def ListCall.stack (stack : List Hook) (result : Int) : ListCall → List Hook
  | .tryHook _ funcName handler => if result = 0 then ⟨funcName, handler⟩ :: stack else stack
  | .unhook funcName => stack.eraseP fun hook => hook.symbolName == funcName
  | .unhookAll => []

/-- A call, on the module and on the stack. -/
def ListCall.step (s : Module × List Hook) (call : ListCall) : Module × List Hook :=
  ((call.run s.1).1, call.stack s.2 (call.run s.1).2)

/-- The nodes of the list are those that are allocated and those that are registered, each once. -/
structure Module.Linked (m : Module) : Prop where
  nodup : m.hooks.Nodup
  fresh : ∀ n ∈ m.hooks, n < m.fresh
  allocated : ∀ n, m.allocated n = true ↔ n ∈ m.hooks
  registered : ∀ n, m.registered (.node n) = true ↔ n ∈ m.hooks
  filtered : ∀ n ∈ m.hooks, m.filtered (.node n) = true

/-- The hooks in the list, newest first. -/
def Module.stack (m : Module) : List Hook := m.hooks.map m.node

section
variable {env : LoadEnv} {m m' : Module} {l : List Hook} {k n : Nat}

theorem loaded_linked : Module.loaded.Linked := by
  refine ⟨List.nodup_nil, ?_, ?_, ?_, ?_⟩ <;> simp [Module.loaded]

/-- What is newly allocated is not in the list. -/
theorem Module.Linked.fresh_not_mem (h : m.Linked) : m.fresh ∉ m.hooks := fun hn => Nat.lt_irrefl _ (h.fresh _ hn)

/-- The list stays with a change at a node outside of it. -/
theorem Module.Linked.outside (h : m.Linked) (hk : k ∉ m.hooks) (hhooks : m'.hooks = m.hooks) (hfresh : m.fresh ≤ m'.fresh)
    (halloc : ∀ n, m'.allocated n = true ↔ m.allocated n = true) (hreg : ∀ n, m'.registered (.node n) = m.registered (.node n))
    (hfil : ∀ n, n ≠ k → m'.filtered (.node n) = m.filtered (.node n)) : m'.Linked := by
  refine ⟨hhooks ▸ h.nodup, fun n hn => ?_, fun n => ?_, fun n => ?_, fun n hn => ?_⟩
  · exact Nat.lt_of_lt_of_le (h.fresh n (hhooks ▸ hn)) hfresh
  · rw [halloc, hhooks]
    exact h.allocated n
  · rw [hreg, hhooks]
    exact h.registered n
  · rw [hhooks] at hn
    rw [hfil n fun hnk => hk (hnk ▸ hn)]
    exact h.filtered n hn

/-- What `try_hook` does: it fails, and only a filter stays; or the new node is in front. -/
theorem tryHook_linked (env : LoadEnv) (name : String) (handler : Handler) (h : m.Linked) :
    (m.tryHook env name handler).1.Linked ∧ m.SameHooks (m.tryHook env name handler).1 ∧
      (m.tryHook env name handler).1.device = m.device ∧
      (m.tryHook env name handler).1.stack = (ListCall.tryHook env name handler).stack m.stack (m.tryHook env name handler).2 := by
  have hnew := h.fresh_not_mem
  unfold Module.tryHook ListCall.stack
  by_cases halloc : env.kzallocHook m.fresh = true
  swap
  · dsimp only
    rw [if_neg halloc]
    exact ⟨h, fun _ => ⟨rfl, rfl⟩, rfl, rfl⟩
  dsimp only
  rw [if_pos halloc]
  set m₁ : Module := { m with
    node := Function.update m.node m.fresh ⟨name, handler⟩
    allocated := Function.update m.allocated m.fresh true
    fresh := m.fresh + 1 } with hm₁
  have hstack : m.hooks.map m₁.node = m.stack := List.map_congr_left fun n hn =>
    Function.update_of_ne (fun hk : n = m.fresh => hnew (hk ▸ hn)) _ _
  have hnot : m.allocated m.fresh = false := Bool.eq_false_iff.mpr fun ha => hnew ((h.allocated _).mp ha)
  have hfreed : ∀ n, (m₁.freeHook m.fresh).allocated n = true ↔ m.allocated n = true := fun n => by
    by_cases hn : n = m.fresh
    · simp [Module.freeHook, hn, hnot]
    · simp [Module.freeHook, hm₁, hn]
  by_cases hfilter : env.ftraceSetFilter m.fresh = 0
  swap
  · rw [if_pos hfilter]
    refine ⟨h.outside hnew rfl (Nat.le_succ _) hfreed (fun _ => rfl) fun _ _ => rfl, fun _ => ⟨rfl, rfl⟩, rfl, ?_⟩
    rw [if_neg hfilter]
    exact hstack
  rw [if_neg (not_not.mpr hfilter)]
  have hsame : m.SameHooks (m₁.setFiltered (.node m.fresh) true) := fun j => ⟨rfl, setFiltered_of_ne true (by simp)⟩
  have hfil : ∀ n, n ≠ m.fresh → (m₁.setFiltered (.node m.fresh) true).filtered (.node n) = m.filtered (.node n) := fun n hn =>
    setFiltered_of_ne true (by simpa using hn)
  by_cases hregister : env.registerFtraceFunction (.node m.fresh) = 0
  swap
  · rw [registerFtraceFunction_fails hregister]
    dsimp only
    rw [if_pos hregister]
    refine ⟨h.outside hnew rfl (Nat.le_succ _) hfreed (fun _ => rfl) hfil, hsame, rfl, ?_⟩
    rw [if_neg hregister]
    exact hstack
  rw [registerFtraceFunction_ok hregister]
  dsimp only
  rw [if_neg (by simp), if_pos rfl]
  have hother : ∀ j, FtraceOps.hook j ≠ .node m.fresh := fun j => by simp
  refine ⟨⟨List.nodup_cons.mpr ⟨hnew, h.nodup⟩, fun n hn => ?_, fun n => ?_, fun n => ?_, fun n hn => ?_⟩,
    fun j => ⟨setRegistered_of_ne true (hother j), (hsame j).2⟩, rfl, ?_⟩
  · rcases List.mem_cons.mp hn with rfl | hn
    · exact Nat.lt_succ_self _
    · exact Nat.lt_succ_of_lt (h.fresh n hn)
  · show Function.update m.allocated m.fresh true n = true ↔ n ∈ m.fresh :: m.hooks
    by_cases hn : n = m.fresh
    · simp [hn]
    · simp [hn, h.allocated]
  · show (Function.update m.registered (.node m.fresh) true) (.node n) = true ↔ n ∈ m.fresh :: m.hooks
    by_cases hn : n = m.fresh
    · simp [hn]
    · simp [hn, h.registered]
  · show (m₁.setFiltered (.node m.fresh) true).filtered (.node n) = true
    rcases List.mem_cons.mp hn with rfl | hn
    · simp
    · rw [hfil n fun hk => hnew (hk ▸ hn)]
      exact h.filtered n hn
  · show m₁.node m.fresh :: m.hooks.map m₁.node = _
    rw [hstack, hm₁]
    simp

theorem unhook_linked (name : String) (h : m.Linked) :
    (m.unhook name).Linked ∧ m.SameHooks (m.unhook name) ∧ (m.unhook name).device = m.device ∧
      (m.unhook name).stack = m.stack.eraseP fun hook => hook.symbolName == name := by
  unfold Module.unhook
  split
  case h_2 hnone =>
    refine ⟨h, fun _ => ⟨rfl, rfl⟩, rfl, (List.eraseP_of_forall_not ?_).symm⟩
    intro hook hmem
    obtain ⟨n, hn, rfl⟩ := List.mem_map.mp hmem
    exact List.find?_eq_none.mp hnone n hn
  case h_1 k hk =>
    have hmem : ∀ n, n ∈ m.hooks.erase k ↔ n ≠ k ∧ n ∈ m.hooks := fun n => h.nodup.mem_erase_iff
    have hother : ∀ j, FtraceOps.hook j ≠ .node k := fun j => by simp
    refine ⟨⟨h.nodup.erase k, fun n hn => ?_, fun n => ?_, fun n => ?_, fun n hn => ?_⟩,
      fun j => ⟨setRegistered_of_ne false (hother j), rfl⟩, rfl, Keyed.map_erase_get hk⟩
    · exact h.fresh n ((hmem n).mp hn).2
    · show Function.update m.allocated k false n = true ↔ n ∈ m.hooks.erase k
      rw [hmem]
      by_cases hn : n = k
      · simp [hn]
      · simp [hn, h.allocated]
    · show Function.update m.registered (.node k) false (.node n) = true ↔ n ∈ m.hooks.erase k
      rw [hmem]
      by_cases hn : n = k
      · simp [hn]
      · simp [hn, h.registered]
    · exact h.filtered n ((hmem n).mp hn).2

theorem unhookAll_linked (h : m.Linked) : m.unhookAll.Linked ∧ m.SameHooks m.unhookAll ∧ m.unhookAll.device = m.device ∧
    m.unhookAll.stack = [] := by
  obtain ⟨hsame, hdevice, hnodes⟩ := unhookAll_spec m
  refine ⟨⟨List.nodup_nil, by simp [Module.unhookAll], fun n => ?_, fun n => ?_, by simp [Module.unhookAll]⟩, hsame, hdevice, rfl⟩
  · rw [(hnodes n).2.1, h.allocated]
    simp [Module.unhookAll]
  · rw [(hnodes n).1, h.registered]
    simp [Module.unhookAll]

/-- A call does to the list what it does to the stack, and nothing to the array and the device. -/
theorem listCall_linked (call : ListCall) (h : m.Linked) :
    (call.run m).1.Linked ∧ m.SameHooks (call.run m).1 ∧ (call.run m).1.device = m.device ∧
      (call.run m).1.stack = call.stack m.stack (call.run m).2 := by
  cases call with
  | tryHook env name handler => exact tryHook_linked env name handler h
  | unhook name => exact unhook_linked name h
  | unhookAll => exact unhookAll_linked h

/-! ### From `mod_init` to `mod_exit` -/

theorem Module.SameNodes.linked (hsame : m.SameNodes m') (h : m.Linked) : m'.Linked := by
  refine ⟨hsame.hooks ▸ h.nodup, fun n hn => ?_, fun n => ?_, fun n => ?_, fun n hn => ?_⟩
  · rw [hsame.fresh]
    exact h.fresh n (hsame.hooks ▸ hn)
  · rw [hsame.allocated, hsame.hooks]
    exact h.allocated n
  · rw [hsame.registered, hsame.hooks]
    exact h.registered n
  · rw [hsame.filtered]
    exact h.filtered n (hsame.hooks ▸ hn)

theorem Module.SameHooks.trans {m₁ : Module} (h₁ : m.SameHooks m₁) (h₂ : m₁.SameHooks m') : m.SameHooks m' := fun j =>
  ⟨(h₂ j).1.trans (h₁ j).1, (h₂ j).2.trans (h₁ j).2⟩

theorem Module.HasHooks.same (h : m.HasHooks k) (hsame : m.SameHooks m') : m'.HasHooks k := fun j =>
  ⟨(hsame j).1.trans (h j).1, (hsame j).2.trans (h j).2⟩

/-- The calls in a row push their hooks, where none of them fails. -/
theorem tryHooks_linked (env : LoadEnv) (tried : List Hook) (h : m.Linked) :
    (tryHooks env tried m).1.Linked ∧ m.SameHooks (tryHooks env tried m).1 ∧ (tryHooks env tried m).1.device = m.device ∧
      ((tryHooks env tried m).2 = 0 → (tryHooks env tried m).1.stack = tried.reverse ++ m.stack) := by
  induction tried generalizing m with
  | nil => exact ⟨h, fun _ => ⟨rfl, rfl⟩, rfl, fun _ => rfl⟩
  | cons hook tried ih =>
    obtain ⟨hlinked, hsame, hdevice, hstack⟩ := tryHook_linked env hook.symbolName hook.func h
    unfold tryHooks
    generalize m.tryHook env hook.symbolName hook.func = r at hlinked hsame hdevice hstack
    dsimp only
    by_cases herr : r.2 = 0
    · obtain ⟨hlinked', hsame', hdevice', hstack'⟩ := ih hlinked
      rw [if_neg (not_not.mpr herr)]
      refine ⟨hlinked', hsame.trans hsame', hdevice'.trans hdevice, fun hok => ?_⟩
      rw [hstack' hok, hstack, ListCall.stack, if_pos herr, List.reverse_cons, List.append_assoc]
      rfl
    · rw [if_pos herr]
      exact ⟨hlinked, hsame, hdevice, fun hok => absurd hok (by simp)⟩

/-- `mod_init` leaves the hooks in the list, newest first, or an empty list. -/
theorem modInit_linked (env : LoadEnv) (hooks : List FtraceHook) (tried : List Hook) :
    (Module.loaded.modInitWith env hooks tried).1.Linked ∧
      ((Module.loaded.modInitWith env hooks tried).2 = 0 →
        (Module.loaded.modInitWith env hooks tried).1.stack = tried.reverse ∧
          (Module.loaded.modInitWith env hooks tried).1.HasHooks hooks.length ∧
          (Module.loaded.modInitWith env hooks tried).1.device = true) ∧
      ((Module.loaded.modInitWith env hooks tried).2 ≠ 0 →
        (Module.loaded.modInitWith env hooks tried).1.stack = [] ∧
          (Module.loaded.modInitWith env hooks tried).1.device = false) := by
  unfold Module.modInitWith
  by_cases hmisc : env.miscRegister = 0
  swap
  · rw [if_pos hmisc]
    exact ⟨loaded_linked, fun h => absurd h hmisc, fun _ => ⟨rfl, rfl⟩⟩
  rw [if_neg (not_not.mpr hmisc)]
  have hstart : Module.HasHooks 0 { Module.loaded with device := true } := loaded_hasHooks
  have hempty : Module.Linked { Module.loaded with device := true } :=
    ⟨loaded_linked.nodup, loaded_linked.fresh, loaded_linked.allocated, loaded_linked.registered, loaded_linked.filtered⟩
  obtain ⟨hsame, hcase⟩ := fhInstallHooks_spec env hooks 0 hstart
  simp only [Nat.zero_add] at hcase
  dsimp only
  generalize fhInstallHooks env hooks 0 { Module.loaded with device := true } = r at hsame hcase
  have hlinked := hsame.linked hempty
  have hnil : r.1.stack = [] := congrArg (List.map r.1.node) hsame.hooks
  rcases hcase with ⟨-, hzero, hhas⟩ | ⟨-, -, -, -, -, herr, -⟩
  swap
  · rw [if_pos herr]
    refine ⟨?_, fun h => absurd h herr, fun _ => ⟨hnil, rfl⟩⟩
    exact ⟨hlinked.nodup, hlinked.fresh, hlinked.allocated, hlinked.registered, hlinked.filtered⟩
  rw [if_neg (not_not.mpr hzero)]
  obtain ⟨hlinked', hsame', hdevice', hstack'⟩ := tryHooks_linked env tried hlinked
  generalize tryHooks env tried r.1 = r' at hlinked' hsame' hdevice' hstack'
  -- What the label `err_hooks` leaves.
  have herrHooks : ∀ {m : Module}, m.Linked → m.errHooks.Linked ∧ m.errHooks.stack = [] ∧ m.errHooks.device = false := by
    intro m hm
    obtain ⟨hm, -, -, hstack⟩ := unhookAll_linked hm
    exact ⟨⟨hm.nodup, hm.fresh, hm.allocated, hm.registered, hm.filtered⟩, hstack, rfl⟩
  by_cases hzero' : r'.2 = 0
  swap
  · rw [if_pos hzero']
    exact ⟨(herrHooks hlinked').1, fun h => absurd h hzero', fun _ => (herrHooks hlinked').2⟩
  rw [if_neg (not_not.mpr hzero')]
  obtain ⟨⟨pointer, heq⟩, -⟩ := resolveNonExportedSymbols_spec env r'.1
  generalize r'.1.resolveNonExportedSymbols env = r'' at heq
  have hlinked'' : r''.1.Linked :=
    heq ▸ ⟨hlinked'.nodup, hlinked'.fresh, hlinked'.allocated, hlinked'.registered, hlinked'.filtered⟩
  by_cases hsymbols : r''.2 = 0
  · rw [if_neg (not_not.mpr hsymbols)]
    refine ⟨hlinked'', fun _ => ⟨?_, ?_, ?_⟩, fun h => absurd rfl h⟩
    · rw [heq]
      exact (hstack' hzero').trans (by rw [hnil, List.append_nil])
    · rw [heq]
      exact hhas.same hsame'
    · rw [heq]
      exact hdevice'.trans hsame.device
  · rw [if_pos hsymbols]
    exact ⟨(herrHooks hlinked'').1, fun h => absurd h hsymbols, fun _ => (herrHooks hlinked'').2⟩

/-- The module after `mod_init`, with the stack of its hooks. -/
def modInitStack (env : LoadEnv) : Module × List Hook :=
  ((Module.loaded.modInit env).1, if (Module.loaded.modInit env).2 = 0 then triedHooks.reverse else [])

theorem modInitStack_stack (env : LoadEnv) : (modInitStack env).1.Linked ∧ (modInitStack env).1.stack = (modInitStack env).2 := by
  obtain ⟨hlinked, hok, herr⟩ := modInit_linked env ftraceHooks triedHooks
  refine ⟨hlinked, ?_⟩
  by_cases hzero : (Module.loaded.modInit env).2 = 0
  · exact (hok hzero).1.trans (if_pos hzero).symm
  · exact (herr hzero).1.trans (if_neg hzero).symm

theorem fhRemoveHooks_spec (k : Nat) (m : Module) : m.SameNodes (m.fhRemoveHooks k) ∧
    ∀ j, (m.fhRemoveHooks k).registered (.hook j) = (m.registered (.hook j) && decide (k ≤ j)) ∧
      (m.fhRemoveHooks k).filtered (.hook j) = (m.filtered (.hook j) && decide (k ≤ j)) := by
  induction k with
  | zero => exact ⟨.refl m, by simp [Module.fhRemoveHooks]⟩
  | succ k ih =>
    obtain ⟨hsame, hhooks⟩ := ih
    have heq : m.fhRemoveHooks (k + 1) = (m.fhRemoveHooks k).fhRemoveHook k := by
      simp [Module.fhRemoveHooks, List.range_succ]
    rw [heq]
    refine ⟨hsame.trans ((sameNodes_setRegistered _ k false).trans (sameNodes_setFiltered _ k false)), fun j => ?_⟩
    obtain ⟨hreg, hfil⟩ := hhooks j
    by_cases hj : j = k
    · simp [Module.fhRemoveHook, hj]
    · have hne : FtraceOps.hook j ≠ .hook k := by simpa using hj
      have hle : decide (k + 1 ≤ j) = decide (k ≤ j) := by
        rw [decide_eq_decide]
        omega
      rw [hle, ← hreg, ← hfil]
      exact ⟨setRegistered_of_ne false hne, setFiltered_of_ne false hne⟩

end
end AflSnapshot
