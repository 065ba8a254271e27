/-! # Runs of a transition system

The states that a step function reaches by steps of an allowed kind, and the induction over them. Whether a step is
allowed may depend on the state that it starts from. -/

namespace Runs

variable {σ α : Type} {step : σ → α → σ} {allow allow' : σ → α → Prop} {s₀ s : σ}

inductive Run (step : σ → α → σ) (allow : σ → α → Prop) (s₀ : σ) : σ → Prop
  | start : Run step allow s₀ s₀
  | step {s : σ} {a : α} (h : Run step allow s₀ s) (ha : allow s a) : Run step allow s₀ (step s a)

/-- What the first state has and every allowed step keeps, every state of the run has. -/
theorem Run.invariant {I : σ → Prop} (h : Run step allow s₀ s) (h0 : I s₀)
    (hstep : ∀ s a, I s → allow s a → I (step s a)) : I s := by
  induction h with
  | start => exact h0
  | step _ ha ih => exact hstep _ _ ih ha

theorem Run.mono (h : Run step allow s₀ s) (hallow : ∀ s a, allow s a → allow' s a) : Run step allow' s₀ s := by
  induction h with
  | start => exact .start
  | step _ ha ih => exact .step ih (hallow _ _ ha)

theorem Run.trans {s₁ : σ} (h₁ : Run step allow s₀ s₁) (h₂ : Run step allow s₁ s) : Run step allow s₀ s := by
  induction h₂ with
  | start => exact h₁
  | step _ ha ih => exact .step ih ha

/-! ### Steps in a row -/

/-- Every one of the steps is allowed in the state in which it is taken. -/
def Along (step : σ → α → σ) (allow : σ → α → Prop) : σ → List α → Prop
  | _, [] => True
  | s, a :: l => allow s a ∧ Along step allow (step s a) l

theorem Along.run {l : List α} (h : Along step allow s l) : Run step allow s (l.foldl step s) := by
  induction l generalizing s with
  | nil => exact .start
  | cons a l ih => exact Run.trans (.step .start h.1) (ih h.2)

/-- Every state on the way has `I`. -/
def Throughout (step : σ → α → σ) (I : σ → Prop) : σ → List α → Prop
  | s, [] => I s
  | s, a :: l => I s ∧ Throughout step I (step s a) l

/-- Where the allowed steps are those that keep `I`, `I` holds on the way if and only if all steps are allowed. -/
theorem throughout_iff {I K : σ → Prop} (hK : ∀ s a, K s → K (step s a))
    (hstep : ∀ s a, K s → I s → (I (step s a) ↔ allow s a)) {l : List α} (hKs : K s) (hs : I s) :
    Throughout step I s l ↔ Along step allow s l := by
  induction l generalizing s with
  | nil => exact iff_of_true hs trivial
  | cons a l ih =>
    unfold Throughout Along
    constructor
    · rintro ⟨-, hl⟩
      have hnext : I (step s a) := by
        cases l with
        | nil => exact hl
        | cons b l => exact hl.1
      exact ⟨(hstep s a hKs hs).mp hnext, (ih (hK s a hKs) hnext).mp hl⟩
    · rintro ⟨ha, hl⟩
      exact ⟨hs, (ih (hK s a hKs) ((hstep s a hKs hs).mpr ha)).mpr hl⟩

/-- What the first state has and every step keeps, every state on the way has. -/
theorem throughout_of_step {I : σ → Prop} (hstep : ∀ s a, I s → I (step s a)) (hs : I s) (l : List α) : Throughout step I s l := by
  induction l generalizing s with
  | nil => exact hs
  | cons a l ih => exact ⟨hs, ih (hstep s a hs)⟩

theorem Throughout.last {I : σ → Prop} {l : List α} (h : Throughout step I s l) : I (l.foldl step s) := by
  induction l generalizing s with
  | nil => exact h
  | cons a l ih => exact ih h.2

/-! ### Runs of two systems -/

variable {τ β : Type} {step' : τ → β → τ} {calls : σ → α → List β → Prop} {R : τ → σ → Prop}

/-- Every step from `s` is matched by a block of steps from `t`, of which `calls` tells, with `R` before and after each block. -/
def Matches (step : σ → α → σ) (step' : τ → β → τ) (calls : σ → α → List β → Prop) (R : τ → σ → Prop) : τ → σ → List α → Prop
  | t, s, [] => R t s
  | t, s, a :: l => R t s ∧ ∃ block, calls s a block ∧ Matches step step' calls R (block.foldl step' t) (step s a) l

/-- Where blocks match the single steps, they match the runs. -/
theorem matches_of_step {I : σ → Prop} (hI : ∀ s a, I s → I (step s a))
    (hstep : ∀ s a, I s → ∃ block, calls s a block ∧ ∀ t, R t s → R (block.foldl step' t) (step s a)) {t : τ} {s : σ} (hs : I s) (h : R t s)
    (l : List α) : Matches step step' calls R t s l := by
  induction l generalizing t s with
  | nil => exact h
  | cons a l ih =>
    obtain ⟨block, hcalls, hblock⟩ := hstep s a hs
    exact ⟨h, block, hcalls, ih (hI s a hs) (hblock t h)⟩

/-! ### What a run puts out -/

variable {ω : Type} {out : σ → α → ω} {out' : τ → α → ω} {next : τ → α → τ} {f : σ → τ}

/-- What the steps put out, one after the other. -/
def outputs (step : σ → α → σ) (out : σ → α → ω) : σ → List α → List ω
  | _, [] => []
  | s, a :: l => out s a :: outputs step out (step s a) l

/-- Where `f` commutes with the steps, and the outputs can be told from the values of `f`, it does so with the runs. -/
theorem outputs_eq {I : σ → Prop} (hI : ∀ s a, I s → I (step s a)) (hstep : ∀ s a, I s → f (step s a) = next (f s) a)
    (hout : ∀ s a, I s → out s a = out' (f s) a) (hs : I s) (l : List α) :
    outputs step out s l = outputs next out' (f s) l ∧ f (l.foldl step s) = l.foldl next (f s) := by
  induction l generalizing s with
  | nil => exact ⟨rfl, rfl⟩
  | cons a l ih =>
    obtain ⟨htold, hlast⟩ := ih (hI s a hs)
    rw [hstep s a hs] at htold hlast
    refine ⟨?_, hlast⟩
    rw [outputs, outputs, hout s a hs, htold]

/-! ### Several machines in one -/

variable {κ μ : Type} {T : κ → Prop} {who : α → κ} {view : κ → σ → μ} {a : α}

/-- One machine takes a step, and the others stay where they are. -/
structure Alone (Step : κ → α → μ → μ → Prop) (T : κ → Prop) (i : κ) (a : α) (k k' : κ → μ) : Prop where
  moves : Step i a (k i) (k' i)
  stays : ∀ j, T j → j ≠ i → k' j = k j

variable (who view) in
/-- Where a step of one component is one of its machine, and the others keep what holds of them and what they show, the
    components run as machines of their own. -/
theorem Run.alone {Step : κ → α → μ → μ → Prop} (I : κ → σ → Prop) (h : Run step allow s₀ s) (h₀ : ∀ i, T i → I i s₀)
    (hwho : ∀ s a, allow s a → T (who a))
    (hown : ∀ s a, allow s a → I (who a) s →
      I (who a) (step s a) ∧ Step (who a) a (view (who a) s) (view (who a) (step s a)))
    (hothers : ∀ s a i, allow s a → I (who a) s → I i s → i ≠ who a → I i (step s a) ∧ view i (step s a) = view i s)
    (ha : allow s a) : Alone Step T (who a) a (view · s) (view · (step s a)) := by
  have hall : ∀ i, T i → I i s := by
    refine Run.invariant (I := fun s => ∀ i, T i → I i s) h h₀ fun s a hs ha i hi => ?_
    have hmover := hs _ (hwho s a ha)
    by_cases hne : i = who a
    · subst hne
      exact (hown s a ha hmover).1
    · exact (hothers s a i ha hmover (hs i hi) hne).1
  have hmover := hall _ (hwho s a ha)
  exact ⟨(hown s a ha hmover).2, fun j hj hne => (hothers s a j ha hmover (hall j hj) hne).2⟩

end Runs
