/-! # Programs against a system

A program makes requests of a system and goes on by the answers. A system may make choices of its own at every step; two
systems that answer alike whatever they choose are not told apart. -/

namespace Programs

variable {σ τ ε α ω : Type}

/-- A program with states `σ`, requests `α` and answers `ω`. -/
structure Program (σ α ω : Type) where
  request : σ → α
  learn : σ → ω → σ

namespace Program
variable (P : Program σ α ω) (step : τ → ε → α → τ) (answer : τ → α → ω)

/-- What is asked and answered, for the choices that the system makes. -/
def trace : σ → τ → List ε → List (α × ω)
  | _, _, [] => []
  | x, s, e :: l =>
    let a := P.request x
    (a, answer s a) :: trace (P.learn x (answer s a)) (step s e a) l

/-- The states of the program and of the system after that. -/
def after : σ → τ → List ε → σ × τ
  | x, s, [] => (x, s)
  | x, s, e :: l =>
    let a := P.request x
    after (P.learn x (answer s a)) (step s e a) l

end Program

/-- `R` relates states that answer the requests in `ok` alike, and stays with them. -/
structure Alike (step : τ → ε → α → τ) (answer : τ → α → ω) (E : ε → Prop) (ok : α → Prop) (R : τ → τ → Prop) : Prop where
  answer : ∀ s s' a, R s s' → ok a → answer s a = answer s' a
  step : ∀ s s' a e e', R s s' → ok a → E e → E e' → R (step s e a) (step s' e' a)

variable {P : Program σ α ω} {step : τ → ε → α → τ} {answer : τ → α → ω} {E : ε → Prop} {ok : α → Prop} {R : τ → τ → Prop}

/-- A program that keeps to the requests in `ok` on one side does the same on the other. -/
theorem Alike.trace_eq (h : Alike step answer E ok R) {l l' : List ε} (hlen : l.length = l'.length) (hl : ∀ e ∈ l, E e)
    (hl' : ∀ e ∈ l', E e) {x : σ} {s s' : τ} (hR : R s s') (hok : ∀ r ∈ P.trace step answer x s l, ok r.1) :
    P.trace step answer x s l = P.trace step answer x s' l' ∧
      (P.after step answer x s l).1 = (P.after step answer x s' l').1 ∧
      R (P.after step answer x s l).2 (P.after step answer x s' l').2 := by
  induction l generalizing l' x s s' with
  | nil =>
    cases l' with
    | nil => exact ⟨rfl, rfl, hR⟩
    | cons e' l' => cases hlen
  | cons e l ih =>
    cases l' with
    | nil => cases hlen
    | cons e' l' =>
      have ha : ok (P.request x) := hok _ List.mem_cons_self
      have hanswer := h.answer s s' (P.request x) hR ha
      have hnext := h.step s s' (P.request x) e e' hR ha (hl e List.mem_cons_self) (hl' e' List.mem_cons_self)
      obtain ⟨htrace, hstate, hafter⟩ := ih (x := P.learn x (answer s (P.request x))) (Nat.succ.inj hlen)
        (fun e he => hl e (List.mem_cons_of_mem _ he)) (fun e he => hl' e (List.mem_cons_of_mem _ he)) hnext
        fun r hr => hok r (List.mem_cons_of_mem _ hr)
      unfold Program.trace Program.after
      dsimp only
      rw [← hanswer, htrace]
      exact ⟨rfl, hstate, hafter⟩

end Programs
