import Mathlib.Data.List.Basic
import Mathlib.Data.List.Pairwise
import Mathlib.Algebra.Order.Ring.Nat

/-! Lists of half-open ranges of natural numbers in increasing order. -/

/-- A thing that spans the numbers from `lo` up to, and not including, `hi`. -/
class Ranged (α : Type) where
  lo : α → Nat
  hi : α → Nat

namespace Spans
open Ranged

variable {α : Type} [Ranged α] {l l₁ l₂ : List α} {x y : α} {a b : Nat}

/-- `a` lies in the span of `x`. -/
def In (a : Nat) (x : α) : Prop := lo x ≤ a ∧ a < hi x

instance : Decidable (In a x) := inferInstanceAs (Decidable (_ ∧ _))

/-- Some element of `l` spans `a`. -/
def Covers (l : List α) (a : Nat) : Prop := ∃ x ∈ l, In a x

/-- The first element of `l` that spans `a`. -/
def find (l : List α) (a : Nat) : Option α := l.find? fun x => decide (In a x)

/-- The spans are not empty and follow each other without overlap. -/
structure Ordered (l : List α) : Prop where
  pos : ∀ x ∈ l, lo x < hi x
  sorted : l.Pairwise fun x y => hi x ≤ lo y

theorem find_eq_none : find l a = none ↔ ¬Covers l a := by
  simp [find, List.find?_eq_none, Covers]

theorem find_isSome : (find l a).isSome ↔ Covers l a := by
  simp [find, Covers]

theorem find_mem (h : find l a = some x) : x ∈ l ∧ In a x :=
  ⟨List.mem_of_find?_eq_some h, by simpa using List.find?_some h⟩

theorem covers_append : Covers (l₁ ++ l₂) a ↔ Covers l₁ a ∨ Covers l₂ a := by
  simp only [Covers, List.mem_append, or_and_right, exists_or]

theorem covers_cons : Covers (x :: l) a ↔ In a x ∨ Covers l a := by simp [Covers]

@[simp] theorem not_covers_nil : ¬Covers ([] : List α) a := by simp [Covers]

/-- Spans that end at or below a number do not cover it. -/
theorem covers_append_of_le {n : Nat} (h : ∀ x ∈ l₁, hi x ≤ n) (ha : n ≤ a) :
    Covers (l₁ ++ l₂) a ↔ Covers l₂ a := by
  rw [covers_append]
  refine or_iff_right ?_
  rintro ⟨x, hx, -, h2⟩
  have := h x hx
  omega

namespace Ordered

theorem nil : Ordered ([] : List α) := ⟨by simp, by simp⟩

theorem tail (h : Ordered (x :: l)) : Ordered l :=
  ⟨fun y hy => h.pos y (List.mem_cons_of_mem _ hy), (List.pairwise_cons.mp h.sorted).2⟩

theorem head_le (h : Ordered (x :: l)) (hy : y ∈ l) : hi x ≤ lo y := (List.pairwise_cons.mp h.sorted).1 y hy

theorem head_pos (h : Ordered (x :: l)) : lo x < hi x := h.pos x List.mem_cons_self

theorem cons (hx : lo x < hi x) (hl : ∀ y ∈ l, hi x ≤ lo y) (h : Ordered l) : Ordered (x :: l) where
  pos y hy := by
    rcases List.mem_cons.mp hy with rfl | hy
    · exact hx
    · exact h.pos y hy
  sorted := List.pairwise_cons.mpr ⟨hl, h.sorted⟩

theorem append_iff : Ordered (l₁ ++ l₂) ↔ Ordered l₁ ∧ Ordered l₂ ∧ ∀ x ∈ l₁, ∀ y ∈ l₂, hi x ≤ lo y := by
  constructor
  · intro h
    obtain ⟨h1, h2, h3⟩ := List.pairwise_append.mp h.sorted
    exact ⟨⟨fun x hx => h.pos x (List.mem_append_left _ hx), h1⟩,
      ⟨fun x hx => h.pos x (List.mem_append_right _ hx), h2⟩, h3⟩
  · rintro ⟨h1, h2, h3⟩
    refine ⟨fun x hx => ?_, List.pairwise_append.mpr ⟨h1.sorted, h2.sorted, h3⟩⟩
    rcases List.mem_append.mp hx with hx | hx
    · exact h1.pos x hx
    · exact h2.pos x hx

/-- The elements of an ordered list are told apart by any number they span. -/
theorem eq_of_in (h : Ordered l) (hx : x ∈ l) (hy : y ∈ l) (hax : In a x) (hay : In a y) : x = y := by
  induction l with
  | nil => cases hx
  | cons z l ih =>
    obtain ⟨hx1, hx2⟩ := hax
    obtain ⟨hy1, hy2⟩ := hay
    rcases List.mem_cons.mp hx with rfl | hx' <;> rcases List.mem_cons.mp hy with rfl | hy'
    · rfl
    · have := h.head_le hy'
      omega
    · have := h.head_le hx'
      omega
    · exact ih h.tail hx' hy'

theorem find_eq_some (h : Ordered l) : find l a = some x ↔ x ∈ l ∧ In a x := by
  refine ⟨find_mem, fun ⟨hx, hax⟩ => ?_⟩
  cases hf : find l a with
  | none => exact absurd ⟨x, hx, hax⟩ (find_eq_none.mp hf)
  | some y =>
    obtain ⟨hy, hay⟩ := find_mem hf
    rw [h.eq_of_in hy hx hay hax]

end Ordered

/-! ### Counting -/

section
variable {k p : Nat} {ps : List Nat}

/-- The multiples of `k` in a span that goes from one to another. -/
def stops (k : Nat) (x : α) : List Nat := (List.range ((hi x - lo x) / k)).map fun j => lo x + k * j

theorem mem_stops (hk : 0 < k) (hx : k ∣ lo x ∧ k ∣ hi x) (hp : k ∣ p) (hin : In p x) : p ∈ stops k x := by
  obtain ⟨hlo, hhi⟩ := hin
  obtain ⟨⟨i, hi₁⟩, ⟨j, hj⟩⟩ := hx
  obtain ⟨q, rfl⟩ := hp
  rw [hi₁] at hlo
  rw [hj] at hhi
  have hiq : i ≤ q := Nat.le_of_mul_le_mul_left hlo hk
  have hqj : q < j := Nat.lt_of_mul_lt_mul_left hhi
  refine List.mem_map.mpr ⟨q - i, List.mem_range.mpr ?_, ?_⟩
  · rw [hi₁, hj, ← Nat.mul_sub, Nat.mul_div_cancel_left _ hk]
    omega
  · rw [hi₁, ← Nat.mul_add, Nat.add_sub_cancel' hiq]

theorem length_stops (hx : k ∣ lo x ∧ k ∣ hi x) : (stops k x).length * k = hi x - lo x := by
  rw [stops, List.length_map, List.length_range, Nat.div_mul_cancel (Nat.dvd_sub hx.2 hx.1)]

theorem length_flatMap_stops (hl : ∀ x ∈ l, k ∣ lo x ∧ k ∣ hi x) :
    (l.flatMap (stops k)).length * k = (l.map fun x => hi x - lo x).sum := by
  induction l with
  | nil => simp
  | cons x l ih =>
    rw [List.flatMap_cons, List.length_append, Nat.add_mul, length_stops (hl x List.mem_cons_self),
      ih fun y hy => hl y (List.mem_cons_of_mem x hy), List.map_cons, List.sum_cons]

/-- Different multiples of `k` take up no more, `k` each, than the spans between multiples of `k` that cover them. -/
theorem length_mul_le (hk : 0 < k) (hl : ∀ x ∈ l, k ∣ lo x ∧ k ∣ hi x) (hn : ps.Nodup)
    (hps : ∀ p ∈ ps, k ∣ p ∧ Covers l p) : ps.length * k ≤ (l.map fun x => hi x - lo x).sum := by
  have hsub : ps ⊆ l.flatMap (stops k) := by
    intro p hp
    obtain ⟨hd, x, hx, hin⟩ := hps p hp
    exact List.mem_flatMap.mpr ⟨x, hx, mem_stops hk (hl x hx) hd hin⟩
  rw [← length_flatMap_stops hl]
  exact Nat.mul_le_mul_right k (hn.length_le_of_subset hsub)

end

/-! ### A cursor over the spans

A scan goes from one end of a span to the next. `inside` says whether the cursor is in the first span of the
list at hand or before it. -/

/-- The next end of a span, or `top` after the last. -/
def nextPos (top : Nat) (inside : Bool) : List α → Nat
  | [] => top
  | x :: _ => if inside then hi x else lo x

/-- The cursor is at `c`. -/
def At (inside : Bool) (c : Nat) (l : List α) : Prop :=
  match l with
  | [] => inside = false
  | x :: _ => if inside then lo x ≤ c ∧ c < hi x else c ≤ lo x

/-- What is left of the list when the cursor has come to the next end. -/
def rest (inside : Bool) (l : List α) : List α := if inside then l.tail else l

section
variable {inside : Bool} {c n top : Nat}

theorem At.ne_nil (h : At true c l) : ∃ x l', l = x :: l' := by
  cases l with
  | nil => cases h
  | cons x l => exact ⟨x, l, rfl⟩

theorem At.le_nextPos (h : At inside c l) (hl : ∀ x ∈ l, hi x < top) (hc : c ≤ top) : c ≤ nextPos top inside l := by
  cases l with
  | nil => exact hc
  | cons x l =>
    cases inside with
    | false => exact h
    | true =>
      have h : lo x ≤ c ∧ c < hi x := h
      exact h.2.le

theorem nextPos_le_lo (ho : Ordered l) (hx : x ∈ l) : nextPos top false l ≤ lo x := by
  cases l with
  | nil => cases hx
  | cons y l =>
    rcases List.mem_cons.mp hx with rfl | hx
    · exact le_rfl
    · exact le_trans ho.head_pos.le (ho.head_le hx)

/-- Up to the next end the cursor is covered if it is inside. -/
theorem At.covers_iff (ho : Ordered l) (h : At inside c l) (hca : c ≤ a) (han : a < nextPos top inside l) :
    Covers l a ↔ inside = true := by
  cases l with
  | nil =>
    have h : inside = false := h
    simp [h]
  | cons x l =>
    cases inside with
    | false =>
      have han : a < lo x := han
      refine iff_of_false ?_ (by simp)
      rintro ⟨y, hy, h1, h2⟩
      rcases List.mem_cons.mp hy with rfl | hy
      · omega
      · have := ho.head_le hy
        have := ho.head_pos
        omega
    | true =>
      have h : lo x ≤ c ∧ c < hi x := h
      exact iff_of_true ⟨x, List.mem_cons_self, le_trans h.1 hca, han⟩ rfl

theorem At.advance (h : At inside c l) (hcn : c ≤ n) (hn : n < nextPos top inside l) : At inside n l := by
  cases l with
  | nil => exact h
  | cons x l =>
    cases inside with
    | false => exact (show n < lo x from hn).le
    | true =>
      have h : lo x ≤ c ∧ c < hi x := h
      exact ⟨le_trans h.1 hcn, hn⟩

theorem At.toggle (ho : Ordered l) (hne : l ≠ []) :
    At (!inside) (nextPos top inside l) (rest inside l) := by
  cases l with
  | nil => exact absurd rfl hne
  | cons x l =>
    cases inside with
    | false => exact ⟨le_rfl, ho.head_pos⟩
    | true =>
      cases l with
      | nil => exact rfl
      | cons y l => exact ho.head_le List.mem_cons_self

/-- The cursor moves on to `n`, and past the end of a span where `n` is one. -/
theorem At.move (ho : Ordered l) (h : At inside c l) (hcn : c ≤ n) (hn : n ≤ nextPos top inside l)
    (hne : n = nextPos top inside l → l ≠ []) :
    At (if n = nextPos top inside l then !inside else inside) n
      (if n = nextPos top inside l then rest inside l else l) := by
  by_cases heq : n = nextPos top inside l
  · simp only [heq, ↓reduceIte]
    exact At.toggle ho (hne heq)
  · simp only [heq, ↓reduceIte]
    exact h.advance hcn (lt_of_le_of_ne hn heq)

end
end Spans
