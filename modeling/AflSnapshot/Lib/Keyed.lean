import Mathlib.Data.List.Basic

/-! Lists whose elements are found by a key: lookup, and update in place of the elements with a key. -/

namespace Keyed

variable {α κ : Type} [DecidableEq κ] {key : α → κ} {l : List α} {k k' : κ} {x : α} {f : α → α}

/-- The first element with key `k`. -/
def get (key : α → κ) (l : List α) (k : κ) : Option α := l.find? fun x => key x == k

/-- Apply `f` to the elements with key `k`. -/
def modify (key : α → κ) (l : List α) (k : κ) (f : α → α) : List α :=
  l.map fun x => if key x = k then f x else x

@[simp] theorem get_nil : get key ([] : List α) k = none := rfl

theorem get_cons : get key (x :: l) k = if key x = k then some x else get key l k := by
  by_cases h : key x = k <;> simp [get, h]

theorem get_key (h : get key l k = some x) : key x = k := by simpa using List.find?_some h

theorem get_mem (h : get key l k = some x) : x ∈ l := List.mem_of_find?_eq_some h

theorem get_eq_none : get key l k = none ↔ k ∉ l.map key := by
  simp [get, List.find?_eq_none]

/-- An update that keeps the key leaves the keys as they are. -/
theorem map_modify (hf : ∀ x, key x = k → key (f x) = k) : (modify key l k f).map key = l.map key := by
  rw [modify, List.map_map]
  refine List.map_congr_left fun x _ => ?_
  by_cases h : key x = k
  · simp only [Function.comp_apply, if_pos h]
    exact (hf x h).trans h.symm
  · simp only [Function.comp_apply, if_neg h]

/-- An update that keeps the key changes what is found under that key only. -/
theorem get_modify (hf : ∀ x, key x = k → key (f x) = k) :
    get key (modify key l k f) k' = if k' = k then (get key l k').map f else get key l k' := by
  induction l with
  | nil => simp [modify]
  | cons y l ih =>
    simp only [modify, List.map_cons] at ih ⊢
    rw [get_cons, get_cons, ih]
    by_cases hy : key y = k
    · have hfy := hf y hy
      by_cases hk : k' = k
      · subst hk
        simp [hy, hfy]
      · have hne : ¬k = k' := fun e => hk e.symm
        simp [hy, hfy, hk, hne]
    · by_cases hk : k' = k
      · subst hk
        simp [hy]
      · simp [hy, hk]

/-- Taking what is found out of a list takes the first of its key out of the image of the list. -/
theorem map_erase_get {β : Type} [DecidableEq α] {g : α → β} {key : β → κ} (h : get (fun x => key (g x)) l k = some x) :
    (l.erase x).map g = (l.map g).eraseP fun y => key y == k := by
  have hx : key (g x) = k := by simpa using List.find?_some h
  induction l with
  | nil => cases h
  | cons y l ih =>
    rw [get_cons] at h
    by_cases hy : key (g y) = k
    · rw [if_pos hy, Option.some.injEq] at h
      subst h
      simp [hy]
    · rw [if_neg hy] at h
      have hne : y ≠ x := fun hyx => hy (hyx ▸ hx)
      rw [List.erase_cons_tail (by simpa using hne), List.map_cons, List.map_cons, List.eraseP_cons_of_neg (by simpa using hy), ih h]

end Keyed
