import Mathlib.Logic.Function.Basic
import Mathlib.Data.List.Nodup

/-! # Memory that is allocated and freed object by object

A slab gives the object at each address and a record of what was freed, in order. Addresses are not used again, so that
an address stands for one allocation. `Sound` says that nothing was freed twice and nothing that was freed is there. -/

structure Slab (α : Type) where
  obj : Nat → Option α
  /-- The address of the next object. -/
  fresh : Nat
  freed : List Nat

namespace Slab

variable {α : Type} (s : Slab α)

def alloc (x : α) : Slab α × Nat := ({ s with obj := Function.update s.obj s.fresh (some x), fresh := s.fresh + 1 }, s.fresh)

/-- Change an object, where there is one. -/
def modify (a : Nat) (f : α → α) : Slab α := { s with obj := Function.update s.obj a ((s.obj a).map f) }

def free (a : Nat) : Slab α := { s with obj := Function.update s.obj a none, freed := s.freed ++ [a] }

def freeAll (l : List Nat) : Slab α := l.foldl free s

structure Sound : Prop where
  below : ∀ a x, s.obj a = some x → a < s.fresh
  gone : ∀ a ∈ s.freed, a < s.fresh ∧ s.obj a = none
  once : s.freed.Nodup

variable {s} {a b : Nat} {x y : α} {f : α → α} {l : List Nat}

/-! ### Reads -/

@[simp] theorem alloc_addr : (s.alloc x).2 = s.fresh := rfl
@[simp] theorem alloc_fresh : (s.alloc x).1.fresh = s.fresh + 1 := rfl
@[simp] theorem alloc_freed : (s.alloc x).1.freed = s.freed := rfl
@[simp] theorem modify_fresh : (s.modify a f).fresh = s.fresh := rfl
@[simp] theorem modify_freed : (s.modify a f).freed = s.freed := rfl

@[simp] theorem alloc_obj_self : (s.alloc x).1.obj s.fresh = some x := Function.update_self ..

theorem alloc_obj_of_ne (h : a ≠ s.fresh) : (s.alloc x).1.obj a = s.obj a := Function.update_of_ne h ..

@[simp] theorem modify_obj_self : (s.modify a f).obj a = (s.obj a).map f := Function.update_self ..

theorem modify_obj_of_ne (h : b ≠ a) : (s.modify a f).obj b = s.obj b := Function.update_of_ne h ..

theorem free_obj : (s.free a).obj b = if b = a then none else s.obj b := Function.update_apply ..

theorem freeAll_fresh : (s.freeAll l).fresh = s.fresh := by
  induction l generalizing s with
  | nil => rfl
  | cons a l ih => exact ih

theorem freeAll_freed : (s.freeAll l).freed = s.freed ++ l := by
  induction l generalizing s with
  | nil => exact (List.append_nil _).symm
  | cons a l ih =>
    show ((s.free a).freeAll l).freed = _
    rw [ih, free, List.append_assoc]
    rfl

theorem freeAll_obj : (s.freeAll l).obj b = if b ∈ l then none else s.obj b := by
  induction l generalizing s with
  | nil => rfl
  | cons a l ih =>
    show ((s.free a).freeAll l).obj b = _
    rw [ih, free_obj]
    by_cases hl : b ∈ l
    · simp [hl]
    · by_cases hb : b = a <;> simp [hl, hb]

theorem freeAll_append (l₁ l₂ : List Nat) : s.freeAll (l₁ ++ l₂) = (s.freeAll l₁).freeAll l₂ := List.foldl_append ..

/-! ### Soundness -/

namespace Sound

theorem alloc (h : s.Sound) : (s.alloc x).1.Sound where
  below a y hy := by
    by_cases ha : a = s.fresh
    · rw [ha]
      exact Nat.lt_succ_self _
    · rw [alloc_obj_of_ne ha] at hy
      exact Nat.lt_succ_of_lt (h.below a y hy)
  gone a ha := by
    obtain ⟨hlt, hnone⟩ := h.gone a ha
    exact ⟨Nat.lt_succ_of_lt hlt, (alloc_obj_of_ne (Nat.ne_of_lt hlt)).trans hnone⟩
  once := h.once

theorem modify (h : s.Sound) : (s.modify a f).Sound where
  below b y hy := by
    by_cases hb : b = a
    · subst hb
      rw [modify_obj_self, Option.map_eq_some_iff] at hy
      obtain ⟨x, hx, -⟩ := hy
      exact h.below b x hx
    · rw [modify_obj_of_ne hb] at hy
      exact h.below b y hy
  gone b hb := by
    obtain ⟨hlt, hnone⟩ := h.gone b hb
    refine ⟨hlt, ?_⟩
    by_cases hba : b = a
    · subst hba
      rw [modify_obj_self, hnone]
      rfl
    · rw [modify_obj_of_ne hba, hnone]
  once := h.once

/-- An object that is there can be freed. -/
theorem free (h : s.Sound) (ha : s.obj a = some x) : (s.free a).Sound where
  below b y hy := by
    rw [free_obj] at hy
    split at hy
    · cases hy
    · exact h.below b y hy
  gone b hb := by
    rw [free_obj]
    rcases List.mem_append.mp hb with hb | hb
    · obtain ⟨hlt, hnone⟩ := h.gone b hb
      exact ⟨hlt, by simp [hnone]⟩
    · rw [List.mem_singleton.mp hb]
      exact ⟨h.below a x ha, if_pos rfl⟩
  once := by
    refine List.nodup_append.mpr ⟨h.once, List.nodup_singleton a, fun b hb c hc heq => ?_⟩
    rw [heq, List.mem_singleton.mp hc] at hb
    rw [(h.gone a hb).2] at ha
    cases ha

/-- Different objects that are there can be freed one after the other. -/
theorem freeAll (h : s.Sound) (hl : l.Nodup) (hobj : ∀ a ∈ l, ∃ x, s.obj a = some x) : (s.freeAll l).Sound := by
  induction l generalizing s with
  | nil => exact h
  | cons a l ih =>
    obtain ⟨ha, hl⟩ := List.nodup_cons.mp hl
    obtain ⟨x, hx⟩ := hobj a List.mem_cons_self
    refine ih (h.free hx) hl fun b hb => ?_
    have hne : b ≠ a := fun heq => ha (heq ▸ hb)
    rw [free_obj, if_neg hne]
    exact hobj b (List.mem_cons_of_mem _ hb)

/-- What was freed was freed once. -/
theorem count_freed (h : s.Sound) (ha : a ∈ s.freed) : s.freed.count a = 1 := List.count_eq_one_of_mem h.once ha

end Sound
end Slab
