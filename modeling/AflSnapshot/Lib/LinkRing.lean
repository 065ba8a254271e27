import Mathlib.Logic.Function.Basic
import Mathlib.Data.List.Nodup

/-! Intrusive circular doubly linked lists, at the level of their links.

A heap gives the two links of the node at each address. `IsRing h head l` says that from `head` the
links go through exactly the nodes `l`, in this order, and back to `head`. The operations are the
usual ones: make a node its own ring, link a node in after another, unlink a node. -/

namespace LinkRing

/-- The two links of a node. -/
structure Node where
  next : Nat
  prev : Nat
deriving DecidableEq, Repr

/-- The nodes by address. -/
abbrev Heap := Nat → Node

namespace Heap
variable (h : Heap)

def setNext (a v : Nat) : Heap := Function.update h a { h a with next := v }

def setPrev (a v : Nat) : Heap := Function.update h a { h a with prev := v }

/-- Make the node at `a` a ring of its own. -/
def init (a : Nat) : Heap := Function.update h a ⟨a, a⟩

/-- Link `new` in between two consecutive nodes. -/
def link (new prev next : Nat) : Heap :=
  (((h.setPrev next new).setNext new next).setPrev new prev).setNext prev new

/-- Link `new` in right after `head`. -/
def add (new head : Nat) : Heap := h.link new head (h head).next

/-- Unlink the node at `a`; the node itself keeps its links. -/
def del (a : Nat) : Heap := (h.setPrev (h a).next (h a).prev).setNext (h a).prev (h a).next

/-- The nodes met from `a` on before `head`, at most `n`. -/
def walk (head : Nat) : Nat → Nat → List Nat
  | 0, _ => []
  | n + 1, a => if a = head then [] else a :: walk head n (h a).next

/-- The nodes after `head`, at most `n`. -/
def toList (head n : Nat) : List Nat := h.walk head n (h head).next

/-- From `a` on before `head`, unlink every node, at most `n`; the nodes unlinked. The next node is read
    before the unlinking. -/
def drain (head : Nat) : Nat → Nat → Heap → Heap × List Nat
  | 0, _, h => (h, [])
  | n + 1, a, h =>
    if a = head then (h, [])
    else
      let r := drain head n (h a).next (h.del a)
      (r.1, a :: r.2)

/-- The links lead from `a` through `l` to `b`, and back. -/
def Chain : Nat → List Nat → Nat → Prop
  | a, [], b => (h a).next = b ∧ (h b).prev = a
  | a, x :: l, b => (h a).next = x ∧ (h x).prev = a ∧ Chain x l b

/-- The ring of `head` has the nodes `l`. -/
structure IsRing (head : Nat) (l : List Nat) : Prop where
  nodup : (head :: l).Nodup
  chain : h.Chain head l head

end Heap

open Heap
variable {h h' : Heap} {a b x head new n : Nat} {l l₁ l₂ : List Nat}

/-! ### Links -/

@[simp] theorem setNext_next (v : Nat) : (h.setNext a v x).next = if x = a then v else (h x).next := by
  by_cases hx : x = a
  · subst hx; simp [setNext]
  · simp [setNext, hx]

@[simp] theorem setNext_prev (v : Nat) : (h.setNext a v x).prev = (h x).prev := by
  by_cases hx : x = a
  · subst hx; simp [setNext]
  · simp [setNext, hx]

@[simp] theorem setPrev_prev (v : Nat) : (h.setPrev a v x).prev = if x = a then v else (h x).prev := by
  by_cases hx : x = a
  · subst hx; simp [setPrev]
  · simp [setPrev, hx]

@[simp] theorem setPrev_next (v : Nat) : (h.setPrev a v x).next = (h x).next := by
  by_cases hx : x = a
  · subst hx; simp [setPrev]
  · simp [setPrev, hx]

theorem init_of_ne (hx : x ≠ a) : h.init a x = h x := by simp [init, hx]

theorem setNext_of_ne {v : Nat} (hx : x ≠ a) : h.setNext a v x = h x := by simp [setNext, hx]

theorem setPrev_of_ne {v : Nat} (hx : x ≠ a) : h.setPrev a v x = h x := by simp [setPrev, hx]

theorem add_of_ne (hn : x ≠ new) (hh : x ≠ head) (hs : x ≠ (h head).next) : h.add new head x = h x := by
  rw [Heap.add, link, setNext_of_ne hh, setPrev_of_ne hn, setNext_of_ne hn, setPrev_of_ne hs]

theorem del_of_ne (hn : x ≠ (h a).next) (hp : x ≠ (h a).prev) : h.del a x = h x := by
  rw [Heap.del, setNext_of_ne hp, setPrev_of_ne hn]

/-! ### Chains -/

theorem chain_append : h.Chain a (l₁ ++ x :: l₂) b ↔ h.Chain a l₁ x ∧ h.Chain x l₂ b := by
  induction l₁ generalizing a with
  | nil => simp [Chain, and_assoc]
  | cons y l₁ ih => simp [Chain, ih, and_assoc]

/-- A chain reads the next links of its nodes but the last and the previous links of all but the first. -/
theorem chain_congr (hn : ∀ x ∈ a :: l, (h' x).next = (h x).next)
    (hp : ∀ x ∈ l ++ [b], (h' x).prev = (h x).prev) (hc : h.Chain a l b) : h'.Chain a l b := by
  induction l generalizing a with
  | nil =>
    obtain ⟨h1, h2⟩ := hc
    exact ⟨(hn a (by simp)).trans h1, (hp b (by simp)).trans h2⟩
  | cons y l ih =>
    obtain ⟨h1, h2, hc⟩ := hc
    refine ⟨(hn a (by simp)).trans h1, (hp y (by simp)).trans h2, ih (fun x hx => ?_) (fun x hx => ?_) hc⟩
    · exact hn x (List.mem_cons_of_mem _ hx)
    · exact hp x (List.mem_cons_of_mem _ hx)

theorem walk_of_chain (hc : h.Chain a l head) (hl : head ∉ l) (hn : l.length < n) :
    h.walk head n (h a).next = l := by
  induction l generalizing a n with
  | nil =>
    obtain ⟨n, rfl⟩ := Nat.exists_eq_add_of_lt hn
    simp [walk, hc.1]
  | cons y l ih =>
    obtain ⟨n, rfl⟩ := Nat.exists_eq_add_of_lt hn
    obtain ⟨h1, -, hc⟩ := hc
    have hy : y ≠ head := fun e => hl (e ▸ List.mem_cons_self)
    have hrest := ih (n := l.length + 1 + n) hc (fun m => hl (List.mem_cons_of_mem _ m)) (by omega)
    rw [h1, List.length_cons, show l.length + 1 + n + 1 = (l.length + 1 + n) + 1 from rfl, walk, if_neg hy, hrest]

/-! ### Rings -/

/-- Enough steps from the head list the whole ring. -/
theorem Heap.IsRing.toList_eq (hr : h.IsRing head l) (hn : l.length < n) : h.toList head n = l :=
  walk_of_chain hr.chain (List.nodup_cons.mp hr.nodup).1 hn

theorem isRing_init : (h.init a).IsRing a [] where
  nodup := by simp
  chain := by simp [Chain, init]

theorem Heap.IsRing.congr (hr : h.IsRing head l) (he : ∀ x ∈ head :: l, h' x = h x) : h'.IsRing head l where
  nodup := hr.nodup
  chain := by
    refine chain_congr (fun x hx => ?_) (fun x hx => ?_) hr.chain
    · rw [he x hx]
    · rw [he x (by simp only [List.mem_append, List.mem_cons] at hx ⊢; tauto)]

/-- A ring can be listed from any of its nodes. -/
theorem Heap.IsRing.rotate (hr : h.IsRing a (b :: l)) : h.IsRing b (l ++ [a]) where
  nodup := by
    have hp : (a :: b :: l).Perm (b :: (l ++ [a])) :=
      (List.perm_append_singleton a (b :: l)).symm
    exact hp.nodup_iff.mp hr.nodup
  chain := by
    obtain ⟨h1, h2, hc⟩ := hr.chain
    exact chain_append.mpr ⟨hc, h1, h2⟩

/-- Linking a node that is not in a ring in after the head makes it the first node. What the links of
    the new node were before does not matter. -/
theorem Heap.IsRing.add (hr : h.IsRing head l) (hnew : new ∉ head :: l) : (h.add new head).IsRing head (new :: l) := by
  obtain ⟨hh, hl⟩ : new ≠ head ∧ new ∉ l := by simpa using hnew
  have hnd := List.nodup_cons.mp hr.nodup
  refine ⟨?_, ?_⟩
  · simp only [List.nodup_cons, List.mem_cons, not_or]
    exact ⟨⟨hh.symm, hnd.1⟩, hl, hnd.2⟩
  · cases l with
    | nil =>
      obtain ⟨h1, -⟩ := hr.chain
      simp [Chain, Heap.add, link, h1, hh, hh.symm]
    | cons y l =>
      obtain ⟨h1, -, hc⟩ := hr.chain
      have hy : y ≠ new := fun e => hl (e ▸ List.mem_cons_self)
      have hyh : y ≠ head := fun e => hnd.1 (e ▸ List.mem_cons_self)
      have hyl : y ∉ l := (List.nodup_cons.mp hnd.2).1
      refine ⟨by simp [Heap.add, link, h1], by simp [Heap.add, link, h1], ?_, ?_, ?_⟩
      · simp [Heap.add, link, h1, hh]
      · simp [Heap.add, link, h1, hy]
      · refine chain_congr (fun x hx => ?_) (fun x hx => ?_) hc
        · have hxn : x ≠ new := fun e => hl (e ▸ hx)
          have hxh : x ≠ head := fun e => hnd.1 (e ▸ hx)
          simp [Heap.add, link, hxn, hxh]
        · have hxn : x ≠ new := by
            rintro rfl
            rcases List.mem_append.mp hx with hx | hx
            · exact hl (List.mem_cons_of_mem _ hx)
            · exact hh (List.mem_singleton.mp hx)
          have hxy : x ≠ y := by
            rintro rfl
            rcases List.mem_append.mp hx with hx | hx
            · exact hyl hx
            · exact hyh (List.mem_singleton.mp hx)
          simp [Heap.add, link, h1, hxn, hxy]

/-- Unlinking the first node of a ring leaves the rest. -/
theorem Heap.IsRing.del_first (hr : h.IsRing head (x :: l)) : (h.del x).IsRing head l := by
  obtain ⟨h1, h2, hc⟩ := hr.chain
  have hnd := List.nodup_cons.mp hr.nodup
  have hndx := List.nodup_cons.mp hnd.2
  have hxh : x ≠ head := fun e => hnd.1 (e ▸ List.mem_cons_self)
  refine ⟨?_, ?_⟩
  · exact List.nodup_cons.mpr ⟨fun m => hnd.1 (List.mem_cons_of_mem _ m), hndx.2⟩
  · cases l with
    | nil => simp [Chain, Heap.del, h2, hc.1]
    | cons y l =>
      obtain ⟨h3, -, hc⟩ := hc
      have hyh : y ≠ head := fun e => hnd.1 (by simp [e])
      have hyl : y ∉ l := (List.nodup_cons.mp hndx.2).1
      refine ⟨by simp [Heap.del, h2, h3], by simp [Heap.del, h2, h3], ?_⟩
      refine chain_congr (fun z hz => ?_) (fun z hz => ?_) hc
      · have hzh : z ≠ head := fun e => hnd.1 (e ▸ List.mem_cons_of_mem _ hz)
        simp [Heap.del, h2, hzh]
      · have hzy : z ≠ y := by
          rintro rfl
          rcases List.mem_append.mp hz with hz | hz
          · exact hyl hz
          · exact hyh (List.mem_singleton.mp hz)
        simp [Heap.del, h3, hzy]

/-- Draining a ring unlinks all its nodes and touches no others. -/
theorem Heap.IsRing.drain (hr : h.IsRing head l) (hn : l.length < n) :
    (drain head n (h head).next h).2 = l ∧
      ∀ x ∉ head :: l, (Heap.drain head n (h head).next h).1 x = h x := by
  induction l generalizing h n with
  | nil =>
    obtain ⟨n, rfl⟩ := Nat.exists_eq_add_of_lt hn
    simp [Heap.drain, hr.chain.1]
  | cons y l ih =>
    obtain ⟨m, rfl⟩ : ∃ m, n = m + 1 := ⟨n - 1, by rw [List.length_cons] at hn; omega⟩
    have hm : l.length < m := by simpa using hn
    obtain ⟨h1, h2, hc⟩ := hr.chain
    have hyh : y ≠ head := fun e => (List.nodup_cons.mp hr.nodup).1 (e ▸ List.mem_cons_self)
    have hrest := hr.del_first
    -- After the unlinking the head is followed by what followed `y`.
    have hnext : (h.del y head).next = (h y).next := by simp [Heap.del, h2]
    obtain ⟨ih1, ih2⟩ := ih hrest hm
    rw [hnext] at ih1 ih2
    rw [h1, Heap.drain, if_neg hyh]
    refine ⟨congrArg (y :: ·) ih1, fun x hx => ?_⟩
    have hxl : x ∉ head :: l := fun m => hx (by simp only [List.mem_cons] at m ⊢; tauto)
    refine (ih2 x hxl).trans (del_of_ne (fun e => hx ?_) fun e => hx ?_)
    · -- The node after `y` is in the ring.
      cases l with
      | nil => simp [e, hc.1]
      | cons z l => simp [e, hc.1]
    · simp [e, h2]

end LinkRing
