import AflSnapshot.Types
import Mathlib.Data.List.Induction
import Mathlib.Data.List.Perm.Subperm

/-! The blocklist and the allowlist of a task: `exclude_vmrange`, `include_vmrange` and the two
`intersect_*list` of `memory.c`, and the freeing of both lists in `task_data.c`. -/

namespace AflSnapshot

/-- The addresses of `data->blocklist` and `data->allowlist`. -/
def blocklist : Nat := 0
def allowlist : Nat := 1

namespace RangeLists
variable (r : RangeLists)

/-- The lists of a new `task_data`: both heads set up by `INIT_LIST_HEAD`. -/
def empty : RangeLists where
  node := LinkRing.Heap.init (LinkRing.Heap.init (fun _ => ⟨0, 0⟩) allowlist) blocklist
  range := fun _ => ⟨0, 0⟩
  fresh := 2

/-- What `exclude_vmrange` and `include_vmrange` do with the new node: `list_add(head, &n->node)` links the
    list head in after the node, not the node after the head. -/
def addRange (head start end_ : Nat) : RangeLists where
  node := (r.node.init r.fresh).add head r.fresh
  range := Function.update r.range r.fresh ⟨start, end_⟩
  fresh := r.fresh + 1

/-- `exclude_vmrange`, once the node is allocated. -/
def exclude (start end_ : Nat) : RangeLists := r.addRange blocklist start end_

/-- `include_vmrange`, once the node is allocated. -/
def include_ (start end_ : Nat) : RangeLists := r.addRange allowlist start end_

/-- The ranges that a `list_for_each_entry` over `head` visits. -/
def entries (head : Nat) : List VmRange := (r.node.toList head r.fresh).map r.range

/-- The nodes that `task_data_free_callback` frees. -/
def freed : List Nat :=
  let b := LinkRing.Heap.drain blocklist r.fresh (r.node blocklist).next r.node
  let a := LinkRing.Heap.drain allowlist r.fresh (b.1 allowlist).next b.1
  b.2 ++ a.2

end RangeLists

instance : Ranged VmRange := ⟨VmRange.start, VmRange.end_⟩

/-- The record that `ensure_task_data` sets up. -/
def TaskData.new (tsk : Nat) : TaskData where
  tsk := tsk
  ss := {
    made := false
    had := false
    oldbrk := 0
    allVmas := []
    snapshottedVmas := []
    regs := fun _ => 0
    ssFiles := ⟨none, none⟩
    ssPages := []
    dirtyPages := [] }
  ranges := RangeLists.empty
  config := 0

namespace VmRange

/-- `end > n->start && start < n->end`. -/
def meets (n : VmRange) (start end_ : Nat) : Bool := decide (n.start < end_) && decide (start < n.end_)

/-- The range spans all of `[start, end_)`. -/
def spans (n : VmRange) (start end_ : Nat) : Bool := decide (n.start ≤ start) && decide (end_ ≤ n.end_)

end VmRange

def intersectBlocklist (data : TaskData) (start end_ : Nat) : Option VmRange :=
  (data.ranges.entries blocklist).find? fun n => n.meets start end_

def intersectAllowlist (data : TaskData) (start end_ : Nat) : Option VmRange :=
  (data.ranges.entries allowlist).find? fun n => n.meets start end_

/-! ### What a history of calls leaves in the lists -/

/-- A call of `exclude_vmrange` or of `include_vmrange`. -/
inductive RangeCall where
  | exclude (start end_ : Nat)
  | include_ (start end_ : Nat)
deriving DecidableEq, Repr

namespace RangeCall

def apply (r : RangeLists) : RangeCall → RangeLists
  | .exclude start end_ => r.exclude start end_
  | .include_ start end_ => r.include_ start end_

/-- The range that the call adds to the list at `head`. -/
def range? (head : Nat) : RangeCall → Option VmRange
  | .exclude start end_ => if head = blocklist then some ⟨start, end_⟩ else none
  | .include_ start end_ => if head = allowlist then some ⟨start, end_⟩ else none

/-- The ranges that the calls add to the list at `head`. -/
def added (head : Nat) (calls : List RangeCall) : List VmRange := calls.filterMap (range? head)

end RangeCall

open RangeCall LinkRing

/-- The list at `head` is a ring of nodes that were allocated, for the last range added. -/
def LastOnly (r : RangeLists) (calls : List RangeCall) (head : Nat) : Prop :=
  ∃ l, r.node.IsRing head l ∧ l.map r.range = (added head calls).getLast?.toList ∧ ∀ n ∈ l, 2 ≤ n ∧ n < r.fresh

theorem LastOnly.short {r : RangeLists} {calls : List RangeCall} {head : Nat} {l : List Nat}
    (hl : l.map r.range = (added head calls).getLast?.toList) : l.length ≤ 1 := by
  have := congrArg List.length hl
  rw [List.length_map] at this
  rw [this]
  cases (added head calls).getLast? <;> simp

theorem lastOnly_empty (head : Nat) (h : head = blocklist ∨ head = allowlist) :
    LastOnly RangeLists.empty [] head := by
  refine ⟨[], ?_, rfl, by simp⟩
  rcases h with rfl | rfl
  · exact isRing_init
  · exact isRing_init.congr fun x hx => init_of_ne (by simp at hx; simp [hx, allowlist, blocklist])

/-- The list that a call adds to holds the new node alone. -/
theorem lastOnly_addRange_self {r : RangeLists} {head start end_ : Nat} {calls : List RangeCall} {c : RangeCall}
    (hf : 2 ≤ r.fresh) (hh : head < 2) (hc : c.range? head = some ⟨start, end_⟩) :
    LastOnly (r.addRange head start end_) (calls ++ [c]) head := by
  have hne : head ∉ [r.fresh] := by simp; omega
  refine ⟨[r.fresh], (isRing_init.add hne).rotate, ?_, ?_⟩
  · simp [added, hc, RangeLists.addRange]
  · simp [RangeLists.addRange, hf]

/-- The other list stays as it is. -/
theorem LastOnly.addRange_other {r : RangeLists} {head other start end_ : Nat} {calls : List RangeCall}
    {c : RangeCall} (h : LastOnly r calls other) (hf : 2 ≤ r.fresh) (ho : other < 2) (hne : other ≠ head)
    (hh : head < 2) (hc : c.range? other = none) :
    LastOnly (r.addRange head start end_) (calls ++ [c]) other := by
  obtain ⟨l, hr, hl, hn⟩ := h
  have hfresh : ∀ x ∈ other :: l, x ≠ r.fresh := by
    intro x hx
    rcases List.mem_cons.mp hx with rfl | hx
    · omega
    · exact (hn x hx).2.ne
  have hhead : ∀ x ∈ other :: l, x ≠ head := by
    intro x hx
    rcases List.mem_cons.mp hx with rfl | hx
    · exact hne
    · have := (hn x hx).1
      omega
  refine ⟨l, hr.congr fun x hx => ?_, ?_, fun n hnl => ⟨(hn n hnl).1, Nat.lt_succ_of_lt (hn n hnl).2⟩⟩
  · have hx' := hfresh x hx
    have hnext : (r.node.init r.fresh r.fresh).next = r.fresh := by simp [Heap.init]
    show (r.node.init r.fresh).add head r.fresh x = r.node x
    rw [add_of_ne (hhead x hx) hx' (hnext.symm ▸ hx'), init_of_ne hx']
  · have hmap : l.map (r.addRange head start end_).range = l.map r.range :=
      List.map_congr_left fun n hnl => by
        simp [RangeLists.addRange, hfresh n (List.mem_cons_of_mem _ hnl)]
    rw [hmap, hl]
    simp [added, hc]

/-- After any calls on new lists each list holds the last range added to it and no other. -/
theorem lastOnly_calls (calls : List RangeCall) :
    (calls.foldl apply RangeLists.empty).fresh = calls.length + 2 ∧
      LastOnly (calls.foldl apply RangeLists.empty) calls blocklist ∧
      LastOnly (calls.foldl apply RangeLists.empty) calls allowlist := by
  induction calls using List.reverseRecOn with
  | nil => exact ⟨rfl, lastOnly_empty _ (Or.inl rfl), lastOnly_empty _ (Or.inr rfl)⟩
  | append_singleton calls c ih =>
    obtain ⟨hf, hb, ha⟩ := ih
    rw [List.foldl_append, List.foldl_cons, List.foldl_nil]
    have hf2 : 2 ≤ (calls.foldl apply RangeLists.empty).fresh := by omega
    cases c with
    | exclude start end_ =>
      refine ⟨by simp [apply, RangeLists.exclude, RangeLists.addRange, hf], ?_, ?_⟩
      · exact lastOnly_addRange_self hf2 (by decide) (by simp [range?])
      · exact ha.addRange_other hf2 (by decide) (by decide) (by decide) (by simp [range?, allowlist, blocklist])
    | include_ start end_ =>
      refine ⟨by simp [apply, RangeLists.include_, RangeLists.addRange, hf], ?_, ?_⟩
      · exact hb.addRange_other hf2 (by decide) (by decide) (by decide) (by simp [range?, allowlist, blocklist])
      · exact lastOnly_addRange_self hf2 (by decide) (by simp [range?])

theorem LastOnly.entries {r : RangeLists} {calls : List RangeCall} {head : Nat} (h : LastOnly r calls head)
    (hf : 2 ≤ r.fresh) : r.entries head = (added head calls).getLast?.toList := by
  obtain ⟨l, hr, hl, -⟩ := h
  rw [RangeLists.entries, hr.toList_eq (by have := LastOnly.short hl; omega), hl]

theorem eq_singleton_of_mem {α : Type} {l : List α} {x : α} (hx : x ∈ l) (hl : l.length ≤ 1) : l = [x] := by
  match l, hl with
  | [y], _ => rw [List.mem_singleton.mp hx]

/-- The freed nodes are the nodes of the two lists. -/
theorem freed_eq {r : RangeLists} {a b : List Nat} (hf : 2 ≤ r.fresh) (hb : r.node.IsRing blocklist b)
    (ha : r.node.IsRing allowlist a) (hbl : b.length ≤ 1) (hal : a.length ≤ 1) (hbn : ∀ n ∈ b, 2 ≤ n)
    (han : ∀ n ∈ a, 2 ≤ n) : r.freed = b ++ a ∧ b.Disjoint a := by
  -- A node in both lists would be followed by both heads.
  have hdisj : b.Disjoint a := by
    intro x hxb hxa
    obtain rfl := eq_singleton_of_mem hxb hbl
    obtain rfl := eq_singleton_of_mem hxa hal
    have hb1 : (r.node x).next = blocklist := hb.chain.2.2.1
    have ha1 : (r.node x).next = allowlist := ha.chain.2.2.1
    rw [hb1] at ha1
    exact absurd ha1 (by decide)
  obtain ⟨h1, h2⟩ := hb.drain (n := r.fresh) (by omega)
  have ha' : (LinkRing.Heap.drain blocklist r.fresh (r.node blocklist).next r.node).1.IsRing allowlist a := by
    refine ha.congr fun x hx => h2 x fun hxb => ?_
    simp only [List.mem_cons] at hx hxb
    rcases hx with rfl | hx <;> rcases hxb with hxb | hxb
    · exact absurd hxb (by decide)
    · exact absurd (hbn _ hxb) (by decide)
    · have := han x hx
      simp [hxb, blocklist] at this
    · exact hdisj hxb hx
  refine ⟨?_, hdisj⟩
  rw [RangeLists.freed, h1, (ha'.drain (n := r.fresh) (by omega)).1]

/-! ### When all the ranges can be found -/

/-- What the two lists are for: a query finds a range if and only if it meets one that was added, and all
    the nodes are freed with the task's record. -/
structure RangesKept (calls : List RangeCall) (data : TaskData) : Prop where
  block : ∀ start end_, (intersectBlocklist data start end_).isSome ↔
    ∃ n ∈ added blocklist calls, n.meets start end_
  allow : ∀ start end_, (intersectAllowlist data start end_).isSome ↔
    ∃ n ∈ added allowlist calls, n.meets start end_
  freed : ∀ n, 2 ≤ n → n < data.ranges.fresh → n ∈ data.ranges.freed

theorem length_added (calls : List RangeCall) :
    (added blocklist calls).length + (added allowlist calls).length = calls.length := by
  induction calls with
  | nil => rfl
  | cons c calls ih =>
    cases c <;> simp [added, range?, blocklist, allowlist] at ih ⊢ <;> omega

theorem getLast?_of_length_le_one {α : Type} {l : List α} (h : l.length ≤ 1) : l.getLast?.toList = l := by
  match l, h with
  | [], _ => rfl
  | [x], _ => rfl

theorem length_getLast?_le {α : Type} (l : List α) :
    l.getLast?.toList.length ≤ 1 ∧ l.getLast?.toList.length ≤ l.length := by
  rcases List.eq_nil_or_concat l with rfl | ⟨l, x, rfl⟩ <;> simp

/-- After any calls on a new record all the ranges are kept if and only if no list got more than one. -/
theorem rangesKept_iff (data : TaskData) (calls : List RangeCall)
    (h : data.ranges = calls.foldl apply RangeLists.empty) :
    RangesKept calls data ↔ (added blocklist calls).length ≤ 1 ∧ (added allowlist calls).length ≤ 1 := by
  obtain ⟨hf, hB, hA⟩ := lastOnly_calls calls
  rw [← h] at hf hB hA
  have hf2 : 2 ≤ data.ranges.fresh := by omega
  have hbe := hB.entries hf2
  have hae := hA.entries hf2
  obtain ⟨b, hb, hbl, hbn⟩ := hB
  obtain ⟨a, ha, hal, han⟩ := hA
  obtain ⟨hfreed, hdisj⟩ := freed_eq hf2 hb ha (LastOnly.short hbl) (LastOnly.short hal)
    (fun n hn => (hbn n hn).1) (fun n hn => (han n hn).1)
  have hblen : b.length = (added blocklist calls).getLast?.toList.length := by rw [← hbl, List.length_map]
  have halen : a.length = (added allowlist calls).getLast?.toList.length := by rw [← hal, List.length_map]
  have hcount := length_added calls
  constructor
  · intro hk
    -- All of the nodes `2 .. calls.length + 1` are among the at most two that are freed.
    have hsub : List.range' 2 calls.length ⊆ b ++ a := fun n hn => by
      have := List.mem_range'_1.mp hn
      exact hfreed ▸ hk.freed n this.1 (by omega)
    have hle := (List.subperm_of_subset List.nodup_range' hsub).length_le
    rw [List.length_range', List.length_append, hblen, halen] at hle
    have h1 := length_getLast?_le (added blocklist calls)
    have h2 := length_getLast?_le (added allowlist calls)
    omega
  · rintro ⟨h1, h2⟩
    rw [getLast?_of_length_le_one h1] at hbe hblen
    rw [getLast?_of_length_le_one h2] at hae halen
    refine ⟨fun start end_ => ?_, fun start end_ => ?_, fun n hn2 hnf => ?_⟩
    · rw [intersectBlocklist, hbe, List.find?_isSome]
    · rw [intersectAllowlist, hae, List.find?_isSome]
    · have hsub : b ++ a ⊆ List.range' 2 calls.length := fun n hn => by
        rw [List.mem_range'_1]
        rcases List.mem_append.mp hn with hn | hn
        · have := hbn n hn
          omega
        · have := han n hn
          omega
      have hnd : (b ++ a).Nodup :=
        List.nodup_append'.mpr ⟨(List.nodup_cons.mp hb.nodup).2, (List.nodup_cons.mp ha.nodup).2, hdisj⟩
      have hperm := (List.subperm_of_subset hnd hsub).perm_of_length_le (by
        rw [List.length_range', List.length_append, hblen, halen, hcount])
      rw [hfreed]
      exact hperm.mem_iff.mpr (List.mem_range'_1.mpr ⟨hn2, by omega⟩)

end AflSnapshot
