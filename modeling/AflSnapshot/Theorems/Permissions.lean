import AflSnapshot.Theorems.MappedBack

/-! # The protection of what is mapped again

`add_snapshot_vma` asks with `|` where it means `&`, so that a snapshot VMA may always be read, written and executed.
`restore_vmas` gives an address back with the protection it had only where the VMA could be read, written and executed
at the take. -/

namespace AflSnapshot
open Spans

/-- The permissions of a VMA. -/
def VmArea.protection (v : VmArea) : Nat := v.vmFlags &&& (vmRead ||| vmWrite ||| vmExec)

/-- The address was in an anonymous private VMA, and nothing is mapped there now. -/
structure Gone (vmas₀ vmas : List VmArea) (a : Nat) (v : VmArea) : Prop where
  mem : v ∈ vmas₀
  within : In a v
  anonymous : v.isAnonymous = true
  unshared : v.shared = false
  gone : ¬Covers vmas a

section
variable {env : Env} {m start end_ len a : Nat} {c c' : Core} {vmas₀ : List VmArea} {allVmas : List SnapshotVma}

/-! ### What `add_snapshot_vma` records -/

theorem or_protection (garbage : Nat) : (garbage ||| protRead ||| protWrite ||| protExec) &&&
    (protRead ||| protWrite ||| protExec) = vmRead ||| vmWrite ||| vmExec := by
  refine Nat.eq_of_testBit_eq fun i => ?_
  rw [Nat.or_assoc, Nat.or_assoc, Nat.testBit_and, Nat.testBit_or, ← Nat.or_assoc]
  show ((garbage.testBit i || Nat.testBit 7 i) && Nat.testBit 7 i) = Nat.testBit 7 i
  cases Nat.testBit 7 i with
  | false => simp
  | true => simp

/-- Whatever the VMA and the memory of the record, what is mapped for it may be read, written and executed. -/
theorem anonVma_protection (v : VmArea) (garbage id start end_ : Nat) :
    (anonVma id start end_ (TaskData.snapshotVmaOf v garbage).prot).protection = vmRead ||| vmWrite ||| vmExec := by
  have hflag : ∀ flag, flag ≠ 0 → v.vmFlags ||| flag ≠ 0 := fun flag hne h0 => hne (Nat.or_eq_zero_iff.mp h0).2
  unfold VmArea.protection anonVma TaskData.snapshotVmaOf
  dsimp only
  rw [if_pos (hflag vmRead (by decide)), if_pos (hflag vmWrite (by decide)), if_pos (hflag vmExec (by decide)),
    or_protection]
  rfl

/-! ### What `restore_vmas` maps -/

/-- What is mapped was mapped before, or may be read, written and executed. -/
structure Widened (m : Nat) (vmas : List VmArea) (c : Core) : Prop where
  coherent : c.reg.Coherent
  mapped : c.mem.Mapped
  widened : ∀ a w, (c.mem.mm m).vmaAt a = some w → Covers vmas a ∨ w.protection = vmRead ||| vmWrite ||| vmExec

theorem Widened.doMunmap {vmas : List VmArea} (h : Widened m vmas c) (start len : Nat) :
    Widened m vmas (c.doMunmap env m start len).1 := by
  have hsteady : c.Steady env (c.doMunmap env m start len).1 := steady_doMunmap h.coherent
  refine ⟨hsteady.coherent, hsteady.mapped h.mapped, fun a w hw => ?_⟩
  by_cases hres : (c.doMunmap env m start len).2 = 0
  · rw [(doMunmap_mem hres).2.2, mm_setMm_self] at hw
    obtain ⟨v, hv, -, hflags⟩ := find_unmapVmas (h.mapped m).1 hw
    refine (h.widened a v hv).imp_right fun hprot => ?_
    unfold VmArea.protection
    rw [hflags]
    exact hprot
  · rw [doMunmap_failed h.coherent hres] at hw
    exact h.widened a w hw

theorem Widened.mapAnon {vmas : List VmArea} (h : Widened m vmas c) {prot : Nat} (hs : pageSize ∣ start)
    (he : pageSize ∣ end_) (hse : start < end_) (htop : end_ < ulongMax) (hfree : (c.mem.mm m).unmapped start end_ = true)
    (hprot : ∀ id, (anonVma id start end_ prot).protection = vmRead ||| vmWrite ||| vmExec) :
    Widened m vmas (c.setMem (c.mem.setMm m ((c.mem.mm m).mapAnon start end_ prot))) := by
  refine ⟨h.coherent, h.mapped.mapAnon hs he hse htop hfree prot, fun a w hw => ?_⟩
  have hw : ((c.mem.setMm m ((c.mem.mm m).mapAnon start end_ prot)).mm m).vmaAt a = some w := hw
  rw [mm_setMm_self] at hw
  rcases find_insertVma (v := anonVma (c.mem.mm m).freshVma start end_ prot) (h.mapped m).1 hw with ⟨rfl, -⟩ | hold
  · exact Or.inr (hprot _)
  · exact h.widened a w hold

/-- What `restore_vmas` maps for the snapshot's VMAs may be read, written and executed. -/
theorem Widened.restoreVmas (hc : c.reg.Coherent) (hm : c.mem.Mapped) (hS : SnapshotVmasOk allVmas)
    (hrecorded : ∀ ss ∈ allVmas, ∃ v garbage, ss = TaskData.snapshotVmaOf v garbage) {r : Int}
    (hres : restoreVmas (Core.vmOps env m) allVmas c = some (c', r)) : Widened m (c.mem.mm m).mmap c' := by
  refine upholds_same.mp (restoreVmas_ends hS (fun c₁ start len h => upholds_same.mpr (h.doMunmap start len))
    (fun c₁ start end_ ss hss h hs he hse htop hfree => ?_) ?_ hres)
  · obtain ⟨v, garbage, rfl⟩ := hrecorded ss hss
    exact h.mapAnon hs he hse htop hfree fun id => anonVma_protection v garbage id start end_
  · exact ⟨hc, hm, fun a w hw => Or.inl (covers_of_vmaAt hw)⟩

/-! ### The protection -/

/-- What a take that goes through records of the VMAs. -/
theorem take_allVmas {alloc : TakeAlloc} {d : TaskData} {mm₀ : Mm} (hok : VmasOk mm₀.freshVma mm₀.mmap) (hnew : d.Blank)
    (htake : (takeMemorySnapshot alloc d mm₀).2 = 0) : (takeMemorySnapshot alloc d mm₀).1.1.ss.allVmas =
      mm₀.mmap.map fun v => TaskData.snapshotVmaOf v (alloc.garbage v.vmStart) := by
  obtain ⟨done, rest, y, s, hd, hy, hs, hend⟩ := take_taken alloc ⟨hok.ordered, hok.aligned⟩ hnew
  obtain rfl := hend htake
  rw [hs, hd, List.append_nil, hy.allVmas]

/-- What `restore_vmas` maps again has the protection of the take, whatever was unmapped, if and only if each VMA that
    has lost memory could be read, written and executed. -/
theorem gone_protected_iff {alloc : TakeAlloc} {d : TaskData} {mm₀ : Mm} (hok : VmasOk mm₀.freshVma mm₀.mmap)
    (hnew : d.Blank) (htake : (takeMemorySnapshot alloc d mm₀).2 = 0) (hc : c.reg.Coherent) (hm : c.mem.Mapped) :
    (∀ env c' r, restoreVmas (Core.vmOps env m) (takeMemorySnapshot alloc d mm₀).1.1.ss.allVmas c = some (c', r) →
      ∀ a v w, Gone mm₀.mmap (c.mem.mm m).mmap a v → (c'.mem.mm m).vmaAt a = some w → w.protection = v.protection) ↔
    ∀ a v, Gone mm₀.mmap (c.mem.mm m).mmap a v → v.protection = vmRead ||| vmWrite ||| vmExec := by
  rw [take_allVmas hok hnew htake]
  set allVmas := mm₀.mmap.map fun v => TaskData.snapshotVmaOf v (alloc.garbage v.vmStart) with hall
  have hS : SnapshotVmasOk allVmas := by
    have hvmas : VmasOk mm₀.freshVma (mm₀.mmap ++ []) := (List.append_nil mm₀.mmap).symm ▸ hok
    exact hvmas.snapshotVmas alloc.garbage
  have hrecorded : ∀ ss ∈ allVmas, ∃ v garbage, ss = TaskData.snapshotVmaOf v garbage := fun ss hss => by
    obtain ⟨v, -, rfl⟩ := List.mem_map.mp hss
    exact ⟨v, _, rfl⟩
  have hwide : ∀ {env c' r} {a : Nat} {v w : VmArea}, restoreVmas (Core.vmOps env m) allVmas c = some (c', r) →
      Gone mm₀.mmap (c.mem.mm m).mmap a v → (c'.mem.mm m).vmaAt a = some w →
      w.protection = vmRead ||| vmWrite ||| vmExec := by
    intro env c' r a v w hres hgone hw
    exact ((Widened.restoreVmas hc hm hS hrecorded hres).widened a w hw).resolve_left hgone.gone
  constructor
  · intro h a v hgone
    -- Where no call fails the address is mapped again.
    obtain ⟨c', hres, -, -, htarget⟩ := restoreVmas_spec (vmOps_laws .calm m (fun _ _ => rfl) (fun _ _ => rfl) hS) (hm m).1 hS
      (show c.reg.Coherent ∧ c.mem.Mapped from ⟨hc, hm⟩)
    have hcovers : Covers (c'.mem.mm m).mmap a := by
      refine (htarget a).mpr (Or.inl ⟨_, List.mem_map_of_mem hgone.mem, hgone.within, Or.inr ?_⟩)
      show (v.isAnonymous && !v.shared) = true
      rw [hgone.anonymous, hgone.unshared]
      rfl
    obtain ⟨w, hw⟩ := Option.isSome_iff_exists.mp (find_isSome.mpr hcovers)
    rw [← h .calm c' 0 hres a v w hgone hw]
    exact hwide hres hgone hw
  · intro h env c' r hres a v w hgone hw
    rw [h a v hgone]
    exact hwide hres hgone hw

end

/-- A VMA that may be read, written and executed. -/
def rwxVma : VmArea := { heapVma with vmFlags := vmRead ||| vmWrite ||| vmExec }

def rwxMm : Mm := { heapMm with mmap := [rwxVma] }

theorem rwxMm_vmas : VmasOk rwxMm.freshVma rwxMm.mmap :=
  ⟨⟨by decide, List.pairwise_singleton _ _⟩, by decide, by decide, List.pairwise_singleton _ _, by decide⟩

theorem new_take (mm : Mm) : (takeMemorySnapshot .ok (.new 1) mm).2 = 0 :=
  take_goes_through (fun _ => rfl) (fun _ => rfl) _ _

theorem gone_protected_rwx : Gone rwxMm.mmap (halfHeap.mem.mm 0).mmap 8192 rwxVma ∧
    ∀ env c' r, restoreVmas (Core.vmOps env 0) (takeMemorySnapshot .ok (.new 1) rwxMm).1.1.ss.allVmas halfHeap = some (c', r) →
      ∀ a v w, Gone rwxMm.mmap (halfHeap.mem.mm 0).mmap a v → (c'.mem.mm 0).vmaAt a = some w → w.protection = v.protection := by
  refine ⟨⟨List.mem_singleton.mpr rfl, ⟨by decide, by decide⟩, rfl, rfl, find_eq_none.mp (by decide)⟩,
    (gone_protected_iff rwxMm_vmas ⟨rfl, rfl, rfl, rfl⟩ (new_take rwxMm) halfHeap_ok.1 halfHeap_ok.2).mpr ?_⟩
  intro a v hgone
  rw [List.mem_singleton.mp hgone.mem]
  rfl

/-- The second page of the heap, which was to be read and written, is mapped again as executable. -/
theorem gone_protected_fails : Gone heapMm.mmap (halfHeap.mem.mm 0).mmap 8192 heapVma ∧
    heapVma.protection = vmRead ||| vmWrite ∧
    ∃ c' w, restoreVmas (Core.vmOps .calm 0) (takeMemorySnapshot .ok (.new 1) heapMm).1.1.ss.allVmas halfHeap = some (c', 0) ∧
      (c'.mem.mm 0).vmaAt 8192 = some w ∧ w.protection = vmRead ||| vmWrite ||| vmExec := by
  have hgone : ¬Covers (halfHeap.mem.mm 0).mmap 8192 := find_eq_none.mp (by decide)
  refine ⟨⟨List.mem_singleton.mpr rfl, ⟨by decide, by decide⟩, rfl, rfl, hgone⟩, rfl, ?_⟩
  rw [take_allVmas heapMm_vmas ⟨rfl, rfl, rfl, rfl⟩ (new_take heapMm)]
  have hres : (restoreVmas (Core.vmOps .calm 0) heapVmas halfHeap).map
      (fun r => (r.2, ((r.1.mem.mm 0).vmaAt 8192).map VmArea.protection)) = some (0, some 7) := by decide
  obtain ⟨⟨c', r⟩, hc', heq⟩ := Option.map_eq_some_iff.mp hres
  obtain rfl : r = 0 := congrArg Prod.fst heq
  obtain ⟨w, hw, hprot⟩ := Option.map_eq_some_iff.mp (congrArg Prod.snd heq)
  exact ⟨c', w, hc', hw, hprot⟩

end AflSnapshot
