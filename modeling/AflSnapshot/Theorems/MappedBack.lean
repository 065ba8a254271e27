import AflSnapshot.Theorems.Reachable

/-! # What is mapped after `restore_vmas`

Where nothing fails and nothing is missing that cannot be mapped again, `restore_vmas` leaves exactly the snapshot's
VMAs mapped, unless it maps a gap between them again that it has just unmapped. -/

namespace AflSnapshot
open Spans

section
variable {env : Env} {m : Nat} {c : Core} {allVmas : List SnapshotVma}

/-- The address is missing only where it can be mapped again. -/
def MissingSpare (vmas : List VmArea) (allVmas : List SnapshotVma) : Prop :=
  ∀ a, Covers allVmas a → ¬Covers vmas a → ∃ x ∈ allVmas, In a x ∧ x.isAnonymousPrivate = true

theorem target_iff {vmas : List VmArea} (hspare : MissingSpare vmas allVmas) (a : Nat) :
    Target vmas allVmas a ↔ Covers allVmas a ∨ RefilledGap vmas allVmas a := by
  refine or_congr_left ⟨fun ⟨x, hx, hin, _⟩ => ⟨x, hx, hin⟩, fun hc => ?_⟩
  by_cases hmapped : Covers vmas a
  · obtain ⟨x, hx, hin⟩ := hc
    exact ⟨x, hx, hin, Or.inl hmapped⟩
  · obtain ⟨x, hx, hin, hanon⟩ := hspare a hc hmapped
    exact ⟨x, hx, hin, Or.inr hanon⟩

/-- `restore_vmas` comes to its end, and exactly the snapshot's VMAs are mapped then if and only if there is no gap between
    two of them that one VMA covers together with memory on both sides, the upper one being anonymous and private. -/
theorem restoreVmas_maps_iff (hc : c.reg.Coherent) (hm : c.mem.Mapped) (hS : SnapshotVmasOk allVmas)
    (hunmap : ∀ a n, env.vmMunmap a n = true) (hmap : ∀ a n, env.vmMmap a n = true)
    (hspare : MissingSpare (c.mem.mm m).mmap allVmas) :
    ∃ c', restoreVmas (Core.vmOps env m) allVmas c = some (c', 0) ∧
      ((∀ a, Covers (c'.mem.mm m).mmap a ↔ Covers allVmas a) ↔ ∀ a, ¬RefilledGap (c.mem.mm m).mmap allVmas a) := by
  obtain ⟨c', hres, -, -, htarget⟩ :=
    restoreVmas_spec (vmOps_laws env m hunmap hmap hS) (hm m).1 hS (show c.reg.Coherent ∧ c.mem.Mapped from ⟨hc, hm⟩)
  have htarget : ∀ a, Covers (c'.mem.mm m).mmap a ↔ Covers allVmas a ∨ RefilledGap (c.mem.mm m).mmap allVmas a := fun a =>
    (htarget a).trans (target_iff hspare a)
  refine ⟨c', hres, fun h a hgap => hgap.not_covers ?_, fun hno a => ?_⟩
  · exact (h a).mp ((htarget a).mpr (Or.inr hgap))
  · rw [htarget a]
    exact or_iff_left (hno a)

/-- The heap was unmapped and its first page mapped anew. -/
def halfHeap : Core := (World.boot { heapMm with mmap := [⟨0, 4096, 8192, vmRead ||| vmWrite, none⟩] } [1]).core

theorem halfHeap_ok : halfHeap.reg.Coherent ∧ halfHeap.mem.Mapped := by
  have hvmas : VmasOk 1 [⟨0, 4096, 8192, vmRead ||| vmWrite, none⟩] :=
    ⟨⟨by decide, List.pairwise_singleton _ _⟩, by decide, by decide, List.pairwise_singleton _ _, by decide⟩
  have hkept : (World.boot { heapMm with mmap := [⟨0, 4096, 8192, vmRead ||| vmWrite, none⟩] } [1]).Kept :=
    boot_kept [1] hvmas (by decide)
  exact ⟨hkept.coherent, hkept.mapped⟩

/-- The snapshot of the heap. -/
def heapVmas : List SnapshotVma := [TaskData.snapshotVmaOf heapVma 0]

theorem heapVmas_ok : SnapshotVmasOk heapVmas :=
  ⟨⟨by decide, List.pairwise_singleton _ _⟩, by decide, by decide⟩

theorem restoreVmas_maps_heap : ∃ c', restoreVmas (Core.vmOps .calm 0) heapVmas halfHeap = some (c', 0) ∧
    ∀ a, Covers (c'.mem.mm 0).mmap a ↔ Covers heapVmas a := by
  have hspare : MissingSpare (halfHeap.mem.mm 0).mmap heapVmas := fun a ⟨x, hx, hin⟩ _ =>
    ⟨x, hx, hin, by rw [List.mem_singleton.mp hx]; rfl⟩
  obtain ⟨c', hres, hiff⟩ := restoreVmas_maps_iff halfHeap_ok.1 halfHeap_ok.2 heapVmas_ok calm_ok.vmMunmap calm_ok.vmMmap
    hspare
  refine ⟨c', hres, hiff.mpr ?_⟩
  -- There is but one VMA in the snapshot, so that there is no gap.
  rintro a ⟨-, -, prev, hprev, next, hnext, -, -, -, -, h1, h2⟩
  have hpos : next.vmStart < next.vmEnd := heapVmas_ok.ordered.pos next hnext
  rw [List.mem_singleton.mp hprev, ← List.mem_singleton.mp hnext] at h1
  omega

/-- A VMA of three pages, where the snapshot has the first and the last one. -/
def threePages : Core := (World.boot { heapMm with mmap := [⟨0, 4096, 16384, vmRead ||| vmWrite, none⟩] } [1]).core

def outerPages : List SnapshotVma :=
  [TaskData.snapshotVmaOf ⟨0, 4096, 8192, vmRead ||| vmWrite, none⟩ 0,
    TaskData.snapshotVmaOf ⟨1, 12288, 16384, vmRead ||| vmWrite, none⟩ 0]

/-- The page in the middle is mapped again after it was unmapped. -/
theorem restoreVmas_maps_fails : SnapshotVmasOk outerPages ∧ MissingSpare (threePages.mem.mm 0).mmap outerPages ∧
    ∃ c', restoreVmas (Core.vmOps .calm 0) outerPages threePages = some (c', 0) ∧
      ¬∀ a, Covers (c'.mem.mm 0).mmap a ↔ Covers outerPages a := by
  have hanon : ∀ x ∈ outerPages, x.isAnonymousPrivate = true := by decide
  refine ⟨⟨⟨by decide, by decide⟩, by decide, by decide⟩, fun a ⟨x, hx, hin⟩ _ => ⟨x, hx, hin, hanon x hx⟩, ?_⟩
  have hres : (restoreVmas (Core.vmOps .calm 0) outerPages threePages).map (fun r => (r.2, ((r.1.mem.mm 0).vmaAt 8192).isSome)) =
      some (0, true) := by decide
  obtain ⟨⟨c', res⟩, hc', heq⟩ := Option.map_eq_some_iff.mp hres
  obtain rfl : res = 0 := congrArg Prod.fst heq
  refine ⟨c', hc', fun h => ?_⟩
  obtain ⟨v, hv⟩ := Option.isSome_iff_exists.mp (congrArg Prod.snd heq)
  obtain ⟨x, hx, h1, h2⟩ := (h 8192).mp (covers_of_vmaAt hv)
  have hout : ∀ x ∈ outerPages, ¬(x.vmStart ≤ 8192 ∧ 8192 < x.vmEnd) := by decide
  exact hout x hx ⟨h1, h2⟩

end
end AflSnapshot
