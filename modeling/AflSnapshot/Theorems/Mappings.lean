import AflSnapshot.Theorems.Restoring
import AflSnapshot.Theorems.Sweep

/-! # Mappings under a live snapshot

How the calls that unmap, map and protect memory keep `Restorable`. The hook of `__do_munmap` saves the clean
pages of the range before they are gone. -/

namespace AflSnapshot
open PageWalk

section
variable {mm : Mm} {start end_ prot fresh a p : Nat} {v w : VmArea} {l : List VmArea}

/-! ### The pages that the hook walks -/

theorem mem_pteAddrs {s e : Nat} (h : p ∈ pteAddrs s e) : s ≤ p ∧ p < e := by
  obtain ⟨i, hi, rfl⟩ := List.mem_map.mp h
  have hi : i < (e - s + (pageSize - 1)) / pageSize := List.mem_range.mp hi
  have := Nat.div_mul_le_self (e - s + (pageSize - 1)) pageSize
  have h2 : (i + 1) * pageSize ≤ (e - s + (pageSize - 1)) / pageSize * pageSize := Nat.mul_le_mul_right _ hi
  have h3 : (i + 1) * pageSize = i * pageSize + pageSize := Nat.succ_mul ..
  simp only [pageSize] at *
  omega

theorem mem_pteAddrs_of {s e : Nat} (hs : pageSize ∣ s) (hp : pageSize ∣ p) (hsp : s ≤ p) (hpe : p < e) :
    p ∈ pteAddrs s e := by
  obtain ⟨i, rfl⟩ := hs
  obtain ⟨j, rfl⟩ := hp
  have hij : i ≤ j := Nat.le_of_mul_le_mul_left hsp (by decide)
  refine List.mem_map.mpr ⟨j - i, List.mem_range.mpr ?_, ?_⟩
  · rw [Nat.lt_iff_add_one_le, Nat.le_div_iff_mul_le (by decide)]
    simp only [pageSize] at *
    omega
  · simp only [pageSize]
    omega

theorem mem_walkPageRange (h : p ∈ walkPageRange mm start end_) : start ≤ p ∧ p < end_ ∧ Spans.Covers mm.mmap p := by
  obtain ⟨hmem, -⟩ := List.mem_filter.mp h
  obtain ⟨v, hv, hp⟩ := List.mem_flatMap.mp hmem
  obtain ⟨c, hc, hp⟩ := List.mem_flatMap.mp hp
  have h1 := mem_pteAddrs hp
  have h2 := mem_pieces mm.pmd.pos hc
  refine ⟨by omega, by omega, v, hv, ?_⟩
  show v.vmStart ≤ p ∧ p < v.vmEnd
  omega

theorem mem_walkPageRange_of (hok : VmasOk fresh mm.mmap) (hs : pageSize ∣ start) (hp : pageSize ∣ p) (hsp : start ≤ p)
    (hpe : p < end_) (hcov : Spans.Covers mm.mmap p) (hslot : mm.slot p = true) : p ∈ walkPageRange mm start end_ := by
  obtain ⟨v, hv, hlo, hhi⟩ := hcov
  have hlo : v.vmStart ≤ p := hlo
  have hhi : p < v.vmEnd := hhi
  refine List.mem_filter.mpr ⟨List.mem_flatMap.mpr ⟨v, hv, ?_⟩, hslot⟩
  have ha : pageSize ∣ max start v.vmStart := by
    rcases max_choice start v.vmStart with h | h <;> rw [h]
    · exact hs
    · exact (hok.aligned v hv).1
  obtain ⟨c, hc, h1, h2, h3⟩ := exists_piece (b := min end_ v.vmEnd) mm.pmd.pos mm.pmd.dvd ha (max_le hsp hlo)
    (lt_min hpe hhi) le_rfl
  exact List.mem_flatMap.mpr ⟨c, hc, mem_pteAddrs_of h3 hp h1 h2⟩

/-! ### The edited lists -/

theorem pageAlign_dvd (n : Nat) : pageSize ∣ pageAlign n := Nat.dvd_sub_mod _

theorem le_pageAlign (n : Nat) : n ≤ pageAlign n := by
  unfold pageAlign pageBase
  simp only [pageSize]
  omega

theorem pageAlign_of_dvd {n : Nat} (h : pageSize ∣ n) : pageAlign n = n := by
  obtain ⟨i, rfl⟩ := h
  unfold pageAlign pageBase
  simp only [pageSize]
  omega

/-- The parts of a VMA are of its kind. -/
theorem unmapVma_kind (hw : w ∈ unmapVma start end_ fresh v) : w.file = v.file ∧ w.vmFlags = v.vmFlags := by
  unfold unmapVma at hw
  split at hw
  · rw [List.mem_singleton.mp hw]
    exact ⟨rfl, rfl⟩
  split at hw
  · split at hw
    · rcases List.mem_cons.mp hw with rfl | hw
      · exact ⟨rfl, rfl⟩
      · rw [List.mem_singleton.mp hw]
        exact ⟨rfl, rfl⟩
    · rw [List.mem_singleton.mp hw]
      exact ⟨rfl, rfl⟩
  · split at hw
    · rw [List.mem_singleton.mp hw]
      exact ⟨rfl, rfl⟩
    · cases hw

theorem find_unmapVmas (hok : VmasOk fresh l) :
    Spans.find (unmapVmas start end_ fresh l) a = some w →
      ∃ v, Spans.find l a = some v ∧ w.file = v.file ∧ w.vmFlags = v.vmFlags := by
  intro hw
  obtain ⟨hmem, hin⟩ := Spans.find_mem hw
  obtain ⟨v, hv, hwv⟩ := List.mem_flatMap.mp hmem
  have hwithin := unmapVma_within (hok.ordered.pos v hv) hwv
  refine ⟨v, (Spans.Ordered.find_eq_some hok.ordered).mpr ⟨hv, ?_, ?_⟩, unmapVma_kind hwv⟩
  · exact le_trans hwithin.1 hin.1
  · exact lt_of_lt_of_le hin.2 hwithin.2.2.1

/-- The tables under a VMA stay. -/
theorem slot_unmap (h : Spans.Covers (mm.unmap start end_).mmap p) : (mm.unmap start end_).slot p = mm.slot p := by
  obtain ⟨v, hv, hlo, hhi⟩ := h
  have hlo : v.vmStart ≤ p := hlo
  have hhi : p < v.vmEnd := hhi
  have hkeep : ∀ l : Level pageSize, (freeLevel (mm.unmap start end_).mmap start end_ l).populated (p / l.size) =
      l.populated (p / l.size) := fun l => by
    have h1 : p / l.size * l.size ≤ p := Nat.div_mul_le_self p l.size
    have h2 : p < (p / l.size + 1) * l.size := (Nat.div_lt_iff_lt_mul l.pos).mp (Nat.lt_succ_self _)
    have hnot : ((mm.unmap start end_).mmap.all fun v => decide (v.vmEnd ≤ p / l.size * l.size) ||
        decide ((p / l.size + 1) * l.size ≤ v.vmStart)) = false := by
      refine List.all_eq_false.mpr ⟨v, hv, ?_⟩
      simp only [Bool.or_eq_true, decide_eq_true_eq, not_or]
      omega
    simp only [freeLevel, hnot, Bool.and_false, Bool.not_false, Bool.and_true]
  simp only [Mm.slot]
  exact congrArg₂ _ (congrArg₂ _ (congrArg₂ _ (hkeep mm.pgd) (hkeep mm.p4d)) (hkeep mm.pud)) (hkeep mm.pmd)

theorem Mm.Ok.unmap (hok : mm.Ok) (hs : pageSize ∣ start) (he : pageSize ∣ end_) (hse : start < end_) :
    (mm.unmap start end_).Ok where
  vmas := hok.vmas.unmap hs he hse
  pte p f w hp := by
    have hp : (if start ≤ p ∧ p < end_ then Pte.none else mm.pte p) = .present f w := hp
    split at hp
    · cases hp
    · rename_i hout
      obtain ⟨h1, h2, h3⟩ := hok.pte p f w hp
      have hcov : Spans.Covers (mm.unmap start end_).mmap p := (covers_unmapVmas hse).mpr ⟨h3, hout⟩
      exact ⟨(slot_unmap hcov).trans h1, h2, hcov⟩

theorem Memory.Restricts.unmap {mem : Memory} {m : Nat} (hok : (mem.mm m).Ok) :
    mem.Restricts (mem.setMm m ((mem.mm m).unmap start end_)) := .setMm fun p f w hp => by
  have hp : (if start ≤ p ∧ p < end_ then Pte.none else (mem.mm m).pte p) = .present f w := hp
  split at hp
  · cases hp
  · refine ⟨⟨w, hp, fun h => h⟩, fun v' hv' => ?_⟩
    obtain ⟨v, hv, -, hflags⟩ := find_unmapVmas hok.vmas hv'
    exact ⟨v, hv, by rw [VmArea.shared, VmArea.shared, hflags]⟩

end

/-! ### Unmapping -/

section
variable {h : Home} {c : Core} {env : Env} {m p start end_ len : Nat} {sp : SnapshotPage} {v v₀ : VmArea} {B : Page}

theorem recorded_dirty (sp : SnapshotPage) (B : Page) (alloc : Bool) :
    (sp.recorded B alloc).dirty = true ∨ (sp.recorded B alloc).isNonePte = true := by
  unfold SnapshotPage.recorded
  split
  · rename_i hskip
    exact Bool.or_eq_true_iff.mp hskip
  · split
    · exact Or.inl rfl
    · split <;> exact Or.inl rfl

/-- The hook saves the clean pages of a range of private mappings. -/
theorem Restorable.doMunmapHook (hR : Restorable h c) (halloc : ∀ p, env.pageData p = true)
    (hpriv : ∀ a v, start ≤ a → a < start + len → (c.mem.mm h.m).vmaAt a = some v → v.shared = false) :
    Restorable h (c.doMunmapHook env h.m start len) ∧ (c.doMunmapHook env h.m start len).mem = c.mem ∧
    ∀ p f w, p ∈ walkPageRange (c.mem.mm h.m) start (start + len) → (c.mem.mm h.m).pte p = .present f w →
      ∀ sp, ((c.doMunmapHook env h.m start len).reg.data h.id).getSnapshotPage p = some sp →
        sp.dirty = true ∨ sp.isNonePte = true := by
  obtain ⟨ht, hmem, -⟩ := doMunmapHook_spec env h.m start len hR.coherent
  set c' := c.doMunmapHook env h.m start len
  obtain ⟨hsame, hentry, hqueued, -⟩ := ht.data h.id hR.live
  refine ⟨⟨hmem ▸ hR.sane, ht.coherent, ?_, hmem ▸ hR.used, hR.same.trans hsame, hqueued hR.queued, ?_, ?_, ?_, ?_, ?_⟩, hmem, ?_⟩
  · rw [ht.live, hmem, hR.live]
  · rw [hmem]
    exact hR.kind
  · rw [hmem]
    exact hR.gone
  · rw [hmem]
    exact hR.brk
  · intro p v₀ hsel hv₀
    have hk := hR.pages p v₀ hsel hv₀
    rw [hmem, hentry]
    split
    · rename_i hin
      obtain ⟨h1, h2, hcov⟩ := mem_walkPageRange hin
      obtain ⟨v, hv⟩ := Option.isSome_iff_exists.mp (Spans.find_isSome.mpr hcov)
      have hs : v₀.shared = false := by rw [← (hR.vma hv hv₀).2, hpriv p v h1 h2 hv]
      refine ⟨fun hsh => ?_, fun _ => ?_⟩
      · rw [hs] at hsh
        cases hsh
      · rw [halloc p]
        exact (hk.ok hs).record
    · exact hk
  · intro p sp hsel hsp
    rw [hentry] at hsp
    have hold : OnDemand ((c.reg.data h.id).getSnapshotPage p) := fun sp hsp => hR.loose p sp hsel hsp
    split at hsp
    · exact hold.recorded sp hsp
    · exact hold sp hsp
  · intro p f w hin hpte sp hsp
    rw [hentry, if_pos hin] at hsp
    obtain ⟨sp₀, -, rfl⟩ := Option.map_eq_some_iff.mp hsp
    exact recorded_dirty sp₀ _ _

/-- A new address space of the process that keeps the pages' states. -/
theorem Restorable.setMm (hR : Restorable h c) {mm : Mm} (hmm : mm.Ok) (hr : c.mem.Restricts (c.mem.setMm h.m mm))
    (howner : mm.owner = (c.mem.mm h.m).owner)
    (hkind : ∀ a v, mm.vmaAt a = some v → ∃ v₀, h.mm.vmaAt a = some v₀ ∧ v.file = v₀.file ∧ v.shared = v₀.shared)
    (hgone : ∀ a, Spans.Covers h.mm.mmap a → ¬Spans.Covers mm.mmap a → h.Spare a)
    (hbrk : mm.brk = h.data.ss.oldbrk ∨ mm.brk ≤ h.data.ss.oldbrk ∧ pageSize ∣ h.data.ss.oldbrk ∧
      ∀ a, mm.brk ≤ a → a < h.data.ss.oldbrk → h.Spare a)
    (hpages : ∀ p v₀, h.sel p → h.mm.vmaAt p = some v₀ →
      PageKept (c.mem.setMm h.m mm) h.m p v₀ (h.content p) ((c.reg.data h.id).getSnapshotPage p)) :
    Restorable h (c.setMem (c.mem.setMm h.m mm)) where
  sane := hR.sane.setMm hmm hr fun hm => absurd hR.used (Nat.not_lt.mpr hm)
  coherent := hR.coherent
  live := by
    show c.reg.live ((c.mem.setMm h.m mm).mm h.m).owner = some h.id
    rw [mm_setMm_self, howner, hR.live]
  used := hR.used
  same := hR.same
  queued := hR.queued
  kind a v hv := by
    have hv : ((c.mem.setMm h.m mm).mm h.m).vmaAt a = some v := hv
    rw [mm_setMm_self] at hv
    exact hkind a v hv
  gone a ha hnot := by
    have hnot : ¬Spans.Covers ((c.mem.setMm h.m mm).mm h.m).mmap a := hnot
    rw [mm_setMm_self] at hnot
    exact hgone a ha hnot
  brk := by
    show ((c.mem.setMm h.m mm).mm h.m).brk = _ ∨ ((c.mem.setMm h.m mm).mm h.m).brk ≤ _ ∧ _ ∧
      ∀ a, ((c.mem.setMm h.m mm).mm h.m).brk ≤ a → _
    rw [mm_setMm_self]
    exact hbrk
  pages := hpages
  loose := hR.loose

/-- Memory that can be mapped again is unmapped, its clean pages being saved. -/
theorem Restorable.unmap (hR : Restorable h c) (hs : pageSize ∣ start) (he : pageSize ∣ end_) (hse : start < end_)
    (hspare : ∀ a, start ≤ a → a < end_ → Spans.Covers h.mm.mmap a → h.Spare a)
    (hsaved : ∀ p f w sp, start ≤ p → p < end_ → (c.mem.mm h.m).pte p = .present f w →
      (c.reg.data h.id).getSnapshotPage p = some sp → sp.dirty = true ∨ sp.isNonePte = true) :
    Restorable h (c.setMem (c.mem.setMm h.m ((c.mem.mm h.m).unmap start end_))) := by
  have hok := hR.sane.mms h.m
  have hr : c.mem.Restricts (c.mem.setMm h.m ((c.mem.mm h.m).unmap start end_)) := .unmap hok
  refine hR.setMm (hok.unmap hs he hse) hr rfl (fun a v hv => ?_) (fun a ha hnot => ?_) hR.brk
    fun p v₀ hsel hv₀ => ?_
  · obtain ⟨v', hv', hfile, hflags⟩ := find_unmapVmas hok.vmas hv
    obtain ⟨v₀, hv₀, hfile₀, hshared₀⟩ := hR.kind a v' hv'
    exact ⟨v₀, hv₀, hfile.trans hfile₀, by rw [← hshared₀, VmArea.shared, VmArea.shared, hflags]⟩
  · by_cases hin : start ≤ a ∧ a < end_
    · exact hspare a hin.1 hin.2 ha
    · exact hR.gone a ha fun hc => hnot ((covers_unmapVmas hse).mpr ⟨hc, hin⟩)
  · have hk := hR.pages p v₀ hsel hv₀
    have hpte : ((c.mem.setMm h.m ((c.mem.mm h.m).unmap start end_)).mm h.m).pte p =
        if start ≤ p ∧ p < end_ then .none else (c.mem.mm h.m).pte p := by
      rw [mm_setMm_self]
      rfl
    by_cases hin : start ≤ p ∧ p < end_
    · rw [if_pos hin] at hpte
      obtain ⟨-, v₁, hv₁, -, hs₁⟩ := hspare p hin.1 hin.2 (covers_of_vmaAt hv₀)
      obtain rfl : v₀ = v₁ := Option.some.inj (hv₀.symm.trans hv₁)
      refine ⟨fun hsh => ?_, fun _ => ?_⟩
      · rw [hs₁] at hsh
        cases hsh
      · have hk := hk.ok hs₁
        have hsaved : ∀ f w sp, (c.mem.mm h.m).pte p = .present f w → (c.reg.data h.id).getSnapshotPage p = some sp →
            sp.dirty = true ∨ sp.isNonePte = true := fun f w sp => hsaved p f w sp hin.1 hin.2
        generalize (c.reg.data h.id).getSnapshotPage p = o at hk hsaved
        cases hk with
        | absent hb hB => exact .absent (Or.inl hpte) hB
        | untouched hnone hpriv hdirty hq hb hB => exact .untouched hnone hpriv hdirty hq (Or.inl hpte) hB
        | clean hnone hdirty hq hp hf hcopy hown =>
          have := hsaved _ _ _ hp rfl
          simp [hnone, hdirty] at this
        | opened ho => exact .opened ho
    · rw [if_neg hin] at hpte
      exact hk.congr rfl hpte rfl (fun f w hp => rfl)
        fun f w hp hex => hex.restrict (hR.sane.pfn h.m p f w hp) hr

/-- `munmap` of private memory that can be mapped again. -/
theorem Restorable.doMunmap (hR : Restorable h c) (henv : env.Ok) (hs : pageSize ∣ start) (hlen : 0 < len)
    (hspare : ∀ a, start ≤ a → a < start + pageAlign len → Spans.Covers h.mm.mmap a → h.Spare a) :
    Restorable h (c.doMunmap env h.m start len).1 ∧ (c.doMunmap env h.m start len).2 = 0 ∧
      (c.doMunmap env h.m start len).1.mem = c.mem.setMm h.m ((c.mem.mm h.m).unmap start (start + pageAlign len)) := by
  have hle := le_pageAlign len
  have hpriv : ∀ a v, start ≤ a → a < start + len → (c.mem.mm h.m).vmaAt a = some v → v.shared = false := by
    intro a v h1 h2 hv
    obtain ⟨v₀, hv₀, -, hshared⟩ := hR.kind a v hv
    obtain ⟨-, v₁, hv₁, -, hs₁⟩ := hspare a h1 (by omega) (covers_of_vmaAt hv₀)
    obtain rfl : v₀ = v₁ := Option.some.inj (hv₀.symm.trans hv₁)
    rw [hshared, hs₁]
  obtain ⟨hR', hmem, hsaved⟩ := hR.doMunmapHook henv.pageData hpriv
  unfold Core.doMunmap
  rw [if_neg (by rintro (h1 | h1); exact h1 (Nat.mod_eq_zero_of_dvd hs); omega), if_pos (henv.vmMunmap start len)]
  refine ⟨?_, rfl, by rw [hmem]; rfl⟩
  refine hR'.unmap hs (Nat.dvd_add hs (pageAlign_dvd len)) (by omega) hspare fun p f w sp h1 h2 hpte hsp => ?_
  rw [hmem] at hpte
  obtain ⟨hslot, hd, hcov⟩ := (hR.sane.mms h.m).pte p f w hpte
  refine hsaved p f w (mem_walkPageRange_of (hR.sane.mms h.m).vmas hs hd h1 ?_ hcov hslot) hpte sp hsp
  -- A page that starts before the aligned end starts before the end.
  obtain ⟨i, rfl⟩ := hs
  obtain ⟨j, rfl⟩ := hd
  unfold pageAlign pageBase at h2
  simp only [pageSize] at *
  omega

/-! ### Mapping -/

theorem Mm.unmapped_iff {mm : Mm} (hok : VmasOk mm.freshVma mm.mmap) (hse : start < end_) :
    mm.unmapped start end_ = true ↔ ∀ a, start ≤ a → a < end_ → ¬Spans.Covers mm.mmap a := by
  unfold Mm.unmapped
  simp only [List.all_eq_true, Bool.or_eq_true, decide_eq_true_eq]
  constructor
  · rintro hall a h1 h2 ⟨v, hv, hlo, hhi⟩
    have hlo : v.vmStart ≤ a := hlo
    have hhi : a < v.vmEnd := hhi
    rcases hall v hv with h | h <;> omega
  · intro hfree v hv
    by_contra hnot
    have hpos : v.vmStart < v.vmEnd := hok.ordered.pos v hv
    refine hfree (max start v.vmStart) (le_max_left _ _) (by omega) ⟨v, hv, le_max_right _ _, ?_⟩
    show max start v.vmStart < v.vmEnd
    omega

/-- The VMA that `Mm.mapAnon` inserts. -/
def anonVma (id start end_ prot : Nat) : VmArea :=
  ⟨id, start, end_, prot &&& (protRead ||| protWrite ||| protExec), none⟩

theorem anonVma_shared (id start end_ prot : Nat) : (anonVma id start end_ prot).shared = false := by
  have h0 : (prot &&& (protRead ||| protWrite ||| protExec)) &&& vmShared = 0 := by
    rw [Nat.and_assoc]
    exact Nat.and_zero prot
  show ((prot &&& (protRead ||| protWrite ||| protExec)) &&& vmShared != 0) = false
  rw [h0]
  rfl

theorem anonVma_writable (id start end_ prot : Nat) (hw : hasFlag prot protWrite = true) :
    (anonVma id start end_ prot).writable = true := by
  have h0 : (prot &&& (protRead ||| protWrite ||| protExec)) &&& vmWrite = prot &&& protWrite := by
    rw [Nat.and_assoc]
    rfl
  show ((prot &&& (protRead ||| protWrite ||| protExec)) &&& vmWrite != 0) = true
  rw [h0]
  exact hw

theorem find_insertVma {fresh a : Nat} {l : List VmArea} (hok : VmasOk fresh l) {v w : VmArea}
    (hw : Spans.find (insertVma v l) a = some w) : w = v ∧ Spans.In a v ∨ Spans.find l a = some w := by
  obtain ⟨hmem, hin⟩ := Spans.find_mem hw
  rcases mem_insertVma.mp hmem with rfl | hmem
  · exact Or.inl ⟨rfl, hin⟩
  · exact Or.inr ((Spans.Ordered.find_eq_some hok.ordered).mpr ⟨hmem, hin⟩)

theorem Mm.Ok.mapAnon {mm : Mm} (hok : mm.Ok) (hs : pageSize ∣ start) (he : pageSize ∣ end_) (hse : start < end_)
    (htop : end_ < ulongMax) (hfree : ∀ a, start ≤ a → a < end_ → ¬Spans.Covers mm.mmap a) (prot : Nat) :
    (mm.mapAnon start end_ prot).Ok := by
  refine ⟨hok.vmas.insert (v := anonVma mm.freshVma start end_ prot) hs he hse htop rfl hfree, fun p f w hp => ?_⟩
  obtain ⟨h1, h2, h3⟩ := hok.pte p f w hp
  exact ⟨h1, h2, covers_insertVma.mpr (Or.inr h3)⟩

/-- Free memory that can be mapped again is mapped. -/
theorem Restorable.mapAnon (hok : h.Ok) (hR : Restorable h c) (hs : pageSize ∣ start) (he : pageSize ∣ end_)
    (hse : start < end_) (hfree : ∀ a, start ≤ a → a < end_ → ¬Spans.Covers (c.mem.mm h.m).mmap a)
    (hspare : ∀ a, start ≤ a → a < end_ → h.Spare a) (prot : Nat) :
    Restorable h (c.setMem (c.mem.setMm h.m ((c.mem.mm h.m).mapAnon start end_ prot))) := by
  have hmm := hR.sane.mms h.m
  set v := anonVma (c.mem.mm h.m).freshVma start end_ prot with hv
  have hmmap : ((c.mem.mm h.m).mapAnon start end_ prot).mmap = insertVma v (c.mem.mm h.m).mmap := rfl
  -- The home mapping reaches to the end of the range.
  have htop : end_ < ulongMax := by
    obtain ⟨-, v₀, hv₀, -, -⟩ := hspare (end_ - 1) (by omega) (by omega)
    obtain ⟨hmem, hlo, hhi⟩ := Spans.find_mem hv₀
    have hhi : end_ - 1 < v₀.vmEnd := hhi
    have := hok.vmas.top v₀ hmem
    omega
  have hvma : ∀ a v', ((c.mem.mm h.m).mapAnon start end_ prot).vmaAt a = some v' →
      v' = v ∧ start ≤ a ∧ a < end_ ∨ (c.mem.mm h.m).vmaAt a = some v' := fun a v' hv' => find_insertVma hmm.vmas hv'
  have hr : c.mem.Restricts (c.mem.setMm h.m ((c.mem.mm h.m).mapAnon start end_ prot)) := .setMm fun p f w hp => by
    refine ⟨⟨w, hp, fun h => h⟩, fun v' hv' => ?_⟩
    rcases hvma p v' hv' with ⟨-, h1, h2⟩ | hold
    · exact absurd (hmm.pte p f w hp).2.2 (hfree p h1 h2)
    · exact ⟨v', hold, rfl⟩
  refine hR.setMm (hmm.mapAnon hs he hse htop hfree prot) hr rfl (fun a v' hv' => ?_) (fun a ha hnot => ?_) hR.brk
    fun p v₀ hsel hv₀ => ?_
  · rcases hvma a v' hv' with ⟨rfl, h1, h2⟩ | hold
    · obtain ⟨-, v₀, hv₀, hfile, hshared⟩ := hspare a h1 h2
      exact ⟨v₀, hv₀, hfile.symm, (anonVma_shared ..).trans hshared.symm⟩
    · exact hR.kind a v' hold
  · refine hR.gone a ha fun hc => hnot ?_
    rw [hmmap, covers_insertVma]
    exact Or.inr hc
  · refine (hR.pages p v₀ hsel hv₀).congr rfl ?_ rfl (fun f w hp => rfl)
      fun f w hp hex => hex.restrict (hR.sane.pfn h.m p f w hp) hr
    rw [mm_setMm_self]
    rfl

/-! ### The break -/

/-- The break moves within what can be mapped again. -/
theorem Restorable.setBrk (hR : Restorable h c) {b : Nat}
    (hb : b = h.data.ss.oldbrk ∨ b ≤ h.data.ss.oldbrk ∧ pageSize ∣ h.data.ss.oldbrk ∧
      ∀ a, b ≤ a → a < h.data.ss.oldbrk → h.Spare a) : Restorable h (c.setBrk h.m b) := by
  have hr : c.mem.Restricts (c.mem.setMm h.m { c.mem.mm h.m with brk := b }) :=
    .setMm fun p f w hp => ⟨⟨w, hp, fun h => h⟩, fun v' hv' => ⟨v', hv', rfl⟩⟩
  have hok := hR.sane.mms h.m
  refine hR.setMm ⟨hok.vmas, hok.pte⟩ hr rfl hR.kind hR.gone hb fun p v₀ hsel hv₀ => ?_
  refine (hR.pages p v₀ hsel hv₀).congr rfl ?_ rfl (fun f w hp => rfl)
    fun f w hp hex => hex.restrict (hR.sane.pfn h.m p f w hp) hr
  rw [mm_setMm_self]

/-- The process lowers its break over memory that can be mapped again. -/
theorem Restorable.brkShrink (hR : Restorable h c) (henv : env.Ok) {b : Nat} (hb : pageSize ∣ b)
    (hcur : pageSize ∣ (c.mem.mm h.m).brk) (hold : pageSize ∣ h.data.ss.oldbrk)
    (hspare : ∀ a, b ≤ a → a < (c.mem.mm h.m).brk → h.Spare a) : Restorable h (c.brkShrink env h.m b) := by
  unfold Core.brkShrink
  dsimp only
  split
  swap
  · exact hR
  rename_i hle
  have hnew : b = h.data.ss.oldbrk ∨ b ≤ h.data.ss.oldbrk ∧ pageSize ∣ h.data.ss.oldbrk ∧
      ∀ a, b ≤ a → a < h.data.ss.oldbrk → h.Spare a := by
    refine Or.inr ⟨?_, hold, fun a h1 h2 => ?_⟩
    · rcases hR.brk with hbrk | ⟨hbrk, -⟩ <;> omega
    · by_cases ha : a < (c.mem.mm h.m).brk
      · exact hspare a h1 ha
      · rcases hR.brk with hbrk | ⟨-, -, hrest⟩
        · omega
        · exact hrest a (Nat.le_of_not_lt ha) h2
  rw [pageAlign_of_dvd hb, pageAlign_of_dvd hcur]
  split
  · exact hR.setBrk hnew
  · rename_i hne
    have hlen : pageAlign ((c.mem.mm h.m).brk - b) = (c.mem.mm h.m).brk - b := pageAlign_of_dvd (Nat.dvd_sub hcur hb)
    have hpos : 0 < (c.mem.mm h.m).brk - b := by omega
    obtain ⟨hR', hres, -⟩ := hR.doMunmap henv hb hpos fun a h1 h2 _ => hspare a h1 (by rw [hlen] at h2; omega)
    rw [if_pos hres]
    exact hR'.setBrk hnew

/-- What a VMA list has between an address and the first VMA that ends above it. -/
theorem free_below_next {l : List VmArea} (ho : Spans.Ordered l) {cur top : Nat}
    (hnext : ∀ next, l.find? (fun v => decide (cur < v.vmEnd)) = some next → top ≤ next.vmStart) {a : Nat}
    (h1 : cur ≤ a) (h2 : a < top) : ¬Spans.Covers l a := by
  rintro ⟨v, hv, hlo, hhi⟩
  have hlo : v.vmStart ≤ a := hlo
  have hhi : a < v.vmEnd := hhi
  cases hf : l.find? fun v => decide (cur < v.vmEnd) with
  | none =>
    have := List.find?_eq_none.mp hf v hv
    simp only [decide_eq_true_eq] at this
    omega
  | some next =>
    have hstart := hnext next hf
    obtain ⟨hcur, as, bs, rfl, has⟩ := List.find?_eq_some_iff_append.mp hf
    rcases List.mem_append.mp hv with hv | hv
    · have := has v hv
      simp only [Bool.not_eq_true', decide_eq_false_iff_not] at this
      omega
    · rcases List.mem_cons.mp hv with rfl | hv
      · omega
      · have hpos : next.vmStart < next.vmEnd := ho.pos next (by simp)
        have hle : next.vmEnd ≤ v.vmStart := (Spans.Ordered.append_iff.mp ho).2.1.head_le hv
        omega

/-- The pages that are to be written back are writable where they are mapped. -/
def DirtyWritable (h : Home) (c : Core) : Prop :=
  ∀ p sp v, (c.reg.data h.id).getSnapshotPage p = some sp → sp.dirty = true → (c.mem.mm h.m).vmaAt p = some v →
    v.writable = true

theorem DirtyWritable.mapAnon (hw : DirtyWritable h c) (hok : VmasOk (c.mem.mm h.m).freshVma (c.mem.mm h.m).mmap)
    {prot : Nat} (hprot : hasFlag prot protWrite = true) :
    DirtyWritable h (c.setMem (c.mem.setMm h.m ((c.mem.mm h.m).mapAnon start end_ prot))) := by
  intro p sp v hsp hdirty hv
  have hv : ((c.mem.setMm h.m ((c.mem.mm h.m).mapAnon start end_ prot)).mm h.m).vmaAt p = some v := hv
  rw [mm_setMm_self] at hv
  rcases find_insertVma hok hv with ⟨rfl, -⟩ | hold
  · exact anonVma_writable _ _ _ _ hprot
  · exact hw p sp v hsp hdirty hold

theorem DirtyWritable.setBrk (hw : DirtyWritable h c) {b : Nat} : DirtyWritable h (c.setBrk h.m b) := by
  intro p sp v hsp hdirty hv
  have hv : ((c.mem.setMm h.m { c.mem.mm h.m with brk := b }).mm h.m).vmaAt p = some v := hv
  rw [mm_setMm_self] at hv
  exact hw p sp v hsp hdirty hv

theorem vmBrk_misaligned {addr request : Nat} (hreq : 0 < request) (ha : addr % pageSize ≠ 0) :
    c.vmBrk env m addr request = (c, -22) := by
  unfold Core.vmBrk
  rw [if_neg (by omega), if_pos ha]

theorem vmBrk_free {addr request : Nat} (hcall : ∀ a n, env.vmBrk a n = true) (hreq : 0 < request) (ha : addr % pageSize = 0)
    (hfree : (c.mem.mm m).unmapped addr (addr + pageAlign request) = true) :
    c.vmBrk env m addr request = (c.setMem (c.mem.setMm m ((c.mem.mm m).mapAnon addr (addr + pageAlign request)
      (protRead ||| protWrite))), 0) := by
  unfold Core.vmBrk
  rw [if_neg (by omega), if_neg (by omega), if_pos hfree]
  exact if_pos ⟨rfl, hcall _ _⟩

/-- Nothing that was mapped at the take is gone. -/
structure Whole (h : Home) (c : Core) : Prop where
  mapped : ∀ a, Spans.Covers h.mm.mmap a → Spans.Covers (c.mem.mm h.m).mmap a
  brk : (c.mem.mm h.m).brk = h.data.ss.oldbrk

variable (env) in
/-- `restore_brk` does nothing where nothing is gone. -/
theorem Whole.restoreBrk (hW : Whole h c) :
    c.restoreBrk env h.m h.data.ss.oldbrk = (c.setBrk h.m h.data.ss.oldbrk, 0) ∧ Whole h (c.setBrk h.m h.data.ss.oldbrk) := by
  refine ⟨?_, fun a ha => ?_, ?_⟩
  · unfold Core.restoreBrk
    dsimp only
    rw [if_pos (by rw [hW.brk])]
  · show Spans.Covers ((c.mem.setMm h.m _).mm h.m).mmap a
    rw [mm_setMm_self]
    exact hW.mapped a ha
  · show ((c.mem.setMm h.m _).mm h.m).brk = _
    rw [mm_setMm_self]

/-- `restore_brk` maps again what it needs, or leaves it to `restore_vmas`. -/
theorem Restorable.restoreBrk (hok : h.Ok) (hR : Restorable h c) (hw : DirtyWritable h c)
    (hmaps : Whole h c ∨ env.Ok) : Restorable h (c.restoreBrk env h.m h.data.ss.oldbrk).1 ∧
      DirtyWritable h (c.restoreBrk env h.m h.data.ss.oldbrk).1 ∧
      (Whole h (c.restoreBrk env h.m h.data.ss.oldbrk).1 ∨ env.Ok) := by
  rcases hmaps with hW | henv
  · obtain ⟨heq, hW'⟩ := hW.restoreBrk env
    rw [heq]
    exact ⟨hR.setBrk (Or.inl rfl), hw.setBrk, Or.inl hW'⟩
  rw [← and_assoc]
  refine ⟨?_, Or.inr henv⟩
  unfold Core.restoreBrk
  dsimp only
  split
  · exact ⟨hR.setBrk (Or.inl rfl), hw.setBrk⟩
  rename_i hne
  obtain ⟨hle, hd, hspare⟩ := hR.brk.resolve_left fun heq => hne (by rw [heq])
  have hlt : (c.mem.mm h.m).brk < h.data.ss.oldbrk := lt_of_le_of_ne hle fun heq => hne (by rw [heq])
  rw [if_neg (Nat.not_le.mpr hlt)]
  -- The range is free when the first VMA above the break starts after it.
  have hgrow : (∀ next, (c.mem.mm h.m).mmap.find? (fun v => decide ((c.mem.mm h.m).brk < v.vmEnd)) = some next →
        h.data.ss.oldbrk ≤ next.vmStart) →
      Restorable h (Core.restoreBrk.growBrk env h.m h.data.ss.oldbrk (c.mem.mm h.m).brk c).1 ∧
        DirtyWritable h (Core.restoreBrk.growBrk env h.m h.data.ss.oldbrk (c.mem.mm h.m).brk c).1 := by
    intro hnext
    have hvmas := (hR.sane.mms h.m).vmas
    have hfree : ∀ a, (c.mem.mm h.m).brk ≤ a → a < h.data.ss.oldbrk → ¬Spans.Covers (c.mem.mm h.m).mmap a :=
      fun a => free_below_next hvmas.ordered hnext
    unfold Core.restoreBrk.growBrk
    have hreq : 0 < h.data.ss.oldbrk - (c.mem.mm h.m).brk := by omega
    by_cases hcur : (c.mem.mm h.m).brk % pageSize = 0
    · have hcur' : pageSize ∣ (c.mem.mm h.m).brk := Nat.dvd_of_mod_eq_zero hcur
      have hend : (c.mem.mm h.m).brk + pageAlign (h.data.ss.oldbrk - (c.mem.mm h.m).brk) = h.data.ss.oldbrk := by
        rw [pageAlign_of_dvd (Nat.dvd_sub hd hcur')]
        omega
      have hun : (c.mem.mm h.m).unmapped (c.mem.mm h.m).brk
          ((c.mem.mm h.m).brk + pageAlign (h.data.ss.oldbrk - (c.mem.mm h.m).brk)) = true := by
        rw [hend]
        exact (Mm.unmapped_iff hvmas hlt).mpr hfree
      rw [vmBrk_free henv.vmBrk hreq hcur hun, hend]
      exact ⟨(hR.mapAnon hok hcur' hd hlt hfree hspare _).setBrk (Or.inl rfl),
        (hw.mapAnon hvmas (by decide)).setBrk⟩
    · rw [vmBrk_misaligned hreq hcur]
      exact ⟨hR, hw⟩
  split
  · rename_i next hf
    split
    · exact ⟨hR, hw⟩
    · rename_i hguard
      refine hgrow fun next' hf' => ?_
      obtain rfl : next = next' := Option.some.inj (hf.symm.trans hf')
      simp only [pageSize] at hguard
      omega
  · rename_i hf
    refine hgrow fun next' hf' => ?_
    rw [hf] at hf'
    cases hf'

/-! ### The sweep -/

theorem hasFlag_or (a b flag : Nat) : hasFlag (a ||| b) flag = (hasFlag a flag || hasFlag b flag) := by
  unfold hasFlag
  rw [Nat.and_or_distrib_right, Bool.eq_iff_iff, Bool.or_eq_true_iff]
  simp only [bne_iff_ne, ne_eq, Nat.or_eq_zero_iff]
  tauto

/-- The protection of a snapshot VMA lets the process write, whatever the VMA did. -/
theorem snapshotVmaOf_writable (v : VmArea) (garbage : Nat) :
    hasFlag (TaskData.snapshotVmaOf v garbage).prot protWrite = true := by
  have hw : v.vmFlags ||| vmWrite ≠ 0 := fun h0 => absurd (Nat.or_eq_zero_iff.mp h0).2 (by decide)
  unfold TaskData.snapshotVmaOf
  dsimp only
  rw [if_pos hw, hasFlag_or, hasFlag_or]
  have : hasFlag protWrite protWrite = true := by decide
  rw [this, Bool.or_true, Bool.true_or]

/-- What the snapshot's list says of the home's VMAs. -/
theorem Home.Ok.covers_allVmas (hok : h.Ok) {a : Nat} :
    Spans.Covers h.data.ss.allVmas a ↔ Spans.Covers h.mm.mmap a := by
  obtain ⟨garbage, hall⟩ := hok.allVmas
  rw [hall]
  constructor
  · rintro ⟨x, hx, hin⟩
    obtain ⟨v, hv, rfl⟩ := List.mem_map.mp hx
    exact ⟨v, hv, hin⟩
  · rintro ⟨v, hv, hin⟩
    exact ⟨_, List.mem_map_of_mem hv, hin⟩

/-- The list that a take makes of some of the first VMAs. -/
theorem VmasOk.snapshotVmas {fresh : Nat} {done rest : List VmArea} (hok : VmasOk fresh (done ++ rest)) (garbage : Nat → Nat) :
    SnapshotVmasOk (done.map fun v => TaskData.snapshotVmaOf v (garbage v.vmStart)) := by
  have hmem : ∀ x ∈ done.map fun v => TaskData.snapshotVmaOf v (garbage v.vmStart), ∃ v ∈ done ++ rest,
      x.vmStart = v.vmStart ∧ x.vmEnd = v.vmEnd := fun x hx => by
    obtain ⟨v, hv, rfl⟩ := List.mem_map.mp hx
    exact ⟨v, List.mem_append_left _ hv, rfl, rfl⟩
  refine ⟨⟨fun x hx => ?_, ?_⟩, fun x hx => ?_, fun x hx => ?_⟩
  · obtain ⟨v, hv, h1, h2⟩ := hmem x hx
    show x.vmStart < x.vmEnd
    rw [h1, h2]
    exact hok.ordered.pos v hv
  · exact List.pairwise_map.mpr (List.pairwise_append.mp hok.ordered.sorted).1
  · obtain ⟨v, hv, h1, h2⟩ := hmem x hx
    rw [h1, h2]
    exact hok.aligned v hv
  · obtain ⟨v, hv, -, h2⟩ := hmem x hx
    rw [h2]
    exact hok.top v hv

theorem Home.Ok.snapshotVmasOk (hok : h.Ok) : SnapshotVmasOk h.data.ss.allVmas := by
  obtain ⟨garbage, hall⟩ := hok.allVmas
  rw [hall]
  have hvmas : VmasOk h.mm.freshVma (h.mm.mmap ++ []) := (List.append_nil h.mm.mmap).symm ▸ hok.vmas
  exact hvmas.snapshotVmas garbage

/-- A snapshot VMA that is anonymous and private can be mapped again. -/
theorem Home.Ok.spare_of_mem (hok : h.Ok) (hcfg : hasFlag h.data.config aflSnapshotMmap = true) {ss : SnapshotVma}
    {a : Nat} (hss : ss ∈ h.data.ss.allVmas) (hin : Spans.In a ss) (hanon : ss.isAnonymousPrivate = true) :
    h.Spare a := by
  obtain ⟨garbage, hall⟩ := hok.allVmas
  rw [hall] at hss
  obtain ⟨v, hv, rfl⟩ := List.mem_map.mp hss
  obtain ⟨hfile, hshared⟩ := Bool.and_eq_true_iff.mp hanon
  refine ⟨hcfg, v, (Spans.Ordered.find_eq_some hok.vmas.ordered).mpr ⟨hv, hin⟩, ?_, by simpa using hshared⟩
  exact Option.isNone_iff_eq_none.mp hfile

/-- `restore_vmas` maps again what is gone, and nothing else. -/
theorem Restorable.restoreVmas (hok : h.Ok) (hR : Restorable h c) (hw : DirtyWritable h c) (hmaps : Whole h c ∨ env.Ok)
    (hcfg : hasFlag h.data.config aflSnapshotMmap = true) :
    ∃ c', AflSnapshot.restoreVmas (Core.vmOps env h.m) h.data.ss.allVmas c = some (c', 0) ∧ Restorable h c' ∧
      DirtyWritable h c' ∧ (c'.mem.mm h.m).brk = (c.mem.mm h.m).brk ∧
      ∀ a, Spans.Covers h.mm.mmap a → Spans.Covers (c'.mem.mm h.m).mmap a := by
  have hsub : ∀ c', Restorable h c' → ∀ a, Spans.Covers (c'.mem.mm h.m).mmap a → Spans.Covers h.data.ss.allVmas a := by
    intro c' hR' a ha
    obtain ⟨v, hv⟩ := Option.isSome_iff_exists.mp (Spans.find_isSome.mpr ha)
    obtain ⟨v₀, hv₀, -⟩ := hR'.kind a v hv
    exact hok.covers_allVmas.mpr (covers_of_vmaAt hv₀)
  have hlaws : VmLaws (Core.vmOps env h.m) (fun c => (c.mem.mm h.m).freshVma)
      (fun c' => (Restorable h c' ∧ DirtyWritable h c') ∧ (Whole h c' ∨ env.Ok) ∧
        (c'.mem.mm h.m).brk = (c.mem.mm h.m).brk) ((Core.vmOps env h.m).vmas c) h.data.ss.allVmas := by
    constructor
    · -- Nothing is mapped that was not mapped at the take.
      rintro c' start end_ ⟨⟨hR', -⟩, -⟩ - - hse hregion
      obtain ⟨hcov, hnot⟩ := hregion start le_rfl hse
      exact absurd (hsub c' hR' start hcov) hnot
    · rintro c' start end_ ss ⟨⟨hR', hw'⟩, hmaps', hbrk'⟩ hs he hse hss hanon hregion
      have hspare : ∀ a, start ≤ a → a < end_ → h.Spare a := fun a h1 h2 => by
        obtain ⟨-, hin | hgap⟩ := hregion a h1 h2
        · exact hok.spare_of_mem hcfg hss hin hanon
        · exact absurd (hsub c hR a hgap.covers) hgap.not_covers
      have hvmas := (hR'.sane.mms h.m).vmas
      have hfree : ∀ a, start ≤ a → a < end_ → ¬Spans.Covers (c'.mem.mm h.m).mmap a := fun a h1 h2 => (hregion a h1 h2).1
      -- Where nothing is gone there is nothing to map.
      have henv : env.Ok := hmaps'.resolve_left fun hW => by
        obtain ⟨-, v, hv, -⟩ := hspare start le_rfl hse
        exact hfree start le_rfl hse (hW.mapped start (covers_of_vmaAt hv))
      have hend : start + pageAlign (end_ - start) = end_ := by
        rw [pageAlign_of_dvd (Nat.dvd_sub he hs)]
        omega
      have hcall : (Core.vmOps env h.m).mmap start (end_ - start) ss.prot c' =
          (c'.setMem (c'.mem.setMm h.m ((c'.mem.mm h.m).mapAnon start end_ ss.prot)), some start) := by
        show c'.vmMmap env h.m start (end_ - start) ss.prot = _
        unfold Core.vmMmap
        rw [hend, if_pos ⟨Nat.mod_eq_zero_of_dvd hs, by omega, (Mm.unmapped_iff hvmas hse).mpr hfree, henv.vmMmap _ _⟩]
      have hprot : hasFlag ss.prot protWrite = true := by
        obtain ⟨garbage, hall⟩ := hok.allVmas
        rw [hall] at hss
        obtain ⟨v, -, rfl⟩ := List.mem_map.mp hss
        exact snapshotVmaOf_writable v _
      have hmm : ((c'.mem.setMm h.m ((c'.mem.mm h.m).mapAnon start end_ ss.prot)).mm h.m) =
          (c'.mem.mm h.m).mapAnon start end_ ss.prot := mm_setMm_self
      rw [hcall]
      have hbrk : ((c'.mem.setMm h.m ((c'.mem.mm h.m).mapAnon start end_ ss.prot)).mm h.m).brk = (c.mem.mm h.m).brk :=
        (congrArg Mm.brk hmm).trans hbrk'
      refine ⟨rfl, ⟨⟨hR'.mapAnon hok hs he hse hfree hspare _, hw'.mapAnon hvmas hprot⟩, Or.inr henv, hbrk⟩,
        ⟨anonVma (c'.mem.mm h.m).freshVma start end_ ss.prot, rfl, rfl, rfl, ?_⟩, ?_⟩
      · exact congrArg Mm.mmap hmm
      · exact congrArg Mm.freshVma hmm
  obtain ⟨c', hres, ⟨⟨hR', hw'⟩, -, hbrk⟩, -, hcov⟩ :=
    restoreVmas_spec hlaws (hR.sane.mms h.m).vmas hok.snapshotVmasOk ⟨⟨hR, hw⟩, hmaps, rfl⟩
  refine ⟨c', hres, hR', hw', hbrk, fun a ha => (hcov a).mpr (Or.inl ?_)⟩
  obtain ⟨v, hv⟩ := Option.isSome_iff_exists.mp (Spans.find_isSome.mpr ha)
  obtain ⟨hmem, hin⟩ := Spans.find_mem hv
  obtain ⟨garbage, hall⟩ := hok.allVmas
  refine ⟨TaskData.snapshotVmaOf v (garbage v.vmStart), hall ▸ List.mem_map_of_mem hmem, hin, ?_⟩
  by_cases hc : Spans.Covers (c.mem.mm h.m).mmap a
  · exact Or.inl hc
  · obtain ⟨-, v', hv', hfile, hshared⟩ := hR.gone a ha hc
    obtain rfl : v = v' := Option.some.inj (hv.symm.trans hv')
    refine Or.inr (Bool.and_eq_true_iff.mpr ⟨?_, by rw [hshared]; rfl⟩)
    rw [VmArea.isAnonymous, hfile]
    rfl

/-! ### The restore of the memory -/

/-- After a restore every selected page reads as at the take. -/
structure Restored (h : Home) (c : Core) : Prop where
  restorable : Restorable h c
  dirtyPages : (c.reg.data h.id).ss.dirtyPages = []
  mapped : ∀ a, Spans.Covers h.mm.mmap a → Spans.Covers (c.mem.mm h.m).mmap a

theorem Restored.content (hok : h.Ok) (hR : Restored h c) (hsel : h.sel p) :
    Spans.Covers (c.mem.mm h.m).mmap p ∧ c.mem.content h.m p = h.content p := by
  obtain ⟨v₀, hv₀⟩ := (hok.sel p hsel).2.2
  have hcov := hR.mapped p (covers_of_vmaAt hv₀)
  obtain ⟨v, hv⟩ := Option.isSome_iff_exists.mp (Spans.find_isSome.mpr hcov)
  exact ⟨hcov, hR.restorable.content_eq hok hsel hR.dirtyPages hv⟩

theorem Restored.dirtyWritable (hok : h.Ok) (hR : Restored h c) : DirtyWritable h c := fun p sp v hsp hdirty _ => by
  have hin := hR.restorable.queued_of_dirty hok hsp hdirty
  rw [hR.dirtyPages] at hin
  cases hin

theorem Restorable.recoverMemorySnapshot (hok : h.Ok) (hR : Restorable h c) (hw : DirtyWritable h c)
    (henv : env.Allocates) (hmaps : Whole h c ∨ env.Ok) (hreuse : env.ReuseSound) :
    Restored h (c.recoverMemorySnapshot env h.m h.id).1 ∧
      ((c.recoverMemorySnapshot env h.m h.id).1.mem.mm h.m).brk = (c.mem.mm h.m).brk := by
  have hdata : (c.reg.data h.id).config = h.data.config ∧ (c.reg.data h.id).ss.allVmas = h.data.ss.allVmas := by
    rw [hR.same]
    exact ⟨rfl, rfl⟩
  -- First all mappings are there again.
  have hvmas : ∃ c', (if hasFlag h.data.config aflSnapshotMmap then
        (AflSnapshot.restoreVmas (Core.vmOps env h.m) h.data.ss.allVmas c).getD ({ c with oops := true }, -1)
      else (c, 0)) = (c', 0) ∧ Restorable h c' ∧ DirtyWritable h c' ∧ (c'.mem.mm h.m).brk = (c.mem.mm h.m).brk ∧
      ∀ a, Spans.Covers h.mm.mmap a → Spans.Covers (c'.mem.mm h.m).mmap a := by
    cases hcfg : hasFlag h.data.config aflSnapshotMmap with
    | true =>
      obtain ⟨c', hres, hrest⟩ := hR.restoreVmas hok hw hmaps hcfg
      exact ⟨c', by rw [if_pos rfl, hres]; rfl, hrest⟩
    | false =>
      refine ⟨c, rfl, hR, hw, rfl, fun a ha => ?_⟩
      by_contra hc
      have := (hR.gone a ha hc).1
      rw [hcfg] at this
      cases this
  obtain ⟨c', hres, hR', hw', hbrk, hfull⟩ := hvmas
  unfold Core.recoverMemorySnapshot
  dsimp only
  rw [hdata.1, hdata.2, hres, if_pos rfl]
  have hwb : WriteBack h c' := fun p sp hsp hdirty => by
    have hsel : h.sel p := by
      by_contra hnsel
      have := (hR'.loose p sp hnsel hsp).2
      rw [hdirty] at this
      cases this
    obtain ⟨v₀, hv₀⟩ := (hok.sel p hsel).2.2
    obtain ⟨v, hv⟩ := Option.isSome_iff_exists.mp (Spans.find_isSome.mpr (hfull p (covers_of_vmaAt hv₀)))
    exact ⟨v, hv, hw' p sp v hsp hdirty hv⟩
  obtain ⟨h1, h2, h3, h4⟩ := hR'.recoverEntries hok henv hreuse hwb _ rfl
  exact ⟨⟨h1, h2, fun a ha => h3 ▸ hfull a ha⟩, h4.trans hbrk⟩

end
end AflSnapshot
