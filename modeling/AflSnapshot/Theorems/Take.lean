import AflSnapshot.Theorems.Filter
import AflSnapshot.World

/-! # What a take makes of the pages

`Taken` holds from page to page and from VMA to VMA, whatever the filter says: a page either keeps its page-table
entry, or gets an entry of the snapshot that tells what its page-table entry was. -/

namespace AflSnapshot
open PageWalk

/-- A take of the record `data` that has the VMAs `done` behind it, and of the pages those below `x`. -/
structure Taken (alloc : TakeAlloc) (data : TaskData) (mm : Mm) (done : List VmArea) (x : Nat) (s : WalkState) : Prop where
  same : s.data = { data with ss := { data.ss with
    allVmas := s.data.ss.allVmas, snapshottedVmas := s.data.ss.snapshottedVmas, ssPages := s.data.ss.ssPages } }
  tables : s.mm = { mm with pte := s.mm.pte }
  allVmas : s.data.ss.allVmas = done.map fun v => TaskData.snapshotVmaOf v (alloc.garbage v.vmStart)
  linked : s.data.ss.snapshottedVmas = (done.filter fun v => !skipsVma data mm v).map fun v =>
    TaskData.snapshotVmaOf v (alloc.garbage v.vmStart)
  below : ∀ p, p < x → s.data.getSnapshotPage p = none ∧ s.mm.pte p = mm.pte p ∨
    s.data.getSnapshotPage p = some (.ofPte p (mm.pte p) none) ∧ s.mm.pte p = (mm.pte p).wrprotect ∧
      Visited data mm p ∧ ∃ v ∈ done, Spans.In p v
  above : ∀ p, x ≤ p → s.data.getSnapshotPage p = none ∧ s.mm.pte p = mm.pte p

section
variable {alloc : TakeAlloc} {data : TaskData} {mm : Mm} {done vmas : List VmArea} {x y : Nat} {s : WalkState}

theorem Taken.advance (h : Taken alloc data mm done x s) (hxy : x ≤ y) : Taken alloc data mm done y s where
  same := h.same
  tables := h.tables
  allVmas := h.allVmas
  linked := h.linked
  below p _ := by
    by_cases hp : p < x
    · exact h.below p hp
    · exact Or.inl (h.above p (Nat.le_of_not_lt hp))
  above p hp := h.above p (le_trans hxy hp)

theorem Taken.cached (h : Taken alloc data mm done x s) (w : SnapshotWalkData) :
    Taken alloc data mm done x { s with walkData := w } :=
  ⟨h.same, h.tables, h.allVmas, h.linked, h.below, h.above⟩

/-- `snapshot_pte_entry` for the next page. -/
theorem Taken.leaf (h : Taken alloc data mm done x s) (hv : Visited data mm x) (hin : ∃ v ∈ done, Spans.In x v) :
    Reached (Taken alloc data mm done) x (x + pageSize) (snapshotPteEntry alloc.snapshotPage x (x + pageSize) s) := by
  have hlt : x < x + pageSize := by simp [pageSize]
  simp only [snapshotPteEntry]
  have hc := h.cached (snapshotWalkCheckRange s.data x (x + pageSize) s.walkData).1
  obtain ⟨hnew, hpte⟩ := h.above x le_rfl
  split
  · exact Reached.of_inv hlt.le (hc.advance hlt.le)
  · rcases makeSnapshotPage_spec s.mm (alloc.snapshotPage x) with ⟨data', hadd, hmake⟩ | ⟨-, hmake⟩
    · rw [hmake]
      rw [hnew, hpte] at hadd
      have hset : ∀ p, (s.mm.setPte x (s.mm.pte x).wrprotect).pte p =
          if p = x then (mm.pte x).wrprotect else s.mm.pte p := fun p => by
        rw [Mm.setPte, hpte]
        exact Function.update_apply ..
      have hothers : ∀ p, p ≠ x → data'.getSnapshotPage p = s.data.getSnapshotPage p ∧
          (s.mm.setPte x (s.mm.pte x).wrprotect).pte p = s.mm.pte p := fun p hp => by
        rw [hset p, if_neg hp]
        exact ⟨hadd.others p hp, rfl⟩
      refine Reached.of_inv hlt.le ⟨?_, ?_, ?_, ?_, fun p hp => ?_, fun p hp => ?_⟩
      · have h1 := hadd.same
        have h2 := hadd.dirtyPages
        have h3 := h.same
        unfold SameButPages at h1
        show data' = _
        rw [h1, h3, h2]
        rw [h3]
      · show s.mm.setPte x _ = _
        rw [h.tables]
        rfl
      · show data'.ss.allVmas = _
        rw [hadd.same]
        exact h.allVmas
      · show data'.ss.snapshottedVmas = _
        rw [hadd.same]
        exact h.linked
      · by_cases hpx : p = x
        · subst hpx
          refine Or.inr ⟨hadd.entry, ?_, hv, hin⟩
          rw [hset p, if_pos rfl]
        · obtain ⟨h1, h2⟩ := hothers p hpx
          show data'.getSnapshotPage p = none ∧ (s.mm.setPte x _).pte p = _ ∨
            data'.getSnapshotPage p = _ ∧ (s.mm.setPte x _).pte p = _ ∧ _
          rw [h1, h2]
          by_cases hlow : p < x
          · exact h.below p hlow
          · exact Or.inl (h.above p (Nat.le_of_not_lt hlow))
      · obtain ⟨h1, h2⟩ := hothers p (by omega)
        show data'.getSnapshotPage p = none ∧ (s.mm.setPte x _).pte p = _
        rw [h1, h2]
        exact h.above p (by omega)
    · rw [hmake]
      exact ⟨fun h0 => absurd h0 (by simp), x, le_rfl, hlt.le, hc⟩

/-- The walk of a VMA. -/
theorem Taken.walkVma (hm : mm.Sorted) {vma : VmArea} (hvma : vma ∈ mm.mmap) (hdone : vma ∈ done)
    (hskip : skipsVma data mm vma = false) (h : Taken alloc data mm done vma.vmStart s) :
    Reached (Taken alloc data mm done) vma.vmStart vma.vmEnd (walkPageVma alloc.snapshotPage vma s) := by
  obtain ⟨ha, hb⟩ := hm.aligned vma hvma
  have hab : vma.vmStart < vma.vmEnd := hm.ordered.pos vma hvma
  have htables : snapshotWalkOps s.mm = snapshotWalkOps mm := by
    rw [h.tables]
    rfl
  rw [walkPageVma, htables]
  refine walk_inv (by simp [pageSize]) ?hole ?entry ?page le_rfl hab.le le_rfl ha hb h
  case hole => exact fun g hg a e s hlo hae hhi hda hde hnone hI => hI.advance hae.le
  case entry =>
    intro g hg a e s hlo hae hhi hda hde hsame hI
    have hc : ∀ w, Taken alloc data mm done a { s with walkData := w } := fun w => hI.cached w
    have upper : Entered (Taken alloc data mm done) a e (snapshotUpperEntry a e s) :=
      ⟨by simp [snapshotUpperEntry], fun _ => hc _⟩
    have lower : Entered (Taken alloc data mm done) a e (snapshotLowerEntry a e s) :=
      ⟨fun _ => (hc _).advance hae.le, fun _ => hc _⟩
    simp only [List.mem_cons, List.not_mem_nil, or_false] at hg
    rcases hg with rfl | rfl | rfl | rfl
    · exact upper
    · exact upper
    · exact lower
    · exact lower
  case page =>
    intro a s hlo hhi hda hpop hI
    have hin : Spans.In a vma := ⟨hlo, lt_of_lt_of_le (by simp [pageSize]) hhi⟩
    exact hI.leaf ⟨hda, populated_iff.mp hpop, vma, hvma, hin, hskip⟩ ⟨vma, hdone, hin⟩

/-- The loop over the VMAs. -/
theorem Taken.takeVmas (hm : mm.Sorted) (hd : mm.mmap = done ++ vmas) (hbelow : ∀ v ∈ done, v.vmEnd ≤ x)
    (habove : ∀ v ∈ vmas, x ≤ v.vmStart) (h : Taken alloc data mm done x s) :
    ∃ done' rest y, mm.mmap = done' ++ rest ∧ Taken alloc data mm done' y (takeVmas alloc vmas s).1 ∧
      ((takeVmas alloc vmas s).2 = 0 → rest = []) := by
  induction vmas generalizing done x s with
  | nil => exact ⟨done, [], x, hd, h, fun _ => rfl⟩
  | cons vma vmas ih =>
    have hord : Spans.Ordered (vma :: vmas) := (Spans.Ordered.append_iff.mp (hd ▸ hm.ordered)).2.1
    have hpos : vma.vmStart < vma.vmEnd := hord.head_pos
    have hstart : Taken alloc data mm done vma.vmStart s := h.advance (habove vma List.mem_cons_self)
    have hdone : mm.mmap = (done ++ [vma]) ++ vmas := by simp [hd]
    have hbelow' : ∀ v ∈ done ++ [vma], v.vmEnd ≤ vma.vmEnd := fun v hv => by
      rcases List.mem_append.mp hv with hv | hv
      · exact le_trans (hbelow v hv) (le_trans (habove vma List.mem_cons_self) hpos.le)
      · rw [List.mem_singleton.mp hv]
    have habove' : ∀ v ∈ vmas, vma.vmEnd ≤ v.vmStart := fun v hv => hord.head_le hv
    rw [AflSnapshot.takeVmas]
    unfold TaskData.addSnapshotVma
    cases alloc.snapshotVma vma.vmStart with
    | false => exact ⟨done, _, _, hd, hstart, fun h0 => absurd h0 (by simp)⟩
    | true =>
      simp only [if_true]
      have hconfig : s.data.config = data.config := by rw [h.same]
      have hranges : s.data.ranges = data.ranges := by rw [h.same]
      have hstack : s.mm.startStack = mm.startStack := by rw [h.tables]
      -- The VMA joins those that are done.
      have hadded : ∀ linked, linked = ((done ++ [vma]).filter fun v => !skipsVma data mm v).map (fun v =>
            TaskData.snapshotVmaOf v (alloc.garbage v.vmStart)) →
          Taken alloc data mm (done ++ [vma]) vma.vmStart { s with data := { s.data with ss := { s.data.ss with
            allVmas := s.data.ss.allVmas ++ [TaskData.snapshotVmaOf vma (alloc.garbage vma.vmStart)]
            snapshottedVmas := linked } } } := fun linked hl => by
        refine ⟨?_, hstart.tables, ?_, hl, fun p hp => ?_, hstart.above⟩
        · show TaskData.mk .. = _
          conv_lhs => rw [h.same]
        · show s.data.ss.allVmas ++ _ = _
          rw [h.allVmas, List.map_append, List.map_singleton]
        · rcases hstart.below p hp with hp | ⟨h1, h2, h3, v, hv, hin⟩
          · exact Or.inl hp
          · exact Or.inr ⟨h1, h2, h3, v, List.mem_append_left _ hv, hin⟩
      have hsame : ∀ all, skipsVma { s.data with ss := { s.data.ss with allVmas := all } } s.mm vma =
          skipsVma data mm vma := fun all => skipsVma_congr hconfig hranges hstack vma
      rw [hsame]
      cases hskip : skipsVma data mm vma with
      | true =>
        simp only [↓reduceIte]
        have hadd := hadded s.data.ss.snapshottedVmas (by rw [h.linked]; simp [hskip])
        exact ih hdone hbelow' habove' (hadd.advance hpos.le)
      | false =>
        simp only [Bool.false_eq_true, ↓reduceIte]
        have hadd := hadded (s.data.ss.snapshottedVmas ++ [TaskData.snapshotVmaOf vma (alloc.garbage vma.vmStart)])
          (by rw [h.linked]; simp [hskip])
        obtain ⟨hend, y, -, -, hy⟩ := hadd.walkVma hm (by simp [hd]) (by simp) hskip
        split
        · rename_i h0
          exact ih hdone hbelow' habove' (hend h0)
        · rename_i h0
          exact ⟨done ++ [vma], vmas, y, hdone, hy, fun hz => absurd hz h0⟩

/-- A take of a new record. -/
theorem take_taken (alloc : TakeAlloc) (hm : mm.Sorted) (hnew : data.Blank) :
    ∃ done rest y s, mm.mmap = done ++ rest ∧ Taken alloc data mm done y s ∧
      (takeMemorySnapshot alloc data mm).1 = (s.data, s.mm) ∧
      ((takeMemorySnapshot alloc data mm).2 = 0 → rest = []) := by
  obtain ⟨hall, hlinked, hpages, -⟩ := hnew
  have hget : ∀ p, data.getSnapshotPage p = none := fun p => by simp [TaskData.getSnapshotPage, hpages]
  have hstart : Taken alloc data mm [] 0 ⟨data, mm, ⟨0, 0⟩⟩ :=
    ⟨rfl, rfl, hall, hlinked, fun p hp => absurd hp (Nat.not_lt_zero p), fun p _ => ⟨hget p, rfl⟩⟩
  obtain ⟨done, rest, y, hd, hy, hend⟩ := hstart.takeVmas hm (List.nil_append _).symm (by simp) (by simp)
  exact ⟨done, rest, y, _, hd, hy, rfl, hend⟩

/-- A take goes through where all allocations do. -/
theorem take_goes_through {alloc : TakeAlloc} (hvma : ∀ a, alloc.snapshotVma a = true)
    (hpage : ∀ p, alloc.snapshotPage p = true) (data : TaskData) (mm : Mm) :
    (takeMemorySnapshot alloc data mm).2 = 0 := by
  have hleaf : ∀ a e s, (snapshotPteEntry alloc.snapshotPage a e s).2 = 0 := fun a e s => by
    simp only [snapshotPteEntry]
    split
    · rfl
    · rcases makeSnapshotPage_spec s.mm (alloc.snapshotPage a) with ⟨data', -, hmake⟩ | ⟨hfail, -⟩
      · rw [hmake]
      · rw [hpage a] at hfail
        cases hfail
  have hloop : ∀ (vmas : List VmArea) (s : WalkState), (takeVmas alloc vmas s).2 = 0 := by
    intro vmas
    induction vmas with
    | nil => exact fun _ => rfl
    | cons vma vmas ih =>
      intro s
      rw [takeVmas]
      unfold TaskData.addSnapshotVma
      rw [hvma, if_pos rfl]
      dsimp only
      split
      · exact ih _
      · rw [walkPageVma, if_pos (walk_result hleaf _ _ _ _)]
        exact ih _
  exact hloop _ _

end
end AflSnapshot
