import AflSnapshot.Theorems.MappedBack

/-! # `restore_vmas` ends

The list of VMAs can grow while it is walked, and the cursor can go back. But a cut of a VMA comes with the start of a snapshot
VMA, and what it adds is less than what the sweep over the snapshot VMAs has left behind. -/

namespace AflSnapshot
open Spans

section
variable {σ : Type} {ops : VmOps σ} {fresh : σ → Nat} {vmas : List VmArea} {allVmas : List SnapshotVma}
variable {s : SweepState σ} {v : VmArea} {maps : Nat → VmArea → List VmArea → List VmArea → List VmArea → Prop}

/-- The sweep over the VMAs goes from the start of a VMA to its end, or from there to the next one in the list. -/
def SweepState.VmasAdvance (ops : VmOps σ) (s s' : SweepState σ) : Prop :=
  ∃ v next, s.vmaIter = some v.id ∧ lookupVma (ops.vmas s.vm) v.id = some (v, next) ∧ s'.inVmas = !s.inVmas ∧
    s'.cursor = (if s.inVmas then v.vmEnd else v.vmStart) ∧ s'.vmaIter = if s.inVmas then next else some v.id

/-- The same for the sweep over the snapshot VMAs. -/
def SweepState.SsVmasAdvance (s s' : SweepState σ) : Prop :=
  ∃ ss rest, s.ssVmaIter = ss :: rest ∧ s'.inSsVmas = (!s.inSsVmas) ∧ s'.cursor = (if s.inSsVmas then ss.vmEnd else ss.vmStart) ∧
    s'.ssVmaIter = if s.inSsVmas then rest else ss :: rest

theorem lookupVma_spec {l : List VmArea} {id : Nat} {o : Option Nat} (h : lookupVma l id = some (v, o)) : v ∈ l ∧ v.id = id := by
  induction l with
  | nil => cases h
  | cons w l ih =>
    rw [lookupVma] at h
    split at h
    · rename_i hid
      obtain rfl : w = v := congrArg Prod.fst (Option.some.inj h)
      exact ⟨List.mem_cons_self, hid⟩
    · exact ⟨List.mem_cons_of_mem _ (ih h).1, (ih h).2⟩

theorem next_of_region {r : σ × Option Int} {f : σ → SweepState σ} {s' : SweepState σ} (h : (match r with
    | (vm, some res) => SweepResult.ret vm res
    | (vm, none) => .next (f vm)) = .next s') : s' = f r.1 := by
  obtain ⟨vm, res⟩ := r
  cases res with
  | none => exact (SweepResult.next.inj h).symm
  | some res => cases h

/-- A round that does not return takes one of the sweeps on, the VMAs being below the end of the address space. -/
theorem sweepStep_advances {s' : SweepState σ} (hV : ∀ v ∈ ops.vmas s.vm, v.vmStart < ulongMax ∧ v.vmEnd < ulongMax)
    (hS : ∀ ss ∈ s.ssVmaIter, ss.vmStart < ulongMax ∧ ss.vmEnd < ulongMax) (hstep : sweepStep ops s = .next s') :
    s.VmasAdvance ops s' ∨ s.SsVmasAdvance s' := by
  obtain ⟨vm, vmaIter, ssVmaIter, cursor, inVmas, inSsVmas⟩ := s
  have hss : ∀ ss rest, ssVmaIter = ss :: rest → nextPos ulongMax inSsVmas ssVmaIter < ulongMax := fun ss rest hss => by
    subst hss
    have hlt := hS ss List.mem_cons_self
    cases inSsVmas with
    | true => exact hlt.2
    | false => exact hlt.1
  unfold sweepStep at hstep
  cases vmaIter with
  | none =>
    cases ssVmaIter with
    | nil => cases hstep
    | cons ss rest =>
      have hlt := hss ss rest rfl
      rw [if_neg (by simp)] at hstep
      obtain rfl := next_of_region hstep
      have hmin : min ulongMax (nextPos ulongMax inSsVmas (ss :: rest)) = nextPos ulongMax inSsVmas (ss :: rest) :=
        min_eq_right hlt.le
      refine Or.inr ⟨ss, rest, rfl, ?_, hmin, ?_⟩
      · exact if_pos hmin
      · refine (if_pos hmin).trans ?_
        cases inSsVmas <;> rfl
  | some id =>
    rw [if_neg (by simp)] at hstep
    cases hv : lookupVma (ops.vmas vm) id with
    | none =>
      simp only [Option.map_some, hv] at hstep
      cases hstep
    | some r =>
      obtain ⟨v, next⟩ := r
      obtain ⟨hmem, rfl⟩ := lookupVma_spec hv
      simp only [Option.map_some, hv] at hstep
      obtain rfl := next_of_region hstep
      have hlt := hV v hmem
      have hx : (if inVmas then v.vmEnd else v.vmStart) < ulongMax := by
        split
        · exact hlt.2
        · exact hlt.1
      rcases Nat.lt_or_ge (nextPos ulongMax inSsVmas ssVmaIter) (if inVmas then v.vmEnd else v.vmStart) with hless | hle
      · have hmin := min_eq_right hless.le
        cases ssVmaIter with
        | nil => exact absurd (lt_trans hless hx) (lt_irrefl _)
        | cons ss rest =>
          refine Or.inr ⟨ss, rest, rfl, if_pos hmin, hmin, (if_pos hmin).trans ?_⟩
          cases inSsVmas <;> rfl
      · have hmin := min_eq_left hle
        refine Or.inl ⟨v, next, rfl, hv, if_pos hmin, hmin, ?_⟩
        cases inVmas with
        | true => exact if_pos ⟨hmin, rfl⟩
        | false => exact if_neg fun h => Bool.false_ne_true h.2

/-- All VMAs lie below the end of the address space. -/
theorem Stage.below {m c : Nat} (h : Stage vmas allVmas ops fresh maps m c s) (hS : SnapshotVmasOk allVmas) (hholds : s.Holds ops) :
    (∀ v ∈ ops.vmas s.vm, v.vmStart < ulongMax ∧ v.vmEnd < ulongMax) ∧
      ∀ ss ∈ s.ssVmaIter, ss.vmStart < ulongMax ∧ ss.vmEnd < ulongMax := by
  have htop : ∀ {f l}, VmasOk f l → ∀ v ∈ l, v.vmStart < ulongMax ∧ v.vmEnd < ulongMax := fun hok v hv =>
    ⟨lt_trans (hok.ordered.pos v hv) (hok.top v hv), hok.top v hv⟩
  have hssTop : ∀ ss ∈ allVmas, ss.vmStart < ulongMax ∧ ss.vmEnd < ulongMax := fun ss hss =>
    ⟨lt_trans (hS.ordered.pos ss hss) (hS.top ss hss), hS.top ss hss⟩
  cases h with
  | walked h =>
    refine ⟨htop (h.list ▸ h.ok), fun ss hss => hssTop ss ?_⟩
    rw [h.split]
    exact List.mem_append_right _ (h.ssIter ▸ hss)
  | back h =>
    refine ⟨htop (h.list ▸ h.ok), fun ss hss => hssTop ss ?_⟩
    rw [h.there.split]
    exact List.mem_append_right _ hss
  | forth h =>
    refine ⟨htop (h.list ▸ h.ok), fun ss hss => hssTop ss ?_⟩
    rw [h.there.split]
    exact List.mem_append_right _ hss
  | freed hmaps hw hiter hfreed =>
    obtain ⟨v, hv, hid⟩ := hholds _ hiter
    exact absurd hid (hfreed v hv)

/-- Whatever the calls of `restore_vmas` do to the list, as long as `vm_munmap` cuts VMAs and `vm_mmap` inserts them, the
    loop ends, and every round that does not return takes one of the two sweeps on. -/
theorem sweep_terminates {vm : σ} (hops : Edits ops fresh Inserted) (hok : VmasOk (fresh vm) (ops.vmas vm))
    (hS : SnapshotVmasOk allVmas) : (∃ vm' res, restoreVmas ops allVmas vm = some (vm', res)) ∧
      ∀ s s', (SweepState.start ops allVmas vm).Comes ops s → sweepStep ops s = .next s' →
        s.VmasAdvance ops s' ∨ s.SsVmasAdvance s' := by
  refine ⟨restoreVmas_returns hops hok hS, fun s s' hcomes hstep => ?_⟩
  obtain ⟨m, c, hstage⟩ := (stage_start Inserted hok hS).comes hops Inserted.joined hok.ordered hS hcomes
  obtain ⟨hV, hSs⟩ := hstage.below hS hstage.holds_inserted
  exact sweepStep_advances hV hSs hstep

/-- The snapshot has the first and the last page of a VMA of three, which is cut in two. -/
theorem sweep_terminates_cut : (∃ c res, restoreVmas (Core.vmOps .calm 0) outerPages threePages = some (c, res)) ∧
    ∀ s s', (SweepState.start (Core.vmOps .calm 0) outerPages threePages).Comes (Core.vmOps .calm 0) s →
      sweepStep (Core.vmOps .calm 0) s = .next s' → s.VmasAdvance (Core.vmOps .calm 0) s' ∨ s.SsVmasAdvance s' :=
  sweep_terminates (vmOps_edits .calm 0)
    ⟨⟨by decide, List.pairwise_singleton _ _⟩, by decide, by decide, List.pairwise_singleton _ _, by decide⟩
    ⟨⟨by decide, by decide⟩, by decide, by decide⟩

end

end AflSnapshot
