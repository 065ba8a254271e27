import AflSnapshot.Theorems.Walked

/-! # The VMA that the sweep holds

`restore_vmas` reads `vm_next` before its calls since `vm_munmap` may free the VMA that it holds. But `vm_mmap` may free that VMA
too, where it joins what it maps with the VMAs on both sides. Which lists this happens for does not depend on the kernel
(`JoinsBoth`): with other lists the VMA is always there, and with these a kernel that joins what it can frees it. -/

namespace AflSnapshot
open Spans Relation

/-! ### A kernel that joins what it can -/

/-- The new VMA joined with the one above it, where this can be, and the VMAs above that. -/
def joinAbove (prot : Nat) (g : VmArea) : List VmArea → VmArea × List VmArea
  | [] => (g, [])
  | w :: l => if w.vmStart = g.vmEnd ∧ w.Alike prot then ({ w with vmStart := g.vmStart }, l) else (g, w :: l)

def joinVma (prot : Nat) (g : VmArea) (below above : List VmArea) : List VmArea :=
  let r := joinAbove prot g above
  match below.getLast? with
  | none => r.1 :: r.2
  | some v =>
    if v.vmEnd = g.vmStart ∧ v.Alike prot then below.dropLast ++ { v with vmEnd := r.1.vmEnd } :: r.2
    else below ++ r.1 :: r.2

/-- The VMAs of a process, and the number of the next one. -/
structure VmaList where
  vmas : List VmArea
  fresh : Nat

/-- All calls go through. -/
def joiningOps : VmOps VmaList where
  vmas := VmaList.vmas
  munmap start len vm := (⟨unmapVmas start (start + len) vm.fresh vm.vmas, vm.fresh + 1⟩, 0)
  mmap addr len prot vm :=
    let below := vm.vmas.filter fun v => decide (v.vmEnd ≤ addr)
    let above := vm.vmas.filter fun v => decide (addr + len ≤ v.vmStart)
    (⟨joinVma prot (anonVma vm.fresh addr (addr + len) prot) below above, vm.fresh + 1⟩, some addr)

section
variable {prot n c : Nat} {g v w : VmArea} {l₁ l₂ : List VmArea}

theorem joinAbove_of_alike (hw : w.vmStart = g.vmEnd) (hprot : w.Alike prot) :
    joinAbove prot g (w :: l₂) = ({ w with vmStart := g.vmStart }, l₂) := if_pos ⟨hw, hprot⟩

theorem joinVma_both (hv : v.vmEnd = g.vmStart) (hvprot : v.Alike prot) (hw : w.vmStart = g.vmEnd) (hwprot : w.Alike prot) :
    joinVma prot g (l₁ ++ [v]) (w :: l₂) = l₁ ++ { v with vmEnd := w.vmEnd } :: l₂ := by
  simp [joinVma, joinAbove_of_alike hw hwprot, hv, hvprot]

/-- The VMA above grows downwards. -/
theorem joinVma_after (hw : w.vmStart = g.vmEnd) (hprot : w.Alike prot) (hno : ∀ v ∈ l₁, v.vmEnd = g.vmStart → ¬v.Alike prot) :
    joinVma prot g l₁ (w :: l₂) = l₁ ++ { w with vmStart := g.vmStart } :: l₂ := by
  rcases List.eq_nil_or_concat l₁ with rfl | ⟨l, v, rfl⟩
  · simp [joinVma, joinAbove_of_alike hw hprot]
  · have hv : ¬(v.vmEnd = g.vmStart ∧ v.Alike prot) := fun hv => hno v (by simp) hv.1 hv.2
    simp [joinVma, joinAbove_of_alike hw hprot, hv]

theorem joinVma_joined (prot : Nat) (g : VmArea) (l₁ l₂ : List VmArea) : Joined prot g l₁ l₂ (joinVma prot g l₁ l₂) := by
  have habove : (joinAbove prot g l₂ = (g, l₂)) ∨ ∃ w l, l₂ = w :: l ∧ w.vmStart = g.vmEnd ∧ w.Alike prot := by
    cases l₂ with
    | nil => exact Or.inl rfl
    | cons w l =>
      by_cases hw : w.vmStart = g.vmEnd ∧ w.Alike prot
      · exact Or.inr ⟨w, l, rfl, hw⟩
      · exact Or.inl (if_neg hw)
  rcases habove with habove | ⟨w, l, rfl, hw, hprot⟩
  · rcases List.eq_nil_or_concat l₁ with rfl | ⟨l, v, rfl⟩
    · simp only [joinVma, habove, List.getLast?_nil]
      exact .apart [] l₂
    rw [List.concat_eq_append]
    by_cases hv : v.vmEnd = g.vmStart ∧ v.Alike prot
    · simp only [joinVma, habove, List.getLast?_concat, hv, and_self, ↓reduceIte, List.dropLast_concat]
      exact .before hv.1 hv.2
    · simp only [joinVma, habove, List.getLast?_concat, hv, ↓reduceIte]
      exact .apart _ l₂
  · rcases List.eq_nil_or_concat l₁ with rfl | ⟨l', v, rfl⟩
    · simp only [joinVma, joinAbove_of_alike hw hprot, List.getLast?_nil]
      exact .after hw hprot
    rw [List.concat_eq_append]
    by_cases hv : v.vmEnd = g.vmStart ∧ v.Alike prot
    · rw [joinVma_both hv.1 hv.2 hw hprot]
      exact .both hv.1 hw hv.2 hprot
    · simp only [joinVma, joinAbove_of_alike hw hprot, List.getLast?_concat, hv, ↓reduceIte]
      exact .after hw hprot

/-- The call finds the VMAs below and above the range. -/
theorem joiningOps_mmap {vm : VmaList} (hok : VmasOk vm.fresh vm.vmas) (hcn : c < n) (hl : vm.vmas = l₁ ++ l₂)
    (h₁ : ∀ v ∈ l₁, v.vmEnd ≤ c) (h₂ : ∀ v ∈ l₂, n ≤ v.vmStart) : joiningOps.mmap c (n - c) prot vm =
      (⟨joinVma prot (anonVma vm.fresh c n prot) l₁ l₂, vm.fresh + 1⟩, some c) := by
  have hend : c + (n - c) = n := by omega
  have hpos : ∀ v ∈ l₁ ++ l₂, v.vmStart < v.vmEnd := hl ▸ hok.ordered.pos
  have hbelow : (l₁ ++ l₂).filter (fun v => decide (v.vmEnd ≤ c)) = l₁ := by
    rw [List.filter_append, List.filter_eq_self.mpr fun v hv => decide_eq_true (h₁ v hv), List.filter_eq_nil_iff.mpr fun v hv => ?_,
      List.append_nil]
    have hv₁ := hpos v (List.mem_append_right _ hv)
    have hv₂ := h₂ v hv
    exact fun hle => absurd (of_decide_eq_true hle) (by omega)
  have habove : (l₁ ++ l₂).filter (fun v => decide (n ≤ v.vmStart)) = l₂ := by
    rw [List.filter_append, List.filter_eq_nil_iff.mpr fun v hv => ?_, List.filter_eq_self.mpr fun v hv => decide_eq_true (h₂ v hv),
      List.nil_append]
    have hv₁ := hpos v (List.mem_append_left _ hv)
    have hv₂ := h₁ v hv
    exact fun hle => absurd (of_decide_eq_true hle) (by omega)
  simp only [joiningOps, hend, hl, hbelow, habove]

theorem joiningOps_edits : Edits joiningOps VmaList.fresh Joined where
  munmap vm start end_ _ _ _ hse _ := by
    have hend : start + (end_ - start) = end_ := by omega
    refine ⟨?_, rfl⟩
    show unmapVmas start (start + (end_ - start)) vm.fresh vm.vmas = _
    rw [hend]
    rfl
  mmap vm start end_ prot l₁ l₂ hok _ _ hse hl h₁ h₂ _ := by
    rw [joiningOps_mmap hok hse hl h₁ h₂]
    exact ⟨joinVma_joined prot _ l₁ l₂, rfl⟩

end

/-! ### The way to a place -/

section
variable {vmas : List VmArea} {allVmas : List SnapshotVma} {L R : List VmArea} {P Q : List SnapshotVma}
variable {s t : SweepState VmaList} {a c m n x y : Nat} {v w : VmArea} {q ss prev next : SnapshotVma}

theorem sweepRegion_goes (s : SweepState VmaList) (n : Nat) : (sweepRegion joiningOps s n).2 = none := by
  unfold sweepRegion
  split
  · simp [joiningOps]
  split
  · split
    · split
      · exact if_pos rfl
      · rfl
    · rfl
  · rfl

/-- The round goes on, with the call that it makes. -/
theorem region_next (s : SweepState VmaList) (n : Nat) : sweepRegion joiningOps s n = ((sweepRegion joiningOps s n).1, none) :=
  Prod.ext rfl (sweepRegion_goes s n)

/-- The loop comes to any place below the end of a VMA, unless it comes to hold a VMA that was freed. -/
theorem Stage.passes (hV : Ordered vmas) (hS : SnapshotVmasOk allVmas) (ha : ∃ v ∈ vmas, a < v.vmEnd)
    (h : Stage vmas allVmas joiningOps VmaList.fresh Joined m c s) (hc : c ≤ a) :
    (∃ t, s.Comes joiningOps t ∧ ¬t.Holds joiningOps) ∨ ∃ t L R P Q x y n, s.Comes joiningOps t ∧
      Walked vmas allVmas joiningOps VmaList.fresh L R P Q t ∧ (R ≠ [] ∨ Q ≠ []) ∧ Ends t R Q x y n ∧ t.cursor ≤ a ∧ a < n := by
  induction m using Nat.strong_induction_on generalizing c s with
  | _ m ih =>
    have hon : ∀ {t}, sweepStep joiningOps s = .next t → max c t.cursor ≤ a →
        (∃ t, s.Comes joiningOps t ∧ ¬t.Holds joiningOps) ∨ ∃ t L R P Q x y n, s.Comes joiningOps t ∧
          Walked vmas allVmas joiningOps VmaList.fresh L R P Q t ∧ (R ≠ [] ∨ Q ≠ []) ∧ Ends t R Q x y n ∧ t.cursor ≤ a ∧ a < n := by
      intro t hstep hmax
      obtain ⟨m', hless, c', hc', hstage⟩ := h.next joiningOps_edits id hV hS hstep
      rcases ih m' hless hstage (le_trans hc' hmax) with ⟨t', hcomes, hno⟩ | ⟨t', L, R, P, Q, x, y, n, hcomes, hfound⟩
      · exact Or.inl ⟨t', .head hstep hcomes, hno⟩
      · exact Or.inr ⟨t', L, R, P, Q, x, y, n, .head hstep hcomes, hfound⟩
    cases h with
    | @walked L R P Q s h =>
      by_cases hne : R ≠ [] ∨ Q ≠ []
      · obtain ⟨x, y, n, e⟩ := ends_exist s R Q
        rcases Nat.lt_or_ge a n with han | hna
        · exact Or.inr ⟨s, L, R, P, Q, x, y, n, .refl, h, hne, e, hc, han⟩
        · have hstep := h.step_eq hne e
          rw [region_next] at hstep
          exact hon hstep (max_le hc hna)
      · -- All VMAs are behind the cursor.
        obtain ⟨rfl, rfl⟩ : R = [] ∧ Q = [] := by simpa [not_or] using hne
        obtain ⟨v, hv, hav⟩ := ha
        obtain ⟨L₀, R₀, hvmas, hL₀, hR⟩ := h.ahead
        have hR₀ : R₀ = [] := by
          cases hin : s.inVmas with
          | false =>
            rw [hin] at hR
            exact hR.symm
          | true =>
            rw [hin] at hR
            obtain ⟨v₀, v₁, R₁, -, heq, -⟩ := hR
            cases heq
        have hle := hL₀ v (by simpa [hvmas, hR₀] using hv)
        omega
    | back h =>
      refine hon (sweepStep_back h.list h.ok.ids h.gap h.lt_end) (max_le hc (le_trans h.gap.le hc))
    | @forth L R P Q lower upper q vm h =>
      have hstep := @sweepStep_forth VmaList joiningOps vm lower upper L R q Q h.list h.ok.ids h.lt_end
      rw [region_next] at hstep
      exact hon hstep (max_le hc hc)
    | freed hmaps hw hiter hfreed =>
      refine Or.inl ⟨s, .refl, fun hholds => ?_⟩
      obtain ⟨v, hv, hid⟩ := hholds _ hiter
      exact hfreed v hv hid

/-- The last VMA of a list ends where one of its VMAs does and none does later. -/
theorem eq_concat_of_end {l : List VmArea} (hl : Ordered l) (hle : ∀ v ∈ l, v.vmEnd ≤ c) (hv : v ∈ l) (hend : v.vmEnd = c) :
    ∃ l', l = l' ++ [v] := by
  obtain ⟨l₁, l₂, rfl⟩ := List.append_of_mem hv
  cases l₂ with
  | nil => exact ⟨l₁, rfl⟩
  | cons w l₂ =>
    have hvw : v.vmEnd ≤ w.vmStart := (Ordered.append_iff.mp hl).2.1.head_le List.mem_cons_self
    have hw : w.vmStart < w.vmEnd := hl.pos w (by simp)
    have hwc := hle w (by simp)
    omega

section
variable (h : Walked vmas allVmas joiningOps VmaList.fresh L (w :: R) P (q :: Q) s) (e : Ends s (w :: R) (q :: Q) x y n)
  (hout : s.inVmas = false) (hin : s.inSsVmas = true) (hanon : q.isAnonymousPrivate = true) (hlt : s.cursor < n) (hw : w.vmStart = n)
include h e hout hin hanon hlt hw

/-- What is mapped up to the VMA that the loop is about to enter. -/
theorem Walked.region_below : sweepRegion joiningOps s n =
    (⟨joinVma q.prot (anonVma s.vm.fresh s.cursor n q.prot) L (w :: R), s.vm.fresh + 1⟩, none) := by
  have habove : ∀ u ∈ w :: R, n ≤ u.vmStart := fun u hu => by
    rcases List.mem_cons.mp hu with rfl | hu
    · exact hw.ge
    · exact hw ▸ le_trans (h.orderedV.head_pos).le (h.orderedV.head_le hu)
  have hlist : s.vm.vmas = L ++ w :: R := h.list
  have hmap := @joiningOps_mmap q.prot n s.cursor _ _ s.vm (hlist ▸ h.ok) hlt hlist h.below habove
  simp [sweepRegion, hlt.ne', hout, hin, h.ssIter, hanon, hmap]

variable (hprot : w.Alike q.prot)
include hprot

/-- It is joined with that VMA and with the one below it. -/
theorem Walked.freed (hends : EndsAlike vmas allVmas s.cursor q.prot) :
    ∃ t, s.Comes joiningOps t ∧ ¬t.Holds joiningOps := by
  have hregion := h.region_below e hout hin hanon hlt hw
  obtain ⟨v, hv, hvend, hvprot⟩ := (h.ending hout q.prot).mpr hends
  obtain ⟨L₁, rfl⟩ := eq_concat_of_end (Ordered.append_iff.mp h.ok.ordered).1 h.below hv hvend
  rw [joinVma_both hvend hvprot (by exact hw) hprot] at hregion
  have hstep := h.step_eq (Or.inl (List.cons_ne_nil w R)) e
  rw [hregion] at hstep
  refine ⟨_, .single hstep, fun hholds => ?_⟩
  obtain ⟨u, hu, hid⟩ := hholds w.id (by simp [hout])
  exact freed_of_ids h.ok.ids u hu hid

/-- It is joined with that VMA only. -/
theorem Walked.grows (hno : ¬EndsAlike vmas allVmas s.cursor q.prot) : ∃ t, sweepStep joiningOps s = .next t ∧
    t.vm.vmas = L ++ { w with vmStart := s.cursor } :: R ∧ t.vmaIter = some w.id ∧ t.cursor = n ∧ t.inVmas = true ∧
    t.inSsVmas = if n = y then false else true := by
  have hregion := h.region_below e hout hin hanon hlt hw
  have hnx : n = x := by
    rw [e.vma, hout]
    exact hw.symm
  rw [joinVma_after (by exact hw) hprot fun v hv hvend hvprot => hno ((h.ending hout q.prot).mp ⟨v, hv, hvend, hvprot⟩)] at hregion
  have hstep := h.step_eq (Or.inl (List.cons_ne_nil w R)) e
  rw [hregion] at hstep
  refine ⟨_, hstep, rfl, by simp [hout], rfl, by simp [hnx, hout], ?_⟩
  simp only [hin, Bool.not_true]

end

/-- The loop is at an end of a VMA where it is not in a snapshot VMA. -/
theorem Stage.walked_of_out (h : Stage vmas allVmas joiningOps VmaList.fresh Joined m c s) (hout : s.inSsVmas = false)
    (hholds : s.Holds joiningOps) : ∃ L R P Q, Walked vmas allVmas joiningOps VmaList.fresh L R P Q s := by
  cases h with
  | walked h => exact ⟨_, _, _, _, h⟩
  | back => cases hout
  | forth => cases hout
  | freed hmaps hw hiter hfreed =>
    obtain ⟨v, hv, hid⟩ := hholds _ hiter
    exact absurd hid (hfreed v hv)

/-! ### A hole that is filled -/

/-- The VMA above a hole is the next one that the loop enters. -/
theorem Walked.above_hole (h : Walked vmas allVmas joiningOps VmaList.fresh L R P Q s) (hV : Ordered vmas) (e : Ends s R Q x y n)
    (hout : s.inVmas = false) (hca : s.cursor ≤ a) (han : a < n) (hv : v ∈ vmas) (hav : a < v.vmStart)
    (hhole : ∀ b, a ≤ b → b < v.vmStart → ¬Covers vmas b) : ∃ R₁, R = v :: R₁ := by
  have hahead := h.ahead
  rw [hout] at hahead
  obtain ⟨L₀, R₀, hvmas, hL₀, heq⟩ := hahead
  obtain rfl : R = R₀ := heq
  have hpos : v.vmStart < v.vmEnd := hV.pos v hv
  have hvR : v ∈ R := by
    rcases List.mem_append.mp (hvmas ▸ hv) with hv | hv
    · have hle := hL₀ v hv
      omega
    · exact hv
  obtain ⟨w, R₁, rfl⟩ := List.exists_cons_of_ne_nil (List.ne_nil_of_mem hvR)
  rcases List.mem_cons.mp hvR with rfl | hvR
  · exact ⟨R₁, rfl⟩
  -- Another VMA would lie in the hole.
  have hw : w ∈ vmas := by simp [hvmas]
  have hwpos : w.vmStart < w.vmEnd := hV.pos w hw
  have hle : w.vmEnd ≤ v.vmStart := h.orderedV.head_le hvR
  have hnw : n ≤ w.vmStart := by
    have hx : x = w.vmStart := by
      rw [e.vma, hout]
      rfl
    exact hx ▸ e.next ▸ min_le_left _ _
  exact absurd ⟨w, hw, le_rfl, hwpos⟩ (hhole w.vmStart (by omega) (by omega))

/-- The snapshot VMA that the loop is in. -/
theorem Walked.in_ssVma (h : Walked vmas allVmas joiningOps VmaList.fresh L R P Q s) (hS : SnapshotVmasOk allVmas)
    (e : Ends s R Q x y n) (hca : s.cursor ≤ a) (han : a < n) (hss : ss ∈ allVmas) (hin : In a ss) :
    s.inSsVmas = true ∧ ss.vmStart ≤ s.cursor ∧ y = ss.vmEnd ∧ ∃ Q', Q = ss :: Q' := by
  have hinS := (h.covers_ssVmas e hS hca han).mp ⟨ss, hss, hin⟩
  obtain ⟨q, Q', rfl⟩ := (hinS ▸ h.inS).ne_nil
  have hat : q.vmStart ≤ s.cursor ∧ s.cursor < q.vmEnd := by
    have hat := h.inS
    rw [hinS] at hat
    exact hat
  have hy : y = q.vmEnd := by
    rw [e.ssVma, hinS]
    rfl
  have hny : n ≤ y := e.next ▸ min_le_right _ _
  have hsame : ss = q := by
    refine hS.ordered.eq_of_in hss (by simp [h.split]) hin ⟨?_, ?_⟩
    · show q.vmStart ≤ a
      omega
    · show a < q.vmEnd
      omega
  subst hsame
  exact ⟨hinS, hat.1, hy, Q', rfl⟩

theorem Hole.frees {vm : VmaList} (hhole : Hole vm.vmas allVmas v ss c) (hok : VmasOk vm.fresh vm.vmas)
    (hS : SnapshotVmasOk allVmas) (hprot : v.Alike ss.prot) (hends : EndsAlike vm.vmas allVmas c ss.prot) :
    ∃ t, (SweepState.start joiningOps allVmas vm).Comes joiningOps t ∧ ¬t.Holds joiningOps := by
  obtain ⟨hv, hss, hanon, hstart, hlt, hle, hno⟩ := hhole
  have hV := hok.ordered
  have hpos : v.vmStart < v.vmEnd := hV.pos v hv
  have hstage : Stage (joiningOps.vmas vm) allVmas joiningOps VmaList.fresh Joined _ 0 _ := stage_start Joined hok hS
  rcases hstage.passes (a := c) hV hS ⟨v, hv, by omega⟩ (Nat.zero_le c) with hfreed |
    ⟨t, L, R, P, Q, x, y, n, hcomes, h, hne, e, hct, hcn⟩
  · exact hfreed
  have hV : Ordered vm.vmas := hok.ordered
  have hout : t.inVmas = false := by
    by_contra hin
    exact hno c le_rfl hlt ((h.covers_vmas e hct hcn).mpr (by simpa using hin))
  have hin : In c ss := ⟨hstart, by show c < ss.vmEnd; omega⟩
  obtain ⟨hinS, hstartS, hy, Q', rfl⟩ := h.in_ssVma hS e hct hcn hss hin
  obtain ⟨R₁, rfl⟩ := h.above_hole hV e hout hct hcn hv hlt hno
  have hx : x = v.vmStart := by
    rw [e.vma, hout]
    rfl
  have hn : n = v.vmStart := by
    rw [e.next, hx, hy]
    exact min_eq_left hle
  have hcursor : t.cursor = c := by
    rcases Nat.eq_or_lt_of_le hct with heq | hlow
    · exact heq
    -- Nothing would end at the start of the hole.
    have hnopred : ¬Covers vm.vmas (c - 1) := by
      rw [h.covers_vmas e (by omega) (by omega), hout]
      exact Bool.false_ne_true
    obtain ⟨z, hz, hzend, -⟩ := (endsAlike_hole hV hnopred).mp hends
    have hzpos : z.vmStart < z.vmEnd := hS.ordered.pos z hz
    have hsame : z = ss := by
      refine hS.ordered.eq_of_in (a := c - 1) hz hss ⟨?_, ?_⟩ ⟨?_, ?_⟩
      · show z.vmStart ≤ c - 1
        omega
      · show c - 1 < z.vmEnd
        omega
      · show ss.vmStart ≤ c - 1
        omega
      · show c - 1 < ss.vmEnd
        omega
    rw [hsame] at hzend
    omega
  obtain ⟨t', hcomes', hfreed⟩ := h.freed e hout hinS hanon (by omega) hn.symm hprot (hcursor ▸ hends)
  exact ⟨t', hcomes.trans hcomes', hfreed⟩

/-! ### A gap that is mapped again -/

theorem Cut.freed {lower upper : VmArea} {vm : VmaList} {Q' : List SnapshotVma}
    (h : Cut vmas allVmas joiningOps VmaList.fresh L lower upper R P q Q' vm) (hanon : q.isAnonymousPrivate = true)
    (hprot : upper.Alike q.prot) :
    ∃ t, (SweepState.mk vm (some lower.id) (q :: Q') upper.vmStart true true).Comes joiningOps t ∧ ¬t.Holds joiningOps := by
  have hback := @sweepStep_back VmaList joiningOps vm lower upper L R q Q' h.list h.ok.ids h.gap h.lt_end
  have hforth := @sweepStep_forth VmaList joiningOps vm lower upper L R q Q' h.list h.ok.ids h.lt_end
  have hgap := h.gap
  have hlist : vm.vmas = (L ++ [lower]) ++ upper :: R := h.there.list
  have hok : VmasOk vm.fresh ((L ++ [lower]) ++ upper :: R) := h.there.ok
  have hlow : VmasOk vm.fresh (L ++ lower :: upper :: R) := h.ok
  have hbelow : ∀ w ∈ L ++ [lower], w.vmEnd ≤ lower.vmEnd := fun w hw => by
    rcases List.mem_append.mp hw with hw | hw
    · have hle : w.vmEnd ≤ lower.vmStart := (Ordered.append_iff.mp hlow.ordered).2.2 w hw lower List.mem_cons_self
      have hpos : lower.vmStart < lower.vmEnd := hlow.ordered.pos lower (by simp)
      omega
    · rw [List.mem_singleton.mp hw]
  have habove : ∀ w ∈ upper :: R, upper.vmStart ≤ w.vmStart := fun w hw => by
    rcases List.mem_cons.mp hw with rfl | hw
    · exact le_rfl
    · exact le_trans (h.there.orderedV.head_pos).le (h.there.orderedV.head_le hw)
  have hlowprot : lower.Alike q.prot := ⟨h.same.2 ▸ hprot.1, h.same.1 ▸ hprot.2⟩
  have hmap := @joiningOps_mmap q.prot upper.vmStart lower.vmEnd _ _ vm (hlist ▸ hok) hgap hlist hbelow habove
  rw [joinVma_both (by rfl) hlowprot (by rfl) hprot] at hmap
  have hregion : sweepRegion joiningOps ⟨vm, some upper.id, q :: Q', lower.vmEnd, false, true⟩ upper.vmStart =
      (⟨L ++ { lower with vmEnd := upper.vmEnd } :: R, vm.fresh + 1⟩, none) := by
    simp [sweepRegion, hgap.ne', hanon, hmap]
  rw [hregion] at hforth
  refine ⟨_, .tail (.single hback) hforth, fun hholds => ?_⟩
  obtain ⟨u, hu, hid⟩ := hholds upper.id rfl
  exact freed_of_ids hok.ids u hu hid

/-- A VMA that the loop cuts in two. -/
theorem Walked.cut_freed (h : Walked vmas allVmas joiningOps VmaList.fresh L (w :: R) P (q :: Q) s) (hS : SnapshotVmasOk allVmas)
    (e : Ends s (w :: R) (q :: Q) x y n) (hin : s.inVmas = true) (hout : s.inSsVmas = false) (hlt : s.cursor < n) (hnx : n ≠ x)
    (hstart : w.vmStart < s.cursor) (hanon : q.isAnonymousPrivate = true) (hprot : w.Alike q.prot) :
    ∃ t, s.Comes joiningOps t ∧ ¬t.Holds joiningOps := by
  have hne : w :: R ≠ [] ∨ q :: Q ≠ [] := Or.inl (List.cons_ne_nil _ _)
  have hnw : n < w.vmEnd := lt_of_le_of_ne (e.le_vma hin) (e.vma_eq hin ▸ hnx)
  have hny : n = y := e.choice.resolve_left hnx
  obtain ⟨hlist, hfresh⟩ := joiningOps_edits.munmap s.vm s.cursor n (h.list ▸ h.ok) h.dvd (h.next_dvd hS hne e) hlt rfl
  have hok := h.ok.unmap h.dvd (h.next_dvd hS hne e) hlt
  have hpart : unmapVma s.cursor n s.vm.fresh w = [{ w with vmEnd := s.cursor }, { w with id := s.vm.fresh, vmStart := n }] := by
    rw [unmapVma, if_neg (by omega), if_pos hstart, if_pos hnw]
  rw [h.list, h.unmapVmas_eq hnw.le, hpart] at hlist
  rw [h.unmapVmas_eq hnw.le, hpart, ← hfresh] at hok
  obtain ⟨q₁, Q₁, P', heq, hcut⟩ := h.cut hS e hin hout hlt hnx hstart hlist hok
  obtain ⟨rfl, rfl⟩ := List.cons.inj heq
  have hregion : sweepRegion joiningOps s n = ((joiningOps.munmap s.cursor (n - s.cursor) s.vm).1, none) := by
    rw [region_next]
    simp [sweepRegion, hlt.ne', hin, hout]
  have hstep := h.step_eq hne e
  rw [hregion] at hstep
  simp only [hnx, hin, hout, ← hny, false_and, ↓reduceIte, Bool.not_false] at hstep
  obtain ⟨t, hcomes, hfreed⟩ := hcut.freed hanon hprot
  exact ⟨t, .head hstep hcomes, hfreed⟩

/-- The loop at the gap, with memory of the VMA below it. -/
theorem Cuts.frees_at (hcuts : Cuts vmas allVmas v prev next) (hS : SnapshotVmasOk allVmas)
    (hanon : next.isAnonymousPrivate = true) (hprot : v.Alike next.prot)
    (h : Walked vmas allVmas joiningOps VmaList.fresh L (w :: R) P Q s) (hcursor : s.cursor = prev.vmEnd) (hin : s.inVmas = true)
    (hout : s.inSsVmas = false) (hr : Remains vmas allVmas s.cursor v w) (hstart : w.vmStart < s.cursor) :
    ∃ t, s.Comes joiningOps t ∧ ¬t.Holds joiningOps := by
  obtain ⟨x, y, n, e⟩ := ends_exist s (w :: R) Q
  have hgap := hcuts.gap
  have hupper := hcuts.upper
  have hnextPos : next.vmStart < next.vmEnd := hS.ordered.pos next hcuts.nextMem
  have hnextQ : next ∈ Q := by
    rcases List.mem_append.mp (h.split ▸ hcuts.nextMem) with hP | hQ
    · have hle := h.ssBelow next hP
      omega
    · exact hQ
  obtain ⟨q, Q', rfl⟩ := List.exists_cons_of_ne_nil (List.ne_nil_of_mem hnextQ)
  have hqS : q ∈ allVmas := by simp [h.split]
  have hqPos : q.vmStart < q.vmEnd := hS.ordered.pos q hqS
  have hat : s.cursor ≤ q.vmStart := by
    have hat := h.inS
    rw [hout] at hat
    exact hat
  have hnext : next = q := by
    refine (List.mem_cons.mp hnextQ).resolve_right fun hQ' => ?_
    have hle : q.vmEnd ≤ next.vmStart := (h.orderedS hS).head_le hQ'
    rcases hcuts.between q hqS with hb | hb <;> omega
  subst hnext
  have hy : y = next.vmStart := by
    rw [e.ssVma, hout]
    rfl
  have hx : x = v.vmEnd := (e.vma_eq hin).trans hr.same.1
  have hn : n = next.vmStart := by
    rw [e.next, hx, hy]
    exact min_eq_right hupper.le
  have hwprot : w.Alike next.prot := ⟨hr.same.2.2 ▸ hprot.1, hr.same.2.1 ▸ hprot.2⟩
  exact h.cut_freed hS e hin hout (by omega) (by omega) hstart hanon hwprot

/-- The VMA that the loop is in, as it was at the start. -/
theorem Walked.in_vma (h : Walked vmas allVmas joiningOps VmaList.fresh L R P Q s) (hV : Ordered vmas) (e : Ends s R Q x y n)
    (hca : s.cursor ≤ a) (han : a < n) (hv : v ∈ vmas) (hav : In a v) :
    s.inVmas = true ∧ ∃ w R₁, R = w :: R₁ ∧ Remains vmas allVmas s.cursor v w := by
  have hin := (h.covers_vmas e hca han).mp ⟨v, hv, hav⟩
  obtain ⟨w, R₁, rfl⟩ := (hin ▸ h.inV).ne_nil
  have hahead := h.ahead
  rw [hin] at hahead
  obtain ⟨L₀, v₀, hvmas, -, hr⟩ := hahead.inside
  have hend : n ≤ w.vmEnd := e.le_vma hin
  have hsame : v = v₀ := by
    refine hV.eq_of_in hv (by simp [hvmas]) hav ⟨le_trans hr.entered hca, ?_⟩
    have hend₀ := hr.same.1
    show a < v₀.vmEnd
    omega
  exact ⟨hin, w, R₁, rfl, hsame ▸ hr⟩

section
variable {vm : VmaList} (hcuts : Cuts vm.vmas allVmas v prev next) (hok : VmasOk vm.fresh vm.vmas) (hS : SnapshotVmasOk allVmas)
  (hanon : next.isAnonymousPrivate = true) (hprot : v.Alike next.prot)
include hcuts hok hS hanon hprot

/-- The loop has entered the VMA before it comes to the gap. -/
theorem Cuts.frees_entered (hlower : v.vmStart < prev.vmEnd) :
    ∃ t, (SweepState.start joiningOps allVmas vm).Comes joiningOps t ∧ ¬t.Holds joiningOps := by
  have hV : Ordered (joiningOps.vmas vm) := hok.ordered
  have hprevPos : prev.vmStart < prev.vmEnd := hS.ordered.pos prev hcuts.prevMem
  have hgap := hcuts.gap
  have hupper := hcuts.upper
  have hstage : Stage (joiningOps.vmas vm) allVmas joiningOps VmaList.fresh Joined _ 0 _ := stage_start Joined hok hS
  rcases hstage.passes (a := prev.vmEnd) hV hS ⟨v, hcuts.mem, by omega⟩ (Nat.zero_le _) with hfreed |
    ⟨t, L, R, P, Q, x, y, n, hcomes, h, hne, e, hct, hcn⟩
  · exact hfreed
  have hav : In prev.vmEnd v := ⟨hlower.le, by show prev.vmEnd < v.vmEnd; omega⟩
  obtain ⟨hin, w, R₁, rfl, hr⟩ := h.in_vma hV e hct hcn hcuts.mem hav
  have hout : t.inSsVmas = false := by
    by_contra hinS
    obtain ⟨ss, hss, h1, h2⟩ := (h.covers_ssVmas e hS hct hcn).mpr (by simpa using hinS)
    have h1 : ss.vmStart ≤ prev.vmEnd := h1
    have h2 : prev.vmEnd < ss.vmEnd := h2
    rcases hcuts.between ss hss with hb | hb <;> omega
  have hcursor : t.cursor = prev.vmEnd := by
    by_contra hne
    have hinS := (h.covers_ssVmas e hS (a := prev.vmEnd - 1) (by omega) (by omega)).mp (covers_pred hS.ordered hcuts.prevMem)
    rw [hout] at hinS
    cases hinS
  have hat := (h.at_vma hin).1
  have hstart : w.vmStart < t.cursor := by
    rcases hr.start with heq | ⟨-, hlt | ⟨ss, hss, heq⟩⟩ | ⟨hlt, -⟩
    · omega
    · exact hlt
    · -- No snapshot VMA starts at the gap.
      have hpos : ss.vmStart < ss.vmEnd := hS.ordered.pos ss hss
      rcases hcuts.between ss hss with hb | hb <;> omega
    · omega
  obtain ⟨t', hcomes', hfreed⟩ := hcuts.frees_at hS hanon hprot h hcursor hin hout hr hstart
  exact ⟨t', hcomes.trans hcomes', hfreed⟩

/-- The end of the snapshot VMA below the gap is mapped first, and the VMA grows over it. -/
theorem Cuts.frees_grown (hstart : v.vmStart = prev.vmEnd) (hlowers : Lowers vm.vmas v prev) :
    ∃ t, (SweepState.start joiningOps allVmas vm).Comes joiningOps t ∧ ¬t.Holds joiningOps := by
  have hV : Ordered (joiningOps.vmas vm) := hok.ordered
  have hprevPos : prev.vmStart < prev.vmEnd := hS.ordered.pos prev hcuts.prevMem
  have hgap := hcuts.gap
  have hupper := hcuts.upper
  have hstage : Stage (joiningOps.vmas vm) allVmas joiningOps VmaList.fresh Joined _ 0 _ := stage_start Joined hok hS
  obtain ⟨hprevAnon, hprevProt, hprevStart, -, hno⟩ := hlowers
  have hpred : ∀ b, prev.vmEnd - 1 ≤ b → b < v.vmStart → ¬Covers vm.vmas b := fun b h1 h2 => by
    obtain rfl : b = v.vmStart - 1 := by omega
    exact hno
  rcases hstage.passes (a := prev.vmEnd - 1) hV hS ⟨v, hcuts.mem, by omega⟩ (Nat.zero_le _) with hfreed |
    ⟨t, L, R, P, Q, x, y, n, hcomes, h, hne, e, hct, hcn⟩
  · exact hfreed
  have hout : t.inVmas = false := by
    by_contra hin
    exact hpred _ le_rfl (by omega) ((h.covers_vmas e hct hcn).mpr (by simpa using hin))
  have hin : In (prev.vmEnd - 1) prev := ⟨by show prev.vmStart ≤ prev.vmEnd - 1; omega, by show prev.vmEnd - 1 < prev.vmEnd; omega⟩
  obtain ⟨hinS, -, hy, Q', rfl⟩ := h.in_ssVma hS e hct hcn hcuts.prevMem hin
  obtain ⟨R₁, rfl⟩ := h.above_hole hV e hout hct hcn hcuts.mem (by omega) hpred
  have hx : x = v.vmStart := by
    rw [e.vma, hout]
    rfl
  have hn : n = v.vmStart := by
    rw [e.next, hx, hy]
    exact min_eq_left hstart.le
  by_cases hends : EndsAlike vm.vmas allVmas t.cursor prev.prot
  · obtain ⟨t', hcomes', hfreed⟩ := h.freed e hout hinS hprevAnon (by omega) hn.symm hprevProt hends
    exact ⟨t', hcomes.trans hcomes', hfreed⟩
  obtain ⟨t', hstep, hlist, hiter, hcursor, hin', hinS'⟩ := h.grows e hout hinS hprevAnon (by omega) hn.symm hprevProt hends
  rw [if_pos (by omega)] at hinS'
  have hcomes' := hcomes.tail hstep
  obtain ⟨m', -, c', -, hstage'⟩ := (Stage.walked h).next joiningOps_edits id hV hS hstep
  by_cases hholds : t'.Holds joiningOps
  swap
  · exact ⟨t', hcomes', hholds⟩
  obtain ⟨L', R', P', Q'', h'⟩ := hstage'.walked_of_out hinS' hholds
  obtain ⟨w, R₂, rfl⟩ := (hin' ▸ h'.inV).ne_nil
  -- The VMA that has grown.
  have hw : w = { v with vmStart := t.cursor } := by
    have hid : w.id = v.id := by
      have hiter' := h'.iter
      rw [hiter] at hiter'
      exact (Option.some.inj hiter').symm
    have hlist' : L' ++ w :: R₂ = L ++ { v with vmStart := t.cursor } :: R₁ := h'.list.symm.trans hlist
    have hw := lookupVma_append h'.ok.ids
    rw [hlist', hid] at hw
    have hv := lookupVma_append (hlist' ▸ h'.ok.ids)
    exact (Prod.mk.inj (Option.some.inj (hw.symm.trans hv))).1
  have hahead := h'.ahead
  rw [hin'] at hahead
  obtain ⟨L₀, v₀, hvmas, -, hr⟩ := hahead.inside
  have hvmas : vm.vmas = L₀ ++ v₀ :: R₂ := hvmas
  have hv₀ : v₀ ∈ vm.vmas := by
    rw [hvmas]
    simp
  have hend : v.vmEnd = v₀.vmEnd := by
    rw [← hr.same.1, hw]
  have hpos : v.vmStart < v.vmEnd := hok.ordered.pos v hcuts.mem
  have hpos₀ : v₀.vmStart < v₀.vmEnd := hok.ordered.pos v₀ hv₀
  have hsame : v = v₀ := by
    refine hok.ordered.eq_of_in (a := v.vmEnd - 1) hcuts.mem hv₀ ⟨?_, ?_⟩ ⟨?_, ?_⟩
    · show v.vmStart ≤ v.vmEnd - 1
      omega
    · show v.vmEnd - 1 < v.vmEnd
      omega
    · show v₀.vmStart ≤ v.vmEnd - 1
      omega
    · show v.vmEnd - 1 < v₀.vmEnd
      omega
  have hgrown : w.vmStart < t'.cursor := by
    rw [hw]
    show t.cursor < t'.cursor
    omega
  obtain ⟨t'', hcomes'', hfreed⟩ := hcuts.frees_at hS hanon hprot h' (by omega) hin' hinS' (hsame ▸ hr) hgrown
  exact ⟨t'', hcomes'.trans hcomes'', hfreed⟩

theorem Cuts.frees : ∃ t, (SweepState.start joiningOps allVmas vm).Comes joiningOps t ∧ ¬t.Holds joiningOps := by
  rcases hcuts.lower with hlower | ⟨hstart, hlowers⟩
  · exact hcuts.frees_entered hok hS hanon hprot hlower
  · exact hcuts.frees_grown hok hS hanon hprot hstart hlowers

end

end

/-- Two pages with a page between them that is not mapped. -/
def holedVmas (flags : Nat) : List VmArea := [⟨0, 4096, 8192, 3, none⟩, ⟨1, 12288, 16384, flags, none⟩]

/-- The three pages in one VMA. -/
def wholeVmas : List SnapshotVma := [⟨4096, 16384, true, 3⟩]

theorem holedVmas_ok (flags : Nat) : VmasOk 2 (holedVmas flags) :=
  ⟨⟨by simp [holedVmas, Ranged.lo, Ranged.hi], by simp [holedVmas, Ranged.lo, Ranged.hi]⟩, by simp [holedVmas, pageSize],
    by simp [holedVmas, ulongMax], by simp [holedVmas], by simp [holedVmas]⟩

theorem wholeVmas_ok : SnapshotVmasOk wholeVmas :=
  ⟨⟨by simp [wholeVmas, Ranged.lo, Ranged.hi], by simp [wholeVmas]⟩, by simp [wholeVmas, pageSize], by simp [wholeVmas, ulongMax]⟩

end AflSnapshot
