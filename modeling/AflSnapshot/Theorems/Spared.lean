import AflSnapshot.Theorems.Breaks
import AflSnapshot.Theorems.Departures
import AflSnapshot.Theorems.Sharing

/-! # What a restore leaves alone

`restore_vmas` calls the kernel only for ranges that are mapped and not in the snapshot, or in the snapshot and not mapped,
also on its way back from a cut (`Stage.spares`). What `restore_brk` and the loop over the dirty list touch is known page by
page, so that a restore changes the mapping and the page-table entry of no other address, whatever of its calls fails. -/

namespace AflSnapshot
open Spans Runs

/-! ### The sweep -/

/-- Whole pages, each of them either mapped or in the snapshot. -/
structure Differ (vmas : List VmArea) (allVmas : List SnapshotVma) (start end_ : Nat) : Prop where
  startDvd : pageSize ∣ start
  endDvd : pageSize ∣ end_
  lt : start < end_
  differ : ∀ a, start ≤ a → a < end_ → ¬(Covers vmas a ↔ Covers allVmas a)

/-- The calls for such ranges keep `J`. -/
structure CallsSpare {σ : Type} (ops : VmOps σ) (fresh : σ → Nat) (vmas : List VmArea) (allVmas : List SnapshotVma)
    (J : σ → Prop) : Prop where
  munmap : ∀ vm start end_, J vm → VmasOk (fresh vm) (ops.vmas vm) → Differ vmas allVmas start end_ →
    J (ops.munmap start (end_ - start) vm).1
  mmap : ∀ vm start end_ prot, J vm → VmasOk (fresh vm) (ops.vmas vm) → Differ vmas allVmas start end_ →
    J (ops.mmap start (end_ - start) prot vm).1

/-- `J` holds after the round, where the loop comes to its end of it. -/
def SweepResult.Leaves {σ : Type} (J : σ → Prop) : SweepResult σ → Prop
  | .next s => J s.vm
  | .ret vm _ => J vm
  | .oops => True

section
variable {σ : Type} {ops : VmOps σ} {fresh : σ → Nat} {vmas : List VmArea} {allVmas : List SnapshotVma} {J : σ → Prop}
  {maps : Nat → VmArea → List VmArea → List VmArea → List VmArea → Prop} {s : SweepState σ} {L R : List VmArea}
  {P Q : List SnapshotVma} {n k c : Nat} {vm : σ}

theorem sweepRegion_spares (hJ : CallsSpare ops fresh vmas allVmas J) (h : J s.vm) (hok : VmasOk (fresh s.vm) (ops.vmas s.vm))
    (hdiffer : n ≠ s.cursor → s.inVmas ≠ s.inSsVmas → Differ vmas allVmas s.cursor n) : J (sweepRegion ops s n).1 := by
  unfold sweepRegion
  split
  · rename_i hin
    exact hJ.munmap _ _ _ h hok (hdiffer hin.1 fun heq => by simp [heq] at hin)
  split
  · rename_i hin
    split
    · split
      · exact hJ.mmap _ _ _ _ h hok (hdiffer hin.1 fun heq => by simp [heq] at hin)
      · exact h
    · exact h
  · exact h

theorem Walked.spares (h : Walked vmas allVmas ops fresh L R P Q s) (hJ : CallsSpare ops fresh vmas allVmas J) (hs : J s.vm)
    (hS : SnapshotVmasOk allVmas) : (sweepStep ops s).Leaves J := by
  by_cases hne : R ≠ [] ∨ Q ≠ []
  swap
  · obtain ⟨rfl, rfl⟩ : R = [] ∧ Q = [] := by simpa [not_or] using hne
    have hiter : s.vmaIter = none := h.iter
    have hret : sweepStep ops s = .ret s.vm 0 := by simp [sweepStep, hiter, h.ssIter]
    rw [hret]
    exact hs
  obtain ⟨x, y, n, e⟩ := ends_exist s R Q
  have hcn := h.cursor_le hS h.top.le e
  have hregion : J (sweepRegion ops s n).1 := sweepRegion_spares hJ hs (h.list ▸ h.ok) fun hlt hbool => by
    refine ⟨h.dvd, h.next_dvd hS hne e, lt_of_le_of_ne hcn hlt.symm, fun a h1 h2 hiff => hbool ?_⟩
    rw [h.covers_vmas e h1 h2, h.toPlaced.covers_ssVmas e hS h1 h2] at hiff
    exact Bool.eq_iff_iff.mpr hiff
  rw [h.step_eq hne e]
  rcases hr : sweepRegion ops s n with ⟨vm, _ | res⟩ <;> rw [hr] at hregion <;> exact hregion

/-- On the way back from a cut only the gap is mapped again. -/
theorem Cut.spares {lower upper : VmArea} {q : SnapshotVma} (h : Cut vmas allVmas ops fresh L lower upper R P q Q vm)
    (hJ : CallsSpare ops fresh vmas allVmas J) (hs : J vm) (hV : Ordered vmas) :
    (sweepStep ops ⟨vm, some upper.id, q :: Q, lower.vmEnd, false, true⟩).Leaves J := by
  have hdiffer : Differ vmas allVmas lower.vmEnd upper.vmStart := by
    refine ⟨(h.ok.aligned lower (by simp)).2, h.there.dvd, h.gap, fun a h1 h2 hiff => ?_⟩
    obtain ⟨L₀, v₀, hvmas, -, hr, hlow⟩ := h.remains hV
    obtain ⟨v, prev, hcuts, hprev, -⟩ := h.cuts
    have hstart := h.start
    have hpos : upper.vmStart < upper.vmEnd := h.there.inV.2
    have hend := hr.same.1
    obtain ⟨ss, hss, h3, h4⟩ := hiff.mp ⟨v₀, by simp [hvmas], show v₀.vmStart ≤ a by omega, show a < v₀.vmEnd by omega⟩
    have h3 : ss.vmStart ≤ a := h3
    have h4 : a < ss.vmEnd := h4
    rcases hcuts.between ss hss with hle | hle <;> omega
  have hregion : J (sweepRegion ops ⟨vm, some upper.id, q :: Q, lower.vmEnd, false, true⟩ upper.vmStart).1 :=
    sweepRegion_spares hJ hs (h.list ▸ h.ok) fun _ _ => hdiffer
  rw [sweepStep_forth h.list h.ok.ids h.lt_end]
  rcases hr : sweepRegion ops ⟨vm, some upper.id, q :: Q, lower.vmEnd, false, true⟩ upper.vmStart with ⟨vm', _ | res⟩ <;>
    rw [hr] at hregion <;> exact hregion

/-- A round keeps what the calls keep. -/
theorem Stage.spares (h : Stage vmas allVmas ops fresh maps k c s) (hJ : CallsSpare ops fresh vmas allVmas J) (hs : J s.vm)
    (hV : Ordered vmas) (hS : SnapshotVmasOk allVmas) : (sweepStep ops s).Leaves J := by
  cases h with
  | @walked L R P Q s h => exact h.spares hJ hs hS
  | back h =>
    rw [sweepStep_back h.list h.ok.ids h.gap h.lt_end]
    exact hs
  | forth h => exact h.spares hJ hs hV
  | freed hmaps hw hiter hfreed =>
    have hoops : sweepStep ops s = .oops := sweepStep_oops.mpr fun hholds => by
      obtain ⟨v, hv, hid⟩ := hholds _ hiter
      exact hfreed v hv hid
    rw [hoops]
    trivial

/-- So does the loop, to whatever end it comes. -/
theorem Stage.sweep_spares (hops : Edits ops fresh maps) (hmaps : ∀ {prot g l₁ l₂ l}, maps prot g l₁ l₂ l → Joined prot g l₁ l₂ l)
    (hV : Ordered vmas) (hS : SnapshotVmasOk allVmas) (hJ : CallsSpare ops fresh vmas allVmas J) {fuel : Nat} {vm' : σ} {r : Int}
    (h : Stage vmas allVmas ops fresh maps k c s) (hs : J s.vm) (hres : sweep ops fuel s = some (vm', r)) : J vm' := by
  induction fuel generalizing k c s with
  | zero => cases hres
  | succ fuel ih =>
    have hround := h.spares hJ hs hV hS
    rw [sweep] at hres
    cases hstep : sweepStep ops s with
    | next s' =>
      rw [hstep] at hres hround
      obtain ⟨k', -, c', -, hstage⟩ := h.next hops hmaps hV hS hstep
      exact ih hstage hround hres
    | ret vm res =>
      rw [hstep] at hres hround
      cases hres
      exact hround
    | oops =>
      rw [hstep] at hres
      cases hres

theorem restoreVmas_spared (hops : Edits ops fresh maps)
    (hmaps : ∀ {prot g l₁ l₂ l}, maps prot g l₁ l₂ l → Joined prot g l₁ l₂ l) (hok : VmasOk (fresh vm) (ops.vmas vm))
    (hS : SnapshotVmasOk allVmas) (hJ : CallsSpare ops fresh (ops.vmas vm) allVmas J) (hs : J vm) {vm' : σ} {r : Int}
    (hres : restoreVmas ops allVmas vm = some (vm', r)) : J vm' :=
  Stage.sweep_spares hops hmaps hok.ordered hS hJ (stage_start maps hok hS) hs hres

end

/-! ### The calls of a restore -/

/-- The address is mapped as before and its page has the entry it had. All other address spaces are as they were. -/
structure Memory.LeavesAt (m a : Nat) (mem mem' : Memory) : Prop where
  kind : (mem'.mm m).kindAt a = (mem.mm m).kindAt a
  pte : (mem'.mm m).pte a = (mem.mm m).pte a
  others : ∀ m', m' ≠ m → mem'.mm m' = mem.mm m'

section
variable {env : Env} {m id a page start end_ len brk : Nat} {mem mem₁ mem' : Memory} {c c' : Core} {x : Pte} {mm : Mm}
  {allVmas : List SnapshotVma}

namespace Memory.LeavesAt

theorem refl (m a : Nat) (mem : Memory) : mem.LeavesAt m a mem := ⟨rfl, rfl, fun _ _ => rfl⟩

theorem trans (h₁ : mem.LeavesAt m a mem₁) (h₂ : mem₁.LeavesAt m a mem') : mem.LeavesAt m a mem' :=
  ⟨h₂.kind.trans h₁.kind, h₂.pte.trans h₁.pte, fun m' hm => (h₂.others m' hm).trans (h₁.others m' hm)⟩

theorem of_mm (h : mem'.mm = mem.mm) : mem.LeavesAt m a mem' := ⟨by rw [h], by rw [h], fun m' _ => by rw [h]⟩

/-- The address space of the process changes elsewhere. -/
theorem setMm (hkind : mm.kindAt a = (mem.mm m).kindAt a) (hpte : mm.pte a = (mem.mm m).pte a) :
    mem.LeavesAt m a (mem.setMm m mm) :=
  ⟨by rw [mm_setMm_self, hkind], by rw [mm_setMm_self, hpte], fun _ hm => mm_setMm_of_ne hm⟩

theorem setPte (ha : a ≠ page) : mem.LeavesAt m a (mem.setPte m page x) := setMm rfl (pte_setPte_of_ne ha)

theorem covers (h : mem.LeavesAt m a mem') : Covers (mem'.mm m).mmap a ↔ Covers (mem.mm m).mmap a := by
  have hnone := iff_of_eq (congrArg (· = none) h.kind)
  rw [kindAt_eq_none, kindAt_eq_none] at hnone
  exact not_iff_not.mp hnone

end Memory.LeavesAt

theorem leavesAt_mapAnon (hok : VmasOk (mem.mm m).freshVma (mem.mm m).mmap) (prot : Nat) (ha : ¬(start ≤ a ∧ a < end_)) :
    mem.LeavesAt m a (mem.setMm m ((mem.mm m).mapAnon start end_ prot)) := .setMm (kindAt_mapAnon hok prot ha) rfl

variable (env) in
theorem leavesAt_doMunmap (hc : c.reg.Coherent) (hok : VmasOk (c.mem.mm m).freshVma (c.mem.mm m).mmap)
    (ha : pageSize ∣ start → ¬(start ≤ a ∧ a < start + pageAlign len)) :
    c.mem.LeavesAt m a (c.doMunmap env m start len).1.mem := by
  by_cases hres : (c.doMunmap env m start len).2 = 0
  · obtain ⟨hs, hlen, hmem⟩ := doMunmap_mem hres
    have hle := le_pageAlign len
    rw [hmem]
    exact .setMm (kindAt_unmap hok (by omega) (ha hs)) (if_neg (ha hs))
  · rw [doMunmap_failed hc hres]
    exact .refl m a c.mem

/-! ### The dirty list -/

theorem mem_recordDirtyPages {d : TaskData} {original : Nat → Page} {alloc : Nat → Bool} {addrs : List Nat}
    (h : a ∈ (d.recordDirtyPages original alloc addrs).ss.dirtyPages) : a ∈ d.ss.dirtyPages ∨ a ∈ addrs := by
  induction addrs generalizing d with
  | nil => exact Or.inl h
  | cons addr addrs ih =>
    rcases ih h with hin | hin
    · rcases (recordDirtyPage_spec d addr (original addr) (alloc addr)).1.dirtyPages with ⟨heq, -⟩ | ⟨heq, -⟩ <;> rw [heq] at hin
      · exact Or.inl hin
      · rcases List.mem_append.mp hin with hin | hin
        · exact Or.inl hin
        · exact Or.inr (List.mem_singleton.mp hin ▸ List.mem_cons_self)
    · exact Or.inr (List.mem_cons_of_mem addr hin)

/-- The hook queues no page outside the range. -/
theorem queued_doMunmap (hc : c.reg.Coherent) (ha : ¬(start ≤ a ∧ a < start + len))
    (h : a ∈ ((c.doMunmap env m start len).1.reg.data id).ss.dirtyPages) : a ∈ (c.reg.data id).ss.dirtyPages := by
  rw [doMunmap_reg] at h
  obtain ⟨hup, -⟩ := ownerLive_spec env m hc
  unfold Core.doMunmapHook at h
  rcases hr : c.ownerLive env m with ⟨c₁, o⟩
  rw [hr] at h hup
  have hdata : c₁.reg.data = c.reg.data := hup.reg.data
  cases o with
  | none =>
    dsimp only at h
    rwa [hdata] at h
  | some i =>
    dsimp only at h
    by_cases hi : id = i
    · subst hi
      rw [setData_same, hdata] at h
      rcases mem_recordDirtyPages h with h | h
      · exact h
      · exact absurd ⟨(mem_walkPageRange h).1, (mem_walkPageRange h).2.1⟩ ha
    · rwa [setData_of_ne hi, hdata] at h

/-- The address is left alone, and its page is not queued if it was not. -/
structure Core.Skips (m id a : Nat) (c c' : Core) : Prop where
  coherent : c'.reg.Coherent
  leaves : c.mem.LeavesAt m a c'.mem
  queued : a ∈ (c'.reg.data id).ss.dirtyPages → a ∈ (c.reg.data id).ss.dirtyPages

namespace Core.Skips

theorem refl (h : c.reg.Coherent) : c.Skips m id a c := ⟨h, .refl m a c.mem, fun h => h⟩

theorem setMem (h : c.Skips m id a c') (hmem : c'.mem.LeavesAt m a mem) : c.Skips m id a (c'.setMem mem) :=
  ⟨h.coherent, h.leaves.trans hmem, h.queued⟩

theorem doMunmap (h : c.Skips m id a c') (hok : VmasOk (c'.mem.mm m).freshVma (c'.mem.mm m).mmap)
    (hqueue : ¬(start ≤ a ∧ a < start + len)) (ha : pageSize ∣ start → ¬(start ≤ a ∧ a < start + pageAlign len)) :
    c.Skips m id a (c'.doMunmap env m start len).1 := by
  have hsteady : c'.Steady env (c'.doMunmap env m start len).1 := steady_doMunmap h.coherent
  exact ⟨hsteady.coherent, h.leaves.trans (leavesAt_doMunmap env h.coherent hok ha),
    fun hin => h.queued (queued_doMunmap h.coherent hqueue hin)⟩

end Core.Skips

/-! ### The steps of a restore -/

/-- `restore_vmas` skips the addresses where what is mapped agrees with the snapshot. -/
theorem restoreVmas_skips (hc : c.reg.Coherent) (hm : c.mem.Mapped) (hS : SnapshotVmasOk allVmas)
    (ha : Covers (c.mem.mm m).mmap a ↔ Covers allVmas a) {r : Int}
    (hres : restoreVmas (Core.vmOps env m) allVmas c = some (c', r)) : c.Skips m id a c' := by
  have hout : ∀ {start end_}, Differ (c.mem.mm m).mmap allVmas start end_ → ¬(start ≤ a ∧ a < end_) := fun hd hin =>
    hd.differ a hin.1 hin.2 ha
  refine restoreVmas_spared (J := fun c' => c.Skips m id a c') (vmOps_edits env m) Inserted.joined (hm m).1 hS
    ⟨fun c₁ start end_ h hok hd => ?_, fun c₁ start end_ prot h hok hd => ?_⟩ (.refl hc) hres
  · have hlt := hd.lt
    have hend : start + pageAlign (end_ - start) = end_ := by
      rw [pageAlign_of_dvd (Nat.dvd_sub hd.endDvd hd.startDvd)]
      omega
    refine h.doMunmap hok (fun hin => hout hd ⟨hin.1, by omega⟩) fun _ hin => hout hd ⟨hin.1, ?_⟩
    rw [← hend]
    exact hin.2
  · have hlt := hd.lt
    have hend : start + pageAlign (end_ - start) = end_ := by
      rw [pageAlign_of_dvd (Nat.dvd_sub hd.endDvd hd.startDvd)]
      omega
    show c.Skips m id a (c₁.vmMmap env m start (end_ - start) prot).1
    unfold Core.vmMmap
    split
    · rw [hend]
      exact h.setMem (leavesAt_mapAnon hok prot (hout hd))
    · exact h

variable (env) in
theorem sweptVmas_skips (hc : c.reg.Coherent) (hm : c.mem.Mapped) (hS : SnapshotVmasOk (c.reg.data id).ss.allVmas)
    (ha : hasFlag (c.reg.data id).config aflSnapshotMmap = true →
      (Covers (c.mem.mm m).mmap a ↔ Covers (c.reg.data id).ss.allVmas a)) : c.Skips m id a (c.sweptVmas env m id).1 := by
  unfold Core.sweptVmas
  split
  · rename_i hcfg
    obtain ⟨c', r, hres⟩ := restoreVmas_returns (vmOps_edits env m) (hm m).1 hS
    rw [hres]
    exact restoreVmas_skips hc hm hS (ha hcfg) hres
  · exact .refl hc

/-- `restore_brk` skips the addresses that are not between the breaks. -/
theorem restoreBrk_skips (hc : c.reg.Coherent) (hm : c.mem.Mapped)
    (ha : ¬(min brk (c.mem.mm m).brk ≤ a ∧ a < pageAlign (max brk (c.mem.mm m).brk))) :
    c.Skips m id a (c.restoreBrk env m brk).1 := by
  have hset : ∀ c₁ : Core, c.Skips m id a c₁ → c.Skips m id a (c₁.setBrk m brk) := fun c₁ h₁ => h₁.setMem (.setMm rfl rfl)
  have hok := (hm m).1
  have hrange : ∀ {lo hi : Nat}, lo ≤ hi → pageSize ∣ lo → lo + pageAlign (hi - lo) = pageAlign hi := fun hle hd => by
    rw [← pageAlign_add hd, Nat.add_sub_cancel' hle]
  have hgrow : (c.mem.mm m).brk < brk → c.Skips m id a (Core.restoreBrk.growBrk env m brk (c.mem.mm m).brk c).1 := fun hlt => by
    rw [min_eq_right hlt.le, max_eq_left hlt.le] at ha
    have hgrown : c.Skips m id a (c.vmBrk env m (c.mem.mm m).brk (brk - (c.mem.mm m).brk)).1 := by
      unfold Core.vmBrk
      split
      · exact .refl hc
      split
      · exact .refl hc
      rename_i hmod
      have hd : pageSize ∣ (c.mem.mm m).brk := Nat.dvd_of_mod_eq_zero (not_not.mp hmod)
      rw [hrange hlt.le hd]
      have hfirst : ∀ r : Core × Int, r = (if (c.mem.mm m).unmapped (c.mem.mm m).brk (pageAlign brk) then (c, (0 : Int))
          else c.doMunmap env m (c.mem.mm m).brk (pageAlign (brk - (c.mem.mm m).brk))) →
          c.Skips m id a r.1 ∧ VmasOk (r.1.mem.mm m).freshVma (r.1.mem.mm m).mmap := by
        rintro r rfl
        split
        · exact ⟨.refl hc, hok⟩
        · have hsteady : c.Steady env (c.doMunmap env m (c.mem.mm m).brk (pageAlign (brk - (c.mem.mm m).brk))).1 := steady_doMunmap hc
          refine ⟨(Core.Skips.refl hc).doMunmap hok ?_ fun _ => ?_, (hsteady.mapped hm m).1⟩
          · rwa [hrange hlt.le hd]
          · rwa [pageAlign_of_dvd (pageAlign_dvd _), hrange hlt.le hd]
      dsimp only
      generalize hr : (if (c.mem.mm m).unmapped (c.mem.mm m).brk (pageAlign brk) then (c, (0 : Int))
        else c.doMunmap env m (c.mem.mm m).brk (pageAlign (brk - (c.mem.mm m).brk))) = r
      obtain ⟨hskips, hok'⟩ := hfirst r hr.symm
      split
      · exact hskips.setMem (leavesAt_mapAnon hok' _ ha)
      · exact hskips
    unfold Core.restoreBrk.growBrk
    dsimp only
    split
    · exact hgrown
    · exact hset _ hgrown
  unfold Core.restoreBrk
  dsimp only
  split
  · exact hset _ (.refl hc)
  split
  · rename_i hle
    rw [min_eq_left hle, max_eq_right hle] at ha
    have hpage := le_pageAlign (c.mem.mm m).brk
    have hun : c.Skips m id a (c.doMunmap env m brk ((c.mem.mm m).brk - brk)).1 :=
      (Core.Skips.refl hc).doMunmap hok (fun hin => ha ⟨hin.1, by omega⟩) fun hd => by rwa [hrange hle hd]
    split
    · exact hun
    · exact hset _ hun
  rename_i hlt
  split
  · split
    · exact .refl hc
    · exact hgrow (Nat.lt_of_not_le hlt)
  · exact hgrow (Nat.lt_of_not_le hlt)

/-- A fault changes the entry of its page. -/
theorem Fault.leavesAt {v : VmArea} (h : Fault env m page c v c') (ha : a ≠ page) : c.mem.LeavesAt m a c'.mem := by
  have hslot : c.mem.LeavesAt m a (c.mem.setMm m ((c.mem.mm m).populate page)) := .setMm rfl rfl
  cases h with
  | ready => exact .refl m a c.mem
  | mkwrite hpte hplace hrec hmem =>
    rw [hmem]
    exact .setPte ha
  | copied hpte hv hrec hmem₁ hnoted hmem =>
    rw [hmem]
    refine Memory.LeavesAt.trans ?_ (.setPte ha)
    exact .of_mm rfl
  | mapped hpte hv hmem =>
    rw [hmem]
    exact hslot.trans (.setPte ha)
  | fresh hpte hv hnoted hmem =>
    rw [hmem]
    refine (hslot.trans ?_).trans (.setPte ha)
    exact .of_mm rfl

variable (env m id) in
/-- A round of the loop over the dirty list changes the entry of its page. -/
theorem recoverEntry_leavesAt (hc : c.reg.Coherent) (ha : a ≠ page) :
    c.mem.LeavesAt m a (c.recoverEntry env m id page).mem := by
  cases hsp : (c.reg.data id).getSnapshotPage page with
  | none =>
    unfold Core.recoverEntry
    rw [hsp]
    exact .refl m a c.mem
  | some sp =>
    have hpage : c.mem.LeavesAt m a (c.recoverPage env m id sp).mem := by
      have hcopied : c.mem.LeavesAt m a (c.copyToUser env m page (sp.pageData.getD fun _ => 0)).1.mem := by
        rcases copyToUser_cases hc (sp.pageData.getD fun _ => 0) with ⟨-, heq⟩ | ⟨-, v, c₁, f, hdone⟩
        · rw [heq]
          exact .refl m a c.mem
        · rw [hdone.stored]
          exact (hdone.cases.leavesAt ha).trans (.of_mm rfl)
      rcases recoverPage_cases env id (getSnapshotPage_key hsp) rfl with ⟨-, hset⟩ | ⟨-, hset⟩ <;>
        exact hcopied.trans (hset.mem ▸ .setPte ha)
    unfold Core.recoverEntry
    rw [hsp]
    dsimp only
    split
    · exact hpage
    split
    · exact .refl m a c.mem
    split
    · show c.mem.LeavesAt m a (c.zapPage m page).mem
      unfold Core.zapPage
      split
      · exact .setPte ha
      · exact .refl m a c.mem
    · exact .refl m a c.mem

theorem recoverEntries_leavesAt {l : List Nat} (hc : c.reg.Coherent) (ha : a ∉ l) :
    c.mem.LeavesAt m a (l.foldl (Core.recoverEntry env m id) c).mem := by
  induction l generalizing c with
  | nil => exact .refl m a c.mem
  | cons page l ih =>
    rw [List.mem_cons, not_or] at ha
    exact (recoverEntry_leavesAt env m id hc ha.1).trans (ih (steady_recoverEntry env m page id hc).coherent ha.2)

end

/-! ### A restore -/

/-- A restore of the record has nothing to do at the address: it is not between the breaks, it is mapped if and only if the
    snapshot has a VMA there, and its page is not in the dirty list. -/
structure Core.AtRest (m id a : Nat) (c : Core) : Prop where
  brk : ¬(min (c.reg.data id).ss.oldbrk (c.mem.mm m).brk ≤ a ∧ a < pageAlign (max (c.reg.data id).ss.oldbrk (c.mem.mm m).brk))
  agrees : hasFlag (c.reg.data id).config aflSnapshotMmap = true →
    (Covers (c.mem.mm m).mmap a ↔ Covers (c.reg.data id).ss.allVmas a)
  clean : a ∉ (c.reg.data id).ss.dirtyPages

section
variable {env : Env} {t m id a : Nat} {c : Core} {w w₀ : World} {allow : World → Deed → Prop}

theorem recoverMemorySnapshot_leavesAt (hc : c.reg.Coherent) (hm : c.mem.Mapped)
    (hS : SnapshotVmasOk (c.reg.data id).ss.allVmas) (hagrees : hasFlag (c.reg.data id).config aflSnapshotMmap = true →
      (Covers (c.mem.mm m).mmap a ↔ Covers (c.reg.data id).ss.allVmas a)) (hclean : a ∉ (c.reg.data id).ss.dirtyPages) :
    c.mem.LeavesAt m a (c.recoverMemorySnapshot env m id).1.mem := by
  have hswept := sweptVmas_skips env hc hm hS hagrees
  rw [recoverMemorySnapshot_eq]
  split
  · exact hswept.leaves.trans (recoverEntries_leavesAt hswept.coherent fun hin => hclean (hswept.queued hin))
  · exact hswept.leaves

/-- In every run, a restore changes how an address is mapped and the page-table entry of its page only between the breaks, where
    the mappings differ from the snapshot's, and for the pages of the dirty list, whatever of its calls fails; it changes nothing
    in any other address space. -/
theorem restore_spares (h : Run World.happen allow w₀ w) (h₀ : w₀.Kept) (hrest : w.core.AtRest (w.task t).mm id a) :
    w.core.mem.LeavesAt (w.task t).mm a (w.restoreSnapshot env t id).core.mem := by
  have hkept : w.Kept := h.invariant h₀ fun _ a hw _ => hw.happen a
  obtain ⟨hcore, hmm⟩ := recoverState_core env id (recoverThreads_same w t) t
  have hbrk : w.core.Skips (w.task t).mm id a (w.core.restoreBrk env (w.task t).mm (w.core.reg.data id).ss.oldbrk).1 :=
    restoreBrk_skips hkept.coherent hkept.mapped hrest.brk
  have hsteady : w.core.Steady env (w.core.restoreBrk env (w.task t).mm (w.core.reg.data id).ss.oldbrk).1 :=
    steady_restoreBrk hkept.coherent (hkept.records id).oldbrk
  have hdata := hsteady.data id
  generalize (w.core.restoreBrk env (w.task t).mm (w.core.reg.data id).ss.oldbrk).1 = c₁ at hcore hbrk hsteady hdata
  have hfiles : (w.restoreSnapshot env t id).core = (c₁.recoverMemorySnapshot env (w.task t).mm id).1 := by
    obtain ⟨-, hsame⟩ := beforeFiles_spec env t id hkept
    have hrec := recoverFiles_recovered env t id (w := w.beforeFiles env t id) fun u => by
      rw [hsame.files, hsame.fs]
      exact hkept.tables u
    rw [restoreSnapshot_eq, hrec.core]
    show (((w.recoverThreadsSnapshot t).recoverState env t id).core.recoverMemorySnapshot env _ id).1 = _
    rw [hcore, hmm]
  rw [hfiles]
  have hcfg : (c₁.reg.data id).config = (w.core.reg.data id).config := by rw [hdata]
  have hall : (c₁.reg.data id).ss.allVmas = (w.core.reg.data id).ss.allVmas := by rw [hdata]
  refine hbrk.leaves.trans (recoverMemorySnapshot_leavesAt hsteady.coherent (hsteady.mapped hkept.mapped) ?_ ?_ ?_)
  · rw [hall]
    exact (hkept.records id).allVmas
  · rw [hcfg, hall, hbrk.leaves.covers]
    exact hrest.agrees
  · exact fun hin => hrest.clean (hbrk.queued hin)

end

/-- The heap with a snapshot, its first page written since. -/
def firstWritten : World :=
  ((World.boot heapMm [1]).happen (.move .calm 1 (.ioctl (.take aflSnapshotMmap)))).happen (.move .calm 1 (.write 4096 7))

/-- A restore that can allocate nothing leaves the second page alone. -/
theorem restore_spares_second : 4096 ∈ (firstWritten.core.reg.data 0).ss.dirtyPages ∧
    firstWritten.core.mem.LeavesAt 0 8192 (firstWritten.restoreSnapshot .starved 1 0).core.mem := by
  have hcovers : Covers (firstWritten.core.mem.mm 0).mmap 8192 ↔ Covers (firstWritten.core.reg.data 0).ss.allVmas 8192 :=
    iff_of_true (covers_of_vmaAt (v := heapVma) (by decide)) ⟨TaskData.snapshotVmaOf heapVma 0, by decide, by decide, by decide⟩
  have hrun : Run World.happen (fun _ _ => True) (World.boot heapMm [1]) firstWritten := .step (.step .start trivial) trivial
  exact ⟨by decide, restore_spares hrun (heapMm_kept [1]) ⟨by decide, fun _ => hcovers, by decide⟩⟩

end AflSnapshot
