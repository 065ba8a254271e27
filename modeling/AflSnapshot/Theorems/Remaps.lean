import AflSnapshot.Theorems.Cycles
import AflSnapshot.Theorems.Steady

/-! # Private anonymous memory that is unmapped

With `AFL_SNAPSHOT_MMAP` a restore maps again what `munmap` and `brk` took away, and the selected pages there read as
at the take. -/

namespace AflSnapshot
open Runs

section
variable {h : Home} {c : Core} {env : Env} {m start len : Nat} {t id : Nat} {s : Session} {a : Move}
  {w w₀ w₁ : World}

/-- The pages that the hook saves are those that go. -/
theorem DirtyWritable.doMunmap (hw : DirtyWritable h c) (hR : Restorable h c) (hlen : 0 < len)
    (hmem : (c.doMunmap env h.m start len).1.mem =
      c.mem.setMm h.m ((c.mem.mm h.m).unmap start (start + pageAlign len))) :
    DirtyWritable h (c.doMunmap env h.m start len).1 := by
  obtain ⟨ht, -, -⟩ := doMunmapHook_spec env h.m start len hR.coherent
  rw [hR.live] at ht
  have hle := le_pageAlign len
  intro p sp v hsp hdirty hv
  rw [doMunmap_reg, (ht.data h.id rfl).entry] at hsp
  rw [hmem, mm_setMm_self] at hv
  obtain ⟨-, hout⟩ := (covers_unmapVmas (by omega)).mp (covers_of_vmaAt hv)
  obtain ⟨v', hv', -, hflags⟩ := find_unmapVmas (hR.sane.mms h.m).vmas hv
  have hnot : p ∉ walkPageRange (c.mem.mm h.m) start (start + len) := fun hin => by
    obtain ⟨h1, h2, -⟩ := mem_walkPageRange hin
    exact hout ⟨h1, by omega⟩
  rw [if_neg hnot] at hsp
  rw [VmArea.writable, hflags]
  exact hw p sp v' hsp hdirty hv'

theorem DirtyWritable.brkShrink (hw : DirtyWritable h c) (hR : Restorable h c) (henv : env.Ok) {b : Nat}
    (hb : pageSize ∣ b) (hcur : pageSize ∣ (c.mem.mm h.m).brk)
    (hspare : ∀ a, b ≤ a → a < (c.mem.mm h.m).brk → h.Spare a) : DirtyWritable h (c.brkShrink env h.m b) := by
  unfold Core.brkShrink
  dsimp only
  split
  swap
  · exact hw
  rename_i hle
  rw [pageAlign_of_dvd hb, pageAlign_of_dvd hcur]
  split
  · exact hw.setBrk
  · rename_i hne
    have hlen : pageAlign ((c.mem.mm h.m).brk - b) = (c.mem.mm h.m).brk - b := pageAlign_of_dvd (Nat.dvd_sub hcur hb)
    have hpos : 0 < (c.mem.mm h.m).brk - b := by omega
    obtain ⟨-, hres, hmem⟩ := hR.doMunmap henv hb hpos fun a h1 h2 _ => hspare a h1 (by rw [hlen] at h2; omega)
    rw [if_pos hres]
    exact (hw.doMunmap hR hpos hmem).setBrk

/-! ### Moves -/

/-- Memory that a restore can map again: private and anonymous at the take, which asked for it. -/
def Remappable (t : Nat) (w₀ w₁ : World) (a : Nat) : Prop :=
  (∃ d, w₁.recordOf t = some d ∧ hasFlag d.config aflSnapshotMmap = true) ∧
    ∃ v, (w₀.mmOf t).vmaAt a = some v ∧ v.file = none ∧ v.shared = false

/-- The task unmaps such memory; both breaks are page-aligned. -/
inductive Unmaps (t : Nat) (s : Session) : Move → Prop
  | munmap {env : Env} {start len : Nat} {w₀ w₁ : World} (htaken : s.taken = some (w₀, w₁)) (henv : env.Ok)
      (hstart : pageSize ∣ start) (hlen : 0 < len)
      (hspare : ∀ a, start ≤ a → a < start + pageAlign len → Spans.Covers (w₀.mmOf t).mmap a → Remappable t w₀ w₁ a) :
      Unmaps t s ⟨env, t, .munmap start len⟩
  | brk {env : Env} {b : Nat} {w₀ w₁ : World} (htaken : s.taken = some (w₀, w₁)) (henv : env.Ok) (hb : pageSize ∣ b)
      (hcur : pageSize ∣ (s.w.mmOf t).brk) {d : TaskData} (hd : w₁.recordOf t = some d) (hold : pageSize ∣ d.ss.oldbrk)
      (hspare : ∀ a, b ≤ a → a < (s.w.mmOf t).brk → Remappable t w₀ w₁ a) : Unmaps t s ⟨env, t, .brk b⟩

theorem Live.spare (hl : Live t w₀ w₁ w id) {a : Nat} (h : Remappable t w₀ w₁ a) : (w₀.homeAt w₁ t id).Spare a := by
  obtain ⟨⟨d, hd, hcfg⟩, hv⟩ := h
  obtain rfl := hl.recordOf_eq hd
  exact ⟨hcfg, hv⟩

theorem Tracked.unmaps (h : Tracked DirtyWritable t s) (ha : Unmaps t s a) : Tracked DirtyWritable t (s.step t a) := by
  cases ha with
  | @munmap env start len w₀ w₁ htaken henv hstart hlen hspare =>
    obtain ⟨id, hl, hw⟩ := (tracked_live htaken).mp h
    have hmm : (s.w.task t).mm = (w₀.homeAt w₁ t id).m := hl.mm t
    obtain ⟨hR, -, hmem⟩ := hl.restorable.doMunmap henv hstart hlen fun a h1 h2 hc => hl.spare (hspare a h1 h2 hc)
    have hstep : s.w.step env t (.munmap start len) =
        s.w.mapCore fun c => (c.doMunmap env (w₀.homeAt w₁ t id).m start len).1 := by
      show s.w.mapCore (fun c => (c.doMunmap env (s.w.task t).mm start len).1) = _
      rw [hmm]
    refine (tracked_live htaken).mpr ⟨id, ?_⟩
    rw [hstep]
    exact ⟨hl.mapCore hR, hw.doMunmap hl.restorable hlen hmem⟩
  | @brk env b w₀ w₁ htaken henv hb hcur d hd hold hspare =>
    obtain ⟨id, hl, hw⟩ := (tracked_live htaken).mp h
    have hmm : (s.w.task t).mm = (w₀.homeAt w₁ t id).m := hl.mm t
    have hmmOf : s.w.mmOf t = s.w.core.mem.mm (w₀.homeAt w₁ t id).m := congrArg s.w.core.mem.mm hmm
    have hspare : ∀ a, b ≤ a → a < (s.w.core.mem.mm (w₀.homeAt w₁ t id).m).brk → (w₀.homeAt w₁ t id).Spare a := by
      rw [← hmmOf]
      exact fun a h1 h2 => hl.spare (hspare a h1 h2)
    have hcur : pageSize ∣ (s.w.core.mem.mm (w₀.homeAt w₁ t id).m).brk := hmmOf ▸ hcur
    have hstep : s.w.step env t (.brk b) = s.w.mapCore (·.brkShrink env (w₀.homeAt w₁ t id).m b) := by
      show s.w.mapCore (·.brkShrink env (s.w.task t).mm b) = _
      rw [hmm]
    obtain rfl := hl.recordOf_eq hd
    refine (tracked_live htaken).mpr ⟨id, ?_⟩
    rw [hstep]
    exact ⟨hl.mapCore (hl.restorable.brkShrink henv hb hcur hold hspare),
      hw.brkShrink hl.restorable henv hb hcur hspare⟩

/-! ### Sessions -/

/-- The steps of a process that may unmap what a restore can map again. -/
def Remaps (t : Nat) (s : Session) (a : Move) : Prop :=
  Accesses t s a ∨ Commands t s a ∨ Unmaps t s a ∨ Restores t s a ∧ a.env.Ok

theorem tracked_of_remaps (h : Run (Session.step t) (Remaps t) ⟨w, none⟩ s) (hidle : Idle t w) :
    Tracked DirtyWritable t s := by
  refine h.invariant ((tracked_idle rfl).mpr hidle) fun s a h ha => ?_
  rcases ha with ha | ha | ha | ⟨ha, henv⟩
  · exact h.accesses accessStable_dirtyWritable ha
  · exact h.commands (fun _ _ hw _ => hw) ha
  · exact h.unmaps ha
  · exact h.restores (fun _ _ _ _ hP => ⟨hP, Or.inr henv⟩) (fun _ _ hok _ hres _ => hres.dirtyWritable hok) ha

/-- In every session of such steps a restore maps every selected page again, with the bytes that it held when the last
    take began. -/
theorem restore_maps_back (h : Run (Session.step t) (Remaps t) ⟨w, none⟩ s) (hidle : Idle t w)
    (htaken : s.taken = some (w₀, w₁)) (henv : env.Ok) (hreuse : env.ReuseSound) {d : TaskData}
    (hd : w₁.recordOf t = some d) {page : Nat} (hsel : Selects d (w₀.mmOf t) page) :
    Spans.Covers ((s.w.step env t (.ioctl .restore)).mmOf t).mmap page ∧
      (s.w.step env t (.ioctl .restore)).pageOf t page = w₀.pageOf t page := by
  obtain ⟨id, hl, hw⟩ := (tracked_live htaken).mp (tracked_of_remaps h hidle)
  exact (hl.restore hw henv.toAllocates (Or.inr henv) hreuse).pageOf hd hsel

/-- A page is written before the take, and unmapped after it. -/
def writtenUnmapped : Session :=
  ((Session.step 1 ⟨.boot heapMm [1], none⟩ ⟨.calm, 1, .write 4096 7⟩).step 1
    ⟨.calm, 1, .ioctl (.take aflSnapshotMmap)⟩).step 1 ⟨.calm, 1, .munmap 4096 4096⟩

theorem writtenUnmapped_run : Run (Session.step 1) (Remaps 1) ⟨.boot heapMm [1], none⟩ writtenUnmapped := by
  refine .step (.step (.step .start (Or.inl (.write rfl (fun v hv => ?_) calm_ok.toAllocates calm_reuseSound)))
    (Or.inr (Or.inl (.take calm_ok.toAllocates)))) (Or.inr (Or.inr (Or.inl (.munmap rfl calm_ok (by decide) (by decide)
      fun a h1 h2 _ => ⟨⟨_, rfl, by decide⟩, heapVma, heapMm_vmaAt h1 (lt_trans h2 (by decide)), rfl, rfl⟩))))
  obtain rfl := Option.some.inj ((heapMm_vmaAt (by decide) (by decide)).symm.trans hv)
  rfl

theorem restore_maps_back_written :
    Spans.Covers ((writtenUnmapped.w.step .calm 1 (.ioctl .restore)).mmOf 1).mmap 4096 ∧
      (writtenUnmapped.w.step .calm 1 (.ioctl .restore)).pageOf 1 4096 =
        ((World.boot heapMm [1]).step .calm 1 (.write 4096 7)).pageOf 1 4096 :=
  restore_maps_back writtenUnmapped_run (heapMm_idle [1]) rfl calm_ok calm_reuseSound rfl (Or.inl (by decide))

end
end AflSnapshot
