import AflSnapshot.Theorems.Checkpoint
import AflSnapshot.Theorems.PrivateWrites

/-! # Several processes at once

The processes have a session each and take their steps in any order. A step stays in the frames of its process and in its
record (`Core.Within`), so that every process sees a checkpoint machine of its own. -/

namespace AflSnapshot
open Runs

/-- An anonymous frame that no other address space maps. -/
structure Memory.Own (mem : Memory) (m f : Nat) : Prop where
  anon : (mem.frame f).anon = true
  only : ∀ m' p w, (mem.mm m').pte p = .present f w → m' = m

/-- A step of the process of one address space that changes no other frames than its own. -/
structure Core.Within (m : Nat) (c c' : Core) : Prop extends Core.Local m c c' where
  pageCache : c'.mem.pageCache = c.mem.pageCache
  frame : ∀ f, f < c.mem.freshPfn → ¬c.mem.Own m f → c'.mem.frame f = c.mem.frame f
  live : ∀ u, u ≠ (c.mem.mm m).owner → c'.reg.live u = c.reg.live u

/-- A step of the process `t`. -/
structure World.Within (t : Nat) (w w' : World) : Prop where
  core : w.core.Within (w.task t).mm w'.core
  mm : ∀ u, (w'.task u).mm = (w.task u).mm

/-- Processes with their sessions. -/
structure Crowd where
  w : World
  taken : Nat → Option (World × World)

/-- A process, and a move in its session. -/
structure Turn where
  process : Nat
  move : Move

namespace Crowd
variable (s : Crowd)

def session (t : Nat) : Session := ⟨s.w, s.taken t⟩

/-- The session of one process goes on. -/
def step (a : Turn) : Crowd :=
  let next := (s.session a.process).step a.process a.move
  ⟨next.w, Function.update s.taken a.process next.taken⟩

/-- The steps of the processes of `T`. -/
def Fuzzes (T : Nat → Prop) (a : Turn) : Prop := T a.process ∧ AflSnapshot.Fuzzes a.process (s.session a.process) a.move

/-- What each process sees. -/
def checkpoints (t : Nat) : Checkpoint := (s.session t).checkpoint t

end Crowd

section
variable {env : Env} {m m' id page q p f t : Nat} {c c₁ c' : Core} {h : Home} {sp : SnapshotPage} {x : Pte}
  {g : SnapshotPage → SnapshotPage}

/-! ### Steps within an address space -/

namespace Core.Within

theorem refl (m : Nat) (c : Core) : c.Within m c := ⟨.refl m c, rfl, fun _ _ _ => rfl, fun _ _ => rfl⟩

theorem trans (h₁ : c.Within m c₁) (h₂ : c₁.Within m c') : c.Within m c' where
  toLocal := h₁.toLocal.trans h₂.toLocal
  pageCache := h₂.pageCache.trans h₁.pageCache
  frame f hf hown := by
    have hfirst := h₁.frame f hf hown
    refine (h₂.frame f (lt_of_lt_of_le hf h₁.freshPfn) fun hown₁ => hown ⟨?_, fun m' p w hp => ?_⟩).trans hfirst
    · rw [← hfirst]
      exact hown₁.anon
    · by_contra hne
      rw [← h₁.mm m' hne] at hp
      exact hne (hown₁.only m' p w hp)
  live u hu := (h₂.live u (h₁.owner.symm ▸ hu)).trans (h₁.live u hu)

/-- The frames that another process can see. -/
theorem seen (h : c.Within m c') (hs : c.mem.Sane) (hne : m' ≠ m) :
    (∀ p f w, (c.mem.mm m').pte p = .present f w → (c'.mem.frame f).data = (c.mem.frame f).data) ∧
    ∀ f, f < c.mem.freshPfn → (c.mem.frame f).anon = false → (c'.mem.frame f).data = (c.mem.frame f).data := by
  refine ⟨fun p f w hp => congrArg Frame.data (h.frame f (hs.pfn m' p f w hp) fun hown => hne (hown.only m' p w hp)),
    fun f hf hfile => congrArg Frame.data (h.frame f hf fun hown => ?_)⟩
  have hanon := hown.anon
  rw [hfile] at hanon
  cases hanon

theorem content (h : c.Within m c') (hs : c.mem.Sane) (hne : m' ≠ m) : c'.mem.content m' p = c.mem.content m' p := by
  obtain ⟨hpte, hfile⟩ := h.seen hs hne
  exact content_congr (h.mm m' hne) h.pageCache (hpte p) (hfile _ hs.zero.1 hs.zero.2) fun o q =>
    hfile _ (hs.cache o q).1 (hs.cache o q).2

end Core.Within

theorem Memory.Faulted.within (hF : c.mem.Faulted m page c'.mem)
    (ht : c.reg.Touched (c.reg.live (c.mem.mm m).owner) (OnlyPage page) c'.reg) : c.Within m c' :=
  ⟨(hF.onPage ht).toLocal, hF.pageCache, fun f hf _ => hF.frame f hf, fun u _ => ht.live u⟩

/-- Bytes are stored in a frame that the page has for itself. -/
theorem Memory.Exclusive.within_store (hex : c.mem.Exclusive m page f) (hpte : (c.mem.mm m).pte page = .present f true)
    (data : Page → Page) : c.Within m (c.store m page data) := by
  refine ⟨(onPage_store m page data c).toLocal, ?_, fun q _ hown => ?_, fun u _ => ?_⟩ <;> rw [store_eq hpte]
  · rfl
  · refine setFrame_of_ne fun heq => hown ?_
    subst heq
    exact ⟨hex.anon, fun m' p w hp => (hex.only m' p w hp).1⟩
  · rfl

/-- The fault of a write to a private page, and the bytes. -/
theorem within_write (hs : c.mem.Sane) (hc : c.reg.Coherent) (hreuse : env.ReuseSound)
    (harmed : ∀ v, (c.mem.mm m).vmaAt page = some v → v.shared = false → c.Armed m page) (hd : pageSize ∣ page)
    (hpriv : ∀ v, (c.mem.mm m).vmaAt page = some v → v.shared = false) (hf : c.writeFault env m page = some c')
    (data : Page → Page) : c.Within m (c'.store m page data) := by
  obtain ⟨v, hv, -, hcase⟩ := writeFault_cases hc hreuse harmed hf
  have hF := hcase.faulted hs
  obtain ⟨f, hpte⟩ := hcase.writable
  have hex : c'.mem.Exclusive m page f := (hcase.sane hs hd hv).excl m page f v hpte (hF.vmaAt ▸ hv) (hpriv v hv)
  exact (hF.within (writeFault_touched hc hf)).trans (hex.within_store hpte data)

theorem within_readByte {addr : Nat} (hs : c.mem.Sane) (hc : c.reg.Coherent) : c.Within m (c.readByte env m addr) := by
  unfold Core.readByte
  cases hf : c.readFault env m (pageBase addr) with
  | none => exact .refl m c
  | some c' =>
    obtain ⟨v, -, -, hcase⟩ := readFault_cases hf
    rw [Option.getD_some]
    refine (hcase.faulted hs).within ?_
    rw [hcase.reg]
    exact .refl hc _ (.refl _)

theorem within_writeByte {addr : Nat} (byte : UInt8) (hs : c.mem.Sane) (hc : c.reg.Coherent) (hreuse : env.ReuseSound)
    (harmed : ∀ v, (c.mem.mm m).vmaAt (pageBase addr) = some v → v.shared = false → c.Armed m (pageBase addr))
    (hpriv : ∀ v, (c.mem.mm m).vmaAt (pageBase addr) = some v → v.shared = false) :
    c.Within m (c.writeByte env m addr byte) := by
  unfold Core.writeByte
  cases hf : c.writeFault env m (pageBase addr) with
  | none => exact .refl m c
  | some c' => exact within_write hs hc hreuse harmed (pageBase_dvd addr) hpriv hf _

/-- Only the registry changes, and there the record of the owner. -/
theorem within_reg (hmem : c'.mem = c.mem) (hlive : ∀ u, u ≠ (c.mem.mm m).owner → c'.reg.live u = c.reg.live u)
    (hdata : ∀ u id, u ≠ (c.mem.mm m).owner → c.reg.live u = some id → c'.reg.data id = c.reg.data id) : c.Within m c' := by
  refine ⟨⟨?_, ?_, ?_, ?_, fun u id hu hl => ?_, ?_⟩, ?_, ?_, hlive⟩
  case refine_5 =>
    rw [hlive u hu] at hl
    exact ⟨hl, hdata u id hu hl⟩
  all_goals rw [hmem]
  · exact fun _ _ => rfl
  · exact fun _ _ _ _ hex => hex
  · exact fun _ _ _ => rfl

/-! ### Restores -/

theorem Core.Settles.within (h : c.Settles m id page x g c') (htsk : (c.reg.data id).tsk = (c.mem.mm m).owner)
    (hx : ∀ f w, x = .present f w → ∃ w', (c.mem.mm m).pte page = .present f w' ∧ (w = true → w' = true)) : c.Within m c' := by
  refine ⟨(h.onPage htsk hx).toLocal, by rw [h.mem]; rfl, fun f _ _ => by rw [h.frame], fun u _ => ?_⟩
  obtain ⟨d', hreg, hsame, -⟩ := h.data
  rw [hreg]
  exact (setData_live (by rw [hsame]) (by rw [hsame]; rfl)).2 u

theorem Restorable.sel_of_dirty (hR : Restorable h c) (hsp : (c.reg.data h.id).getSnapshotPage page = some sp)
    (hdirty : sp.dirty = true) : h.sel page := by
  by_contra hsel
  rw [(hR.loose page sp hsel hsp).2] at hdirty
  cases hdirty

/-- A page that is dirty is mapped privately. -/
theorem Restorable.private_of_dirty (hok : h.Ok) (hR : Restorable h c) (hsp : (c.reg.data h.id).getSnapshotPage page = some sp)
    (hdirty : sp.dirty = true) {v : VmArea} (hv : (c.mem.mm h.m).vmaAt page = some v) : v.shared = false := by
  have hsel := hR.sel_of_dirty hsp hdirty
  obtain ⟨v₀, hv₀⟩ := (hok.sel page hsel).2.2
  rw [(hR.vma hv hv₀).2]
  by_contra hs
  rw [(((hR.pages page v₀ hsel hv₀).quiet (by simpa using hs)).entry sp hsp).1] at hdirty
  cases hdirty

theorem Restorable.within_recoverPage (hok : h.Ok) (hR : Restorable h c) (hreuse : env.ReuseSound)
    (hsp : (c.reg.data h.id).getSnapshotPage page = some sp) (hdirty : sp.dirty = true) :
    c.Within h.m (c.recoverPage env h.m h.id sp) := by
  have hd : pageSize ∣ page := (hok.sel page (hR.sel_of_dirty hsp hdirty)).1
  have hsteady := steady_copyToUser env h.m page (sp.pageData.getD fun _ => 0) hR.coherent
  have hcopy : c.Within h.m (c.copyToUser env h.m page (sp.pageData.getD fun _ => 0)).1 := by
    rcases copyToUser_cases hR.coherent (sp.pageData.getD fun _ => 0) with ⟨-, heq⟩ | ⟨-, v, c₁, f, hdone⟩
    · rw [heq]
      exact .refl h.m c
    · rw [hdone.stored, ← store_eq (g := fun _ => sp.pageData.getD fun _ => 0) hdone.pte]
      exact within_write hR.sane hR.coherent hreuse (fun v hv hs => hR.armed hv hs) hd
        (fun v hv => hR.private_of_dirty hok hsp hdirty hv) hdone.fault _
  have htsk : ((c.copyToUser env h.m page (sp.pageData.getD fun _ => 0)).1.reg.data h.id).tsk =
      ((c.copyToUser env h.m page (sp.pageData.getD fun _ => 0)).1.mem.mm h.m).owner := tsk_of_live (by
    rw [hcopy.owner, hsteady.live]
    exact hR.live)
  rcases recoverPage_cases env h.id (getSnapshotPage_key hsp) rfl with ⟨-, hset⟩ | ⟨-, hset⟩
  · exact hcopy.trans (hset.within htsk (wrprotect_weakens _))
  · exact hcopy.trans (hset.within htsk fun f w hf => ⟨w, hf, fun h => h⟩)

theorem Restorable.within_recoverEntry (hok : h.Ok) (hR : Restorable h c) (hreuse : env.ReuseSound) (page : Nat) :
    c.Within h.m (c.recoverEntry env h.m h.id page) := by
  cases hsp : (c.reg.data h.id).getSnapshotPage page with
  | none =>
    unfold Core.recoverEntry
    rw [hsp]
    exact .refl h.m c
  | some sp =>
    have htsk := tsk_of_live hR.live
    rcases recoverEntry_cases env (hR.sane.mms h.m) hsp with ⟨hdirty, -, heq⟩ | ⟨-, hset | ⟨-, -, -, hset⟩⟩
    · rw [heq]
      exact hR.within_recoverPage hok hreuse hsp hdirty
    · exact hset.within htsk fun f w hf => ⟨w, hf, fun h => h⟩
    · exact hset.within htsk fun f w hf => by cases hf

/-- The loop of a restore. -/
theorem Restorable.within_recoverPages (hok : h.Ok) (hR : Restorable h c) (henv : env.Allocates) (hreuse : env.ReuseSound)
    (hwb : WriteBack h c) : c.Within h.m (c.recoverPages env h.m h.id) :=
  hR.recoverEntries_keeps hok henv hreuse hwb (P := fun c₁ => c.Within h.m c₁) (.refl h.m c)
    (fun q _ hR₁ _ _ h₁ => h₁.trans (hR₁.within_recoverEntry hok hreuse q)) _ rfl

/-! ### Sessions -/

variable {P : Home → Core → Prop} {s : Session} {a : Move} {w w' w₀ w₁ : World} {config u : Nat} {d₀ : TaskData}

theorem Took.within (hT : Took env t config w id d₀ w') (hs : w.core.mem.Sane) (henv : env.Allocates)
    (howner : (w.mmOf t).owner = t) : w.core.Within (w.task t).mm w'.core := by
  obtain ⟨x, st, hwalk, htaking⟩ := hT.taken hs henv
  have hr : w.core.mem.Restricts (w.core.mem.setMm (w.task t).mm st.mm) := hwalk.restricts
  have hmem : w'.core.mem = w.core.mem.setMm (w.task t).mm st.mm := by rw [hT.mem, htaking]
  have howner : (w.core.mem.mm (w.task t).mm).owner = t := howner
  refine ⟨⟨?_, ?_, ?_, fun m' hm' => ?_, fun u i hu hi => ?_, fun _ _ _ hf hex => ?_⟩, ?_, fun f _ _ => ?_, fun u hu => ?_⟩
  case refine_5 =>
    rw [howner] at hu
    rw [hT.others u hu] at hi
    refine ⟨hi, hT.records i fun heq => hu ?_⟩
    -- The record of the take is that of its task.
    have hi' := (getTaskData_spec (live_eq_some.mp ((hT.others u hu).trans hi)).1).2
    rw [heq] at hi'
    exact hi'.symm.trans (getTaskData_spec (live_eq_some.mp hT.live).1).2
  case refine_9 => exact hT.others u (howner ▸ hu)
  all_goals rw [hmem]
  · exact hr.freshPfn
  · rfl
  · rw [mm_setMm_self, hwalk.tables]
    rfl
  · exact mm_setMm_of_ne hm'
  · exact hex.restrict hf hr
  · rfl
  · rfl

theorem Tracked.owner (h : Tracked P t s) : (s.w.mmOf t).owner = t := by
  cases hs : s.taken with
  | none => exact ((tracked_idle hs).mp h).owner
  | some taken =>
    obtain ⟨w₀, w₁⟩ := taken
    obtain ⟨id, hl, -⟩ := (tracked_live hs).mp h
    exact hl.owner.1

theorem World.Within.refl (t : Nat) (w : World) : World.Within t w w := ⟨.refl _ _, fun _ => rfl⟩

/-- `exclude_vmrange` and `include_vmrange`. -/
theorem within_ranges (hc : w.core.reg.Coherent) (howner : (w.mmOf t).owner = t) (ranges : RangeLists → RangeLists) :
    World.Within t w (if env.copyFromUser then (w.addVmrange env t ranges, (0 : Int)) else (w, -22)).1 := by
  have howner : (w.core.mem.mm (w.task t).mm).owner = t := howner
  have hgiven := addVmrange_given env t hc ranges
  split
  · exact ⟨within_reg hgiven.mem (fun u _ => hgiven.live u) fun u id hu hl => (hgiven.data u id hl).2 (howner ▸ hu),
      fun u => by rw [hgiven.task]⟩
  · exact .refl t w

theorem within_cleanSnapshot (hc : w.core.reg.Coherent) (howner : (w.mmOf t).owner = t) : World.Within t w (w.cleanSnapshot t) := by
  have howner : (w.core.mem.mm (w.task t).mm).owner = t := howner
  have hcleaned := cleanSnapshot_cleaned hc t
  refine ⟨within_reg hcleaned.mem (fun u hu => hcleaned.others u (howner ▸ hu)) fun u id hu hl => hcleaned.data id ?_,
    fun u => by rw [hcleaned.task]⟩
  rw [(getTaskData_spec (live_eq_some.mp hl).1).2]
  exact howner ▸ hu

variable (config) in
theorem Tracked.within_take (h : Tracked AtHome t s) (henv : env.Allocates) :
    World.Within t s.w (s.w.takeSnapshot env t config).1 := by
  cases hs : s.taken with
  | none =>
    have hi := (tracked_idle hs).mp h
    obtain ⟨id, d₀, hT, -⟩ := takeSnapshot_took config hi.coherent (hi.sane.mms (s.w.task t).mm).sorted hi.live fun _ =>
      henv.kzallocTaskData
    exact ⟨hT.within hi.sane henv hi.owner, fun u => by rw [hT.task]⟩
  | some taken =>
    obtain ⟨w₀, w₁⟩ := taken
    obtain ⟨id, hl, -⟩ := (tracked_live hs).mp h
    rw [takeSnapshot_live config hl.owner.2]
    exact .refl t s.w

theorem Tracked.within_restore (h : Tracked AtHome t s) (hs : s.taken ≠ none) (henv : env.Allocates) (hreuse : env.ReuseSound) :
    World.Within t s.w (s.w.step env t (.ioctl .restore)) := by
  obtain ⟨⟨w₀, w₁⟩, hs⟩ := Option.ne_none_iff_exists'.mp hs
  obtain ⟨id, hl, hw, hW⟩ := (tracked_live hs).mp h
  refine ⟨?_, fun u => ?_⟩
  · rw [hl.restore_core env hW, hl.mm t]
    exact hl.restorable.within_recoverPages hl.ok henv hreuse (hl.restorable.writeBack hl.ok hw hW)
  · rw [step_restore (live_eq_some.mp hl.owner.2).1]
    exact (restoreSnapshot_core env s.w t id).2 u

/-- A step of a session stays within the process. -/
theorem Checkpointed.within (h : Checkpointed P t w s) (ha : Fuzzes t s a) : World.Within t s.w (s.step t a).w := by
  obtain ⟨hsane, hcoherent, harmed⟩ := h.tracked.sound
  have howner := h.tracked.owner
  cases ha with
  | plain ha =>
    rcases ha with ha | ha | ha
    · cases ha with
      | @read env u addr hu =>
        refine ⟨?_, fun _ => rfl⟩
        show s.w.core.Within _ (s.w.core.readByte env (s.w.task u).mm addr)
        rw [hu]
        exact within_readByte hsane hcoherent
      | @write env u addr byte hu hpriv henv hreuse =>
        refine ⟨?_, fun _ => rfl⟩
        show s.w.core.Within _ (s.w.core.writeByte env (s.w.task u).mm addr byte)
        rw [hu]
        exact within_writeByte byte hsane hcoherent hreuse (harmed _) hpriv
    · cases ha with
      | exclude => exact within_ranges hcoherent howner _
      | include_ => exact within_ranges hcoherent howner _
      | take henv => exact h.tracked.within_take _ henv
      | do_ henv => exact h.tracked.within_take _ henv
      | clean => exact within_cleanSnapshot hcoherent howner
    · cases ha with
      | restore htaken henv hreuse => exact h.tracked.within_restore htaken henv hreuse
  | @exit env hstays henv hreuse =>
    obtain ⟨htaken, heq⟩ := step_exitGroup env h hstays
    rw [heq]
    exact h.tracked.within_restore htaken henv hreuse

/-! ### The other processes -/

theorem Restorable.apart (hR : Restorable h c) (hw : c.Within m c') (hne : h.m ≠ m)
    (howner : (c.mem.mm h.m).owner ≠ (c.mem.mm m).owner) (hs : c'.mem.Sane) (hc : c'.reg.Coherent) :
    Restorable h c' ∧ c'.reg.data h.id = c.reg.data h.id := by
  have hmm : c'.mem.mm h.m = c.mem.mm h.m := hw.mm h.m hne
  have hlive : c'.reg.live (c.mem.mm h.m).owner = some h.id := (hw.live _ howner).trans hR.live
  have hdata : c'.reg.data h.id = c.reg.data h.id := (hw.records _ _ howner hlive).2
  obtain ⟨hpte, hfile⟩ := hw.seen hR.sane hne
  refine ⟨⟨hs, hc, ?_, ?_, ?_, ?_, ?_, ?_, ?_, fun p v₀ hsel hv₀ => ?_, ?_⟩, hdata⟩
  case refine_2 => exact hw.freshMm.symm ▸ hR.used
  case refine_8 =>
    rw [hdata]
    exact (hR.pages p v₀ hsel hv₀).congr hw.pageCache (by rw [hmm])
      (hfile _ (hR.sane.backing_lt v₀ p).1 (hR.sane.backing_lt v₀ p).2) (hpte p)
      fun f w hp hex => hw.exclusive h.m p f (hR.sane.pfn h.m p f w hp) hex
  all_goals first | rw [hmm] | rw [hdata]
  · exact hlive
  · exact hR.same
  · exact hR.queued
  · exact hR.kind
  · exact hR.gone
  · exact hR.brk
  · exact hR.loose

/-- A process is as it was after a step of another one. -/
theorem Checkpointed.apart (h : Checkpointed Inside t w s) (hw : World.Within u s.w w') (howner : (s.w.mmOf u).owner = u)
    (hne : t ≠ u) (hs : w'.core.mem.Sane) (hc : w'.core.reg.Coherent) :
    Checkpointed Inside t w ⟨w', s.taken⟩ ∧ (⟨w', s.taken⟩ : Session).checkpoint t = s.checkpoint t := by
  have hme : (s.w.core.mem.mm (s.w.task t).mm).owner = t := h.tracked.owner
  have howner : (s.w.core.mem.mm (s.w.task u).mm).owner = u := howner
  have hapart : (s.w.task t).mm ≠ (s.w.task u).mm := fun heq => hne (by rw [← hme, heq, howner])
  have hsane := h.tracked.sound.1
  have hmm : w'.core.mem.mm (w'.task t).mm = s.w.core.mem.mm (s.w.task t).mm := by
    rw [hw.mm]
    exact hw.core.mm _ hapart
  have hrest : ∀ w₀ w₁ id, Live t w₀ w₁ s.w id → Live t w₀ w₁ w' id ∧ w'.core.reg.data id = s.w.core.reg.data id := by
    intro w₀ w₁ id hl
    have hm : (s.w.task t).mm = (w₀.homeAt w₁ t id).m := hl.mm t
    obtain ⟨hR, hdata⟩ := hl.restorable.apart hw.core (hm ▸ hapart) (by rw [← hm, hme, howner]; exact hne) hs hc
    exact ⟨⟨fun u => (hw.mm u).trans (hl.mm u), hl.record, hl.ok, hR⟩, hdata⟩
  refine ⟨⟨?_, (hw.mm t).trans h.mm, ?_, fun p => ?_, fun w₀ w₁ id htaken hget => ?_⟩, ?_⟩
  · cases htaken : s.taken with
    | none =>
      have hi := (tracked_idle htaken).mp h.tracked
      refine ⟨hs, hc, ?_, ?_, ?_⟩
      · unfold World.mmOf
        rw [hmm, hme]
      · rw [hw.mm, hw.core.freshMm]
        exact hi.used
      · rw [hw.core.live t (howner.symm ▸ hne)]
        exact hi.live
    | some taken =>
      obtain ⟨w₀, w₁⟩ := taken
      obtain ⟨id, hl, hdirty, hwhole⟩ := (tracked_live htaken).mp h.tracked
      obtain ⟨hl', hdata⟩ := hrest w₀ w₁ id hl
      have hm : w'.core.mem.mm (w₀.homeAt w₁ t id).m = s.w.core.mem.mm (w₀.homeAt w₁ t id).m := by
        have hm₁ : (s.w.task t).mm = (w₀.homeAt w₁ t id).m := hl.mm t
        rw [← hm₁]
        exact hw.core.mm _ hapart
      refine ⟨id, hl', fun p sp v hsp hd hv => ?_, hwhole.congr (by rw [hm]) (by rw [hm])⟩
      rw [hm] at hv
      have hsp : (w'.core.reg.data id).getSnapshotPage p = some sp := hsp
      rw [hdata] at hsp
      exact hdirty p sp v hsp hd hv
  · unfold World.mmOf
    rw [hmm]
    exact h.mmap
  · have hbase : w'.core.mem.base (s.w.task t).mm p = s.w.core.mem.base (s.w.task t).mm p :=
      base_congr (by rw [hw.core.mm _ hapart]) hw.core.pageCache (fun v q => (hw.core.seen hsane hapart).2 _
        (hsane.backing_lt v q).1 (hsane.backing_lt v q).2) p
    unfold World.baseOf
    rw [hw.mm, hbase]
    exact h.base p
  · obtain ⟨i, hl, -⟩ := (tracked_live htaken).mp h.tracked
    obtain rfl : i = id := Option.some.inj (hl.record.symm.trans hget)
    have hinside := h.has w₀ w₁ i htaken hget
    unfold Inside at hinside ⊢
    rw [show w'.core.reg.data (w₀.homeAt w₁ t i).id = _ from (hrest w₀ w₁ i hl).2]
    exact hinside
  · refine checkpoint_eq (funext fun p => ?_) rfl
    unfold World.pageOf
    rw [hw.mm]
    exact hw.core.content hsane hapart

/-! ### Crowds -/

namespace Crowd
variable {T : Nat → Prop} {s : Crowd} {a : Turn}

theorem session_step_self : (s.step a).session a.process = (s.session a.process).step a.process a.move :=
  congrArg (Session.mk _) (Function.update_self ..)

theorem session_step_of_ne (h : t ≠ a.process) : (s.step a).session t = ⟨(s.step a).w, (s.session t).taken⟩ :=
  congrArg (Session.mk _) (Function.update_of_ne h ..)

end Crowd

/-- A process and its child. -/
def heapAndChild : World := (World.boot heapMm [1]).fork 1

theorem heapAndChild_idle : ∀ t, t = 1 ∨ t = 2 → Idle t heapAndChild := by
  have hsane : heapAndChild.core.mem.Sane := (boot_sane [1] heapMm_vmas fun _ => rfl).dupMm Nat.one_pos 2
  rintro t (rfl | rfl)
  · exact ⟨hsane, boot_coherent heapMm [1], rfl, by decide, rfl⟩
  · exact ⟨hsane, boot_coherent heapMm [1], rfl, by decide, rfl⟩

/-- Both write the page, take a snapshot and write the page again. -/
def bothWritten : Crowd :=
  [⟨1, .calm, 1, .write 4096 7⟩, ⟨2, .calm, 2, .write 4096 9⟩, ⟨1, .calm, 1, .ioctl (.take aflSnapshotExit)⟩,
    ⟨2, .calm, 2, .ioctl (.take 0)⟩, ⟨2, .calm, 2, .write 4096 5⟩, (⟨1, .calm, 1, .write 4096 8⟩ : Turn)].foldl Crowd.step
    ⟨heapAndChild, fun _ => none⟩

theorem bothWritten_run : Run Crowd.step (Crowd.Fuzzes · fun t => t = 1 ∨ t = 2) ⟨heapAndChild, fun _ => none⟩ bothWritten := by
  have hwrite : ∀ (s : Crowd) t (byte : UInt8), t = 1 ∨ t = 2 → (s.w.mmOf t).vmaAt 4096 = some heapVma →
      s.Fuzzes (fun t => t = 1 ∨ t = 2) ⟨t, .calm, t, .write 4096 byte⟩ := fun s t byte ht hv =>
    ⟨ht, .plain (Or.inl (.write rfl (fun v hv' => Option.some.inj (hv.symm.trans hv') ▸ rfl) calm_ok.toAllocates calm_reuseSound))⟩
  have htake : ∀ (s : Crowd) t config, t = 1 ∨ t = 2 →
      s.Fuzzes (fun t => t = 1 ∨ t = 2) ⟨t, .calm, t, .ioctl (.take config)⟩ := fun s t config ht =>
    ⟨ht, .plain (Or.inr (Or.inl (.take calm_ok.toAllocates)))⟩
  refine Along.run ⟨hwrite _ 1 7 (by simp) ?_, hwrite _ 2 9 (by simp) ?_, htake _ 1 _ (by simp), htake _ 2 _ (by simp),
    hwrite _ 2 5 (by simp) ?_, hwrite _ 1 8 (by simp) ?_, trivial⟩ <;> decide

end
end AflSnapshot
