import AflSnapshot.Theorems.Contents
import AflSnapshot.Theorems.Cycles
import AflSnapshot.Theorems.Departures

/-! # Sessions as checkpoints

Seen from the process the module keeps a copy of the memory and goes back to it. `Checkpoint` is the machine that does
just that; every session of reads, writes, commands and exits that restore is a run of it. -/

namespace AflSnapshot
open Runs

/-! ### The machine -/

/-- The copy of a checkpoint: the bytes of all pages, the pages to bring back, and those in mappings that are watched. -/
structure Copy where
  bytes : Nat → Page
  sel : Nat → Prop
  linked : Nat → Prop

/-- The bytes of all pages of a process, with a copy of them where one was taken. -/
structure Checkpoint where
  bytes : Nat → Page
  copy : Option Copy

/-- The selected pages get the bytes of the copy. Of the others only those in watched mappings may change, to what is
    behind them. -/
structure Copy.Back (base : Nat → Page) (k : Copy) (bytes bytes' : Nat → Page) : Prop where
  selected : ∀ p, k.sel p → bytes' p = k.bytes p
  others : ∀ p, ¬k.sel p → bytes' p = bytes p ∨ k.linked p ∧ bytes' p = base p

inductive Op.Takes : Op → Prop
  | take (config : Nat) : Takes (.ioctl (.take config))
  | do_ : Takes (.ioctl .do_)

/-- What is behind the pages, and where the process may write, does not change. -/
inductive Checkpoint.Step (base : Nat → Page) (mayWrite : Nat → Bool) : Op → Checkpoint → Checkpoint → Prop
  | read (addr : Nat) (k : Checkpoint) : Step base mayWrite (.read addr) k k
  | write (addr : Nat) (byte : UInt8) (k : Checkpoint) :
    Step base mayWrite (.write addr byte) k ⟨if mayWrite addr then putByte addr byte k.bytes else k.bytes, k.copy⟩
  | exclude (start end_ : Nat) (k : Checkpoint) : Step base mayWrite (.ioctl (.excludeVmrange start end_)) k k
  | include_ (start end_ : Nat) (k : Checkpoint) : Step base mayWrite (.ioctl (.includeVmrange start end_)) k k
  | take {op : Op} (hop : op.Takes) {k : Copy} : Step base mayWrite op ⟨k.bytes, none⟩ ⟨k.bytes, some k⟩
  | refused {op : Op} (hop : op.Takes) {bytes : Nat → Page} {k : Copy} : Step base mayWrite op ⟨bytes, some k⟩ ⟨bytes, some k⟩
  | clean (k : Checkpoint) : Step base mayWrite (.ioctl .clean) k ⟨k.bytes, none⟩
  | restore {bytes bytes' : Nat → Page} {k : Copy} (h : k.Back base bytes bytes') :
    Step base mayWrite (.ioctl .restore) ⟨bytes, some k⟩ ⟨bytes', some k⟩
  | exit {bytes bytes' : Nat → Page} {k : Copy} (h : k.Back base bytes bytes') :
    Step base mayWrite .exitGroup ⟨bytes, some k⟩ ⟨bytes', some k⟩

/-! ### Sessions -/

def World.baseOf (w : World) (t page : Nat) : Page := w.core.mem.base (w.task t).mm page

/-- The copy that the take from `w₀` to `w₁` makes. -/
def World.takenCopy (w₀ w₁ : World) (t : Nat) : Copy where
  bytes := w₀.pageOf t
  sel p := ∃ d, w₁.recordOf t = some d ∧ Selects d (w₀.mmOf t) p
  linked p := ∃ d, w₁.recordOf t = some d ∧ d.isSnapshottedAddress p = true

/-- A session as the process sees it. -/
def Session.checkpoint (t : Nat) (s : Session) : Checkpoint where
  bytes := s.w.pageOf t
  copy := s.taken.map fun taken => taken.1.takenCopy taken.2 t

/-- The steps of a process that is snapshotted and leaves its mappings as they are, exits that restore among them. -/
inductive Fuzzes (t : Nat) (s : Session) : Move → Prop
  | plain {a : Move} (h : Plain t s a) : Fuzzes t s a
  | exit {env : Env} (hstays : (s.w.standing t).Stays) (henv : env.Allocates) (hreuse : env.ReuseSound) :
    Fuzzes t s ⟨env, t, .exitGroup⟩

/-- What a take brings about, and accesses and the rounds of a restore keep. -/
structure Lasting (P : Home → Core → Prop) : Prop extends AccessStable P where
  take : ∀ (env : Env) t config w id d₀ w', Took env t config w id d₀ w' → w.core.mem.Sane → env.Allocates →
    P (w.homeAt w' t id) w'.core
  round : ∀ (env : Env) h c q, h.Ok → Restorable h c → WriteBack h c → env.Allocates → env.ReuseSound →
    q ∈ (c.reg.data h.id).ss.dirtyPages → P h c → P h (c.recoverEntry env h.m h.id q)

/-- `P` holds of the live snapshot. -/
def Session.Has (P : Home → Core → Prop) (t : Nat) (s : Session) : Prop :=
  ∀ w₀ w₁ id, s.taken = some (w₀, w₁) → w₁.core.reg.getTaskData t = some id → P (w₀.homeAt w₁ t id) s.w.core

/-- What holds in every session that begins in `w`. -/
structure Checkpointed (P : Home → Core → Prop) (t : Nat) (w : World) (s : Session) : Prop where
  tracked : Tracked AtHome t s
  mm : (s.w.task t).mm = (w.task t).mm
  mmap : (s.w.mmOf t).mmap = (w.mmOf t).mmap
  base : ∀ p, s.w.baseOf t p = w.baseOf t p
  has : s.Has P t

section
variable {P : Home → Core → Prop} {t u id addr : Nat} {s s' : Session} {a : Move} {w w' w₀ w₁ : World} {bytes : Nat → Page} {env : Env} {byte : UInt8}
  {taken : Option (World × World)}

theorem Tracked.sound (h : Tracked AtHome t s) : s.w.core.mem.Sane ∧ s.w.core.reg.Coherent ∧
    ∀ q v, (s.w.mmOf t).vmaAt q = some v → v.shared = false → s.w.core.Armed (s.w.task t).mm q := by
  cases hs : s.taken with
  | none =>
    have hi := (tracked_idle hs).mp h
    refine ⟨hi.sane, hi.coherent, fun q v _ _ i sp f b hlive => ?_⟩
    have howner : (s.w.core.mem.mm (s.w.task t).mm).owner = t := hi.owner
    rw [howner, hi.live] at hlive
    cases hlive
  | some taken =>
    obtain ⟨w₀, w₁⟩ := taken
    obtain ⟨id, hl, -⟩ := (tracked_live hs).mp h
    have hmm : (s.w.task t).mm = (w₀.homeAt w₁ t id).m := hl.mm t
    refine ⟨hl.restorable.sane, hl.restorable.coherent, fun q v hv hpriv => ?_⟩
    unfold World.mmOf at hv
    rw [hmm] at hv ⊢
    exact hl.restorable.armed hv hpriv

/-- The invariant after a step of which it is known what the pages then hold. -/
theorem Checkpointed.goes (h : Checkpointed P t w s) (htracked : Tracked AtHome t s') (hmm : (s'.w.task t).mm = (s.w.task t).mm)
    (hh : Holds (s.w.task t).mm s.w.core.mem bytes s'.w.core.mem)
    (hhas : s'.Has P t) : Checkpointed P t w s' ∧ s'.w.pageOf t = bytes := by
  refine ⟨⟨htracked, hmm.trans h.mm, ?_, fun p => ?_, hhas⟩, funext fun p => ?_⟩
  · unfold World.mmOf
    rw [hmm, hh.mmap]
    exact h.mmap
  · unfold World.baseOf
    rw [hmm, hh.base]
    exact h.base p
  · unfold World.pageOf
    rw [hmm, hh.content]

theorem checkpoint_eq (hbytes : s'.w.pageOf t = bytes) (htaken : s'.taken = taken) :
    s'.checkpoint t = ⟨bytes, taken.map fun taken => taken.1.takenCopy taken.2 t⟩ := by
  unfold Session.checkpoint
  rw [hbytes, htaken]

theorem Checkpointed.read (hP : Lasting P) (h : Checkpointed P t w s) (hu : (s.w.task u).mm = (s.w.task t).mm) :
    Checkpointed P t w (s.step t ⟨env, u, .read addr⟩) ∧
      (s.step t ⟨env, u, .read addr⟩).checkpoint t = s.checkpoint t := by
  have hread : Accesses t s ⟨env, u, .read addr⟩ := .read hu
  have htracked := h.tracked.plain (Or.inl hread)
  have hcore : (s.step t ⟨env, u, .read addr⟩).w.core = s.w.core.readByte env (s.w.task t).mm addr := by
    show s.w.core.readByte env (s.w.task u).mm addr = _
    rw [hu]
  obtain ⟨hnext, hbytes⟩ := h.goes htracked rfl (hcore ▸ readByte_holds h.tracked.sound.1) fun w₀ w₁ i htaken hget => by
    have htaken : s.taken = some (w₀, w₁) := htaken
    obtain ⟨id, hl, -⟩ := (tracked_live htaken).mp h.tracked
    obtain rfl : id = i := Option.some.inj (hl.record.symm.trans hget)
    rw [hcore, show (s.w.task t).mm = (w₀.homeAt w₁ t id).m from hl.mm t]
    exact hP.read env _ _ addr (h.has w₀ w₁ id htaken hget) hl.restorable
  exact ⟨hnext, checkpoint_eq hbytes rfl⟩

theorem Checkpointed.write (hP : Lasting P) (h : Checkpointed P t w s) (ha : Accesses t s ⟨env, u, .write addr byte⟩) :
    Checkpointed P t w (s.step t ⟨env, u, .write addr byte⟩) ∧
      (s.step t ⟨env, u, .write addr byte⟩).checkpoint t = ⟨if (w.mmOf t).mayWrite addr then
        putByte addr byte (s.checkpoint t).bytes else (s.checkpoint t).bytes, (s.checkpoint t).copy⟩ := by
  have htracked := h.tracked.plain (Or.inl ha)
  obtain ⟨hsane, hcoherent, harmed⟩ := h.tracked.sound
  have hmay : (w.mmOf t).mayWrite addr = (s.w.mmOf t).mayWrite addr := by
    unfold Mm.mayWrite Mm.vmaAt
    rw [h.mmap]
  cases ha with
  | write hu hpriv henv hreuse =>
    have hcore : (s.step t ⟨env, u, .write addr byte⟩).w.core = s.w.core.writeByte env (s.w.task t).mm addr byte := by
      show s.w.core.writeByte env (s.w.task u).mm addr byte = _
      rw [hu]
    obtain ⟨hnext, hbytes⟩ := h.goes htracked rfl
      (hcore ▸ writeByte_holds hsane hcoherent hreuse (harmed _) hpriv) fun w₀ w₁ i htaken hget => by
        have htaken : s.taken = some (w₀, w₁) := htaken
        obtain ⟨id, hl, -⟩ := (tracked_live htaken).mp h.tracked
        obtain rfl : id = i := Option.some.inj (hl.record.symm.trans hget)
        rw [hcore, show (s.w.task t).mm = (w₀.homeAt w₁ t id).m from hl.mm t]
        exact hP.write env _ _ addr byte (h.has w₀ w₁ id htaken hget) hl.restorable hreuse
    refine ⟨hnext, ?_⟩
    rw [checkpoint_eq hbytes rfl, hmay]
    rfl

/-- A step that leaves the memory and the tasks as they are. -/
theorem Checkpointed.same (h : Checkpointed P t w s) (htracked : Tracked AtHome t s') (hmem : s'.w.core.mem = s.w.core.mem)
    (hmm : (s'.w.task t).mm = (s.w.task t).mm) (hidle : s'.taken = none) :
    Checkpointed P t w s' ∧ s'.w.pageOf t = s.w.pageOf t :=
  h.goes htracked hmm (by rw [hmem]; exact .refl _ _) fun w₀ w₁ i htaken => by
    rw [hidle] at htaken
    cases htaken

/-- `exclude_vmrange` and `include_vmrange`. -/
theorem Checkpointed.range (h : Checkpointed P t w s) (hidle : s.taken = none) (f : RangeLists → RangeLists)
    (hw' : w' = (if env.copyFromUser then (s.w.addVmrange env t f, (0 : Int)) else (s.w, -22)).1) :
    Checkpointed P t w ⟨w', s.taken⟩ ∧ (⟨w', s.taken⟩ : Session).checkpoint t = s.checkpoint t := by
  have hi := (tracked_idle hidle).mp h.tracked
  have hi' : Idle t w' := by
    rw [hw']
    split
    · exact hi.addVmrange env t f
    · exact hi
  have hgiven := addVmrange_given env t hi.coherent f
  have hsame : w'.core.mem = s.w.core.mem ∧ w'.task = s.w.task := by
    rw [hw']
    split
    · exact ⟨hgiven.mem, hgiven.task⟩
    · exact ⟨rfl, rfl⟩
  have htracked : Tracked AtHome t ⟨w', s.taken⟩ := (tracked_idle hidle).mpr hi'
  obtain ⟨hnext, hbytes⟩ := h.same htracked hsame.1
    (congrArg (fun task => (task t).mm) hsame.2) hidle
  exact ⟨hnext, checkpoint_eq hbytes rfl⟩

/-- A page holds after a take what it held before. -/
theorem Took.holds {config : Nat} {d₀ : TaskData} (hT : Took env t config w id d₀ w') (hs : w.core.mem.Sane) (henv : env.Allocates) :
    Holds (w.task t).mm w.core.mem (w.pageOf t) w'.core.mem := by
  obtain ⟨x, st, hwalk, htaking⟩ := hT.taken hs henv
  have hmem : w'.core.mem = w.core.mem.setMm (w.task t).mm st.mm := by rw [hT.mem, htaking]
  have hmm : w'.core.mem.mm (w.task t).mm = st.mm := by rw [hmem, mm_setMm_self]
  have hmmap : (w'.core.mem.mm (w.task t).mm).mmap = (w.core.mem.mm (w.task t).mm).mmap := by
    rw [hmm, hwalk.tables]
    rfl
  have hframe : w'.core.mem.frame = w.core.mem.frame := by rw [hmem]; rfl
  have hbase : ∀ p, w'.core.mem.base (w.task t).mm p = w.core.mem.base (w.task t).mm p :=
    base_congr hmmap (by rw [hmem]; rfl) fun v p => by rw [hframe]
  refine ⟨hmmap, hbase, fun p => ?_⟩
  have hpte : (w'.core.mem.mm (w.task t).mm).pte p = (w.core.mem.mm (w.task t).mm).pte p ∨
      (w'.core.mem.mm (w.task t).mm).pte p = ((w.core.mem.mm (w.task t).mm).pte p).wrprotect := by
    rw [hmm]
    exact hwalk.weakens p
  show _ = w.core.mem.content (w.task t).mm p
  cases hold : (w.core.mem.mm (w.task t).mm).pte p with
  | none =>
    rw [hold] at hpte
    rw [content_of_none hold, content_of_none (hpte.elim (fun h => h) fun h => h), hbase]
  | present f b =>
    rw [hold] at hpte
    rw [content_of_present hold]
    rcases hpte with hpte | hpte
    · rw [content_of_present hpte, hframe]
    · rw [content_of_present (w := false) hpte, hframe]

/-- The entries that a take makes are in linked VMAs. -/
theorem Took.inside {config : Nat} {d₀ : TaskData} (hT : Took env t config w id d₀ w') (hs : w.core.mem.Sane) (henv : env.Allocates) :
    Inside (w.homeAt w' t id) w'.core := by
  obtain ⟨x, st, hwalk, htaking⟩ := hT.taken hs henv
  have hdata := hT.data
  rw [htaking] at hdata
  intro p hp
  show (w'.core.reg.data id).isSnapshottedAddress p = true
  have hp : ((w'.core.reg.data id).getSnapshotPage p).isSome := hp
  rw [hdata] at hp ⊢
  have hp : (st.data.getSnapshotPage p).isSome := hp
  show st.data.isSnapshottedAddress p = true
  rcases hwalk.page p with ⟨hnone, -⟩ | ⟨-, -, hvis, -⟩
  · rw [hnone] at hp
    cases hp
  · exact (hwalk.isSnapshotted (hs.mms (w.task t).mm).vmas.ordered).mpr hvis.walked

/-- A take saves the bytes, or is refused. -/
theorem Checkpointed.take (hP : Lasting P) (h : Checkpointed P t w s) (config : Nat) (henv : env.Allocates)
    (hs' : s' = ⟨(s.w.takeSnapshot env t config).1,
      if s.w.core.reg.live t = none then some (s.w, (s.w.takeSnapshot env t config).1) else s.taken⟩) :
    Checkpointed P t w s' ∧ (s.taken = none ∧ s'.w.pageOf t = s.w.pageOf t ∧ s'.taken = some (s.w, s'.w) ∨
      s.taken ≠ none ∧ s' = s) := by
  have htracked : Tracked AtHome t s' := hs' ▸ h.tracked.take (fun _ _ hw hW => ⟨hw, hW⟩) config henv
  cases hs : s.taken with
  | none =>
    have hi := (tracked_idle hs).mp h.tracked
    rw [if_pos hi.live] at hs'
    obtain ⟨id, d₀, hT, -⟩ := takeSnapshot_took config hi.coherent (hi.sane.mms (s.w.task t).mm).sorted hi.live fun _ =>
      henv.kzallocTaskData
    obtain ⟨hnext, hbytes⟩ := h.goes htracked (by rw [hs', hT.task]) (by rw [hs']; exact hT.holds hi.sane henv)
      fun w₀ w₁ i htaken hget => by
        rw [hs'] at htaken ⊢
        cases htaken
        obtain rfl : id = i := Option.some.inj ((live_eq_some.mp hT.live).1.symm.trans hget)
        exact hP.take env t config s.w id d₀ _ hT hi.sane henv
    exact ⟨hnext, Or.inl ⟨rfl, hbytes, by rw [hs']⟩⟩
  | some taken =>
    obtain ⟨w₀, w₁⟩ := taken
    obtain ⟨id, hl, -⟩ := (tracked_live hs).mp h.tracked
    rw [if_neg (by simp [hl.owner.2]), takeSnapshot_live config hl.owner.2] at hs'
    obtain rfl : s' = s := hs'
    exact ⟨h, Or.inr ⟨by simp, rfl⟩⟩

theorem Checkpointed.clean (h : Checkpointed P t w s) : Checkpointed P t w (s.step t ⟨env, t, .ioctl .clean⟩) ∧
    (s.step t ⟨env, t, .ioctl .clean⟩).checkpoint t = ⟨s.w.pageOf t, none⟩ := by
  have hclean : Commands t s ⟨env, t, .ioctl .clean⟩ := .clean
  have htracked := h.tracked.plain (Or.inr (Or.inl hclean))
  have hnone : (s.step t ⟨env, t, .ioctl .clean⟩).taken = none := if_pos rfl
  have hcleaned := cleanSnapshot_cleaned h.tracked.sound.2.1 t
  obtain ⟨hnext, hbytes⟩ := h.same htracked hcleaned.mem (congrArg (fun task => (task t).mm) hcleaned.task)
    hnone
  exact ⟨hnext, checkpoint_eq hbytes hnone⟩

variable (env) in
/-- Where nothing is gone a restore is its loop. -/
theorem Live.restore_core (hl : Live t w₀ w₁ w id) (hW : Whole (w₀.homeAt w₁ t id) w.core) :
    (w.step env t (.ioctl .restore)).core = w.core.recoverPages env (w₀.homeAt w₁ t id).m id := by
  have hmm : (w.task t).mm = (w₀.homeAt w₁ t id).m := hl.mm t
  have hold : (w.core.reg.data id).ss.oldbrk = (w₀.homeAt w₁ t id).data.ss.oldbrk := by
    have hsame : w.core.reg.data id = _ := hl.restorable.same
    rw [hsame]
  rw [step_restore (live_eq_some.mp hl.owner.2).1, (restoreSnapshot_core env w t id).1, hmm, hold]
  exact hl.restorable.restore_whole hl.ok hW

/-- A restore brings back the selected pages; of the others only those that are emptied change. -/
theorem Checkpointed.restore (hP : Lasting P) (h : Checkpointed P t w s) (hs : s.taken = some (w₀, w₁)) (henv : env.Allocates)
    (hreuse : env.ReuseSound) {d₁ d : TaskData} (hd₁ : w₁.recordOf t = some d₁) (hd : s.w.recordOf t = some d) :
    Checkpointed P t w (s.step t ⟨env, t, .ioctl .restore⟩) ∧
      (∀ p, Selects d₁ (w₀.mmOf t) p → (s.step t ⟨env, t, .ioctl .restore⟩).w.pageOf t p = w₀.pageOf t p) ∧
      ∀ p, ¬Selects d₁ (w₀.mmOf t) p → (s.step t ⟨env, t, .ioctl .restore⟩).w.pageOf t p =
        if d.empties p then w.baseOf t p else s.w.pageOf t p := by
  obtain ⟨id, hl, hw, hW⟩ := (tracked_live hs).mp h.tracked
  have hrestore : Restores t s ⟨env, t, .ioctl .restore⟩ := .restore (by simp [hs]) henv hreuse
  have htracked := h.tracked.plain (Or.inr (Or.inr hrestore))
  have hback := hl.restore hw henv (Or.inl hW) hreuse
  have hmm : (s.w.task t).mm = (w₀.homeAt w₁ t id).m := hl.mm t
  have hcore : (s.step t ⟨env, t, .ioctl .restore⟩).w.core = s.w.core.recoverPages env (w₀.homeAt w₁ t id).m id :=
    hl.restore_core env hW
  have hlapses := hl.restorable.lapses hl.ok hw hW henv hreuse
  obtain ⟨hnext, hbytes⟩ := h.goes htracked ((hback.live.mm t).trans (hl.mm t).symm)
    (by rw [hcore, hmm]; exact hlapses.holds) fun w₀' w₁' i htaken hget => by
      obtain ⟨rfl, rfl⟩ := Prod.mk.inj (Option.some.inj (hs.symm.trans htaken))
      obtain rfl : id = i := Option.some.inj (hl.record.symm.trans hget)
      rw [hcore]
      exact hl.restorable.recoverEntries_keeps hl.ok henv hreuse (hl.restorable.writeBack hl.ok hw hW)
        (h.has w₀ w₁ id hs hl.record) (fun q c hR hwb hq => hP.round env _ c q hl.ok hR hwb henv hreuse hq) _ rfl
  refine ⟨hnext, fun p hsel => (hback.pageOf hd₁ hsel).2, fun p hnot => ?_⟩
  obtain rfl := hl.recordOf_eq hd₁
  obtain rfl : s.w.core.reg.data id = d := Option.some.inj ((recordOf_eq (live_eq_some.mp hl.owner.2).1).symm.trans hd)
  rw [hbytes, ← h.base, hlapses.unselected hl.restorable.queued hnot]
  unfold World.pageOf World.baseOf
  rw [hmm]
  rfl

variable (env) in
/-- An exit that stays is a restore. -/
theorem step_exitGroup (h : Checkpointed P t w s) (hstays : (s.w.standing t).Stays) :
    s.taken ≠ none ∧ s.step t ⟨env, t, .exitGroup⟩ = s.step t ⟨env, t, .ioctl .restore⟩ := by
  obtain ⟨config, hstand, hflag⟩ := hstays
  have hlive : ∃ id, s.w.core.reg.live t = some id ∧ (s.w.core.reg.data id).config = config := by
    cases hget : s.w.core.reg.getTaskData t with
    | none =>
      rw [standing_of_none (recordOf_none_iff.mpr hget)] at hstand
      cases hstand
    | some id =>
      rw [standing_of_record (recordOf_eq hget), TaskData.standing] at hstand
      split at hstand
      · rename_i hmade
        exact ⟨id, live_eq_some.mpr ⟨hget, hmade⟩, by simpa using hstand⟩
      · cases hstand
  obtain ⟨id, hlive, rfl⟩ := hlive
  obtain ⟨hget, hmade⟩ := live_eq_some.mp hlive
  refine ⟨fun hs => ?_, ?_⟩
  · have := ((tracked_idle hs).mp h.tracked).live
    rw [hlive] at this
    cases this
  · have hexit : s.w.step env t .exitGroup = s.w.step env t (.ioctl .restore) := by
      rw [step_restore hget]
      show s.w.sysExitGroupHook env t = _
      unfold World.sysExitGroupHook World.exitSnapshot
      simp only [hget, hflag, hmade, Bool.and_self, ↓reduceIte]
    unfold Session.step
    dsimp only
    rw [hexit]

/-- The records that a session has. -/
theorem Checkpointed.records (h : Checkpointed P t w s) (hs : s.taken = some (w₀, w₁)) :
    ∃ id, w₁.core.reg.getTaskData t = some id ∧ w₁.recordOf t = some (w₁.core.reg.data id) ∧
      s.w.recordOf t = some (s.w.core.reg.data id) := by
  obtain ⟨id, hl, -⟩ := (tracked_live hs).mp h.tracked
  exact ⟨id, hl.record, recordOf_eq hl.record, recordOf_eq (live_eq_some.mp hl.owner.2).1⟩

/-- A restore goes back to the copy. -/
theorem Checkpointed.back (hP : Lasting P) (hI : ∀ h c, P h c → Inside h c) (h : Checkpointed P t w s) (hs : s.taken = some (w₀, w₁))
    (henv : env.Allocates) (hreuse : env.ReuseSound) : Checkpointed P t w (s.step t ⟨env, t, .ioctl .restore⟩) ∧
      (w₀.takenCopy w₁ t).Back (w.baseOf t) (s.w.pageOf t) ((s.step t ⟨env, t, .ioctl .restore⟩).w.pageOf t) := by
  obtain ⟨id, hget, hd₁, hd⟩ := h.records hs
  obtain ⟨hnext, hsel, hothers⟩ := h.restore hP hs henv hreuse hd₁ hd
  refine ⟨hnext, ⟨fun p hp => ?_, fun p hp => ?_⟩⟩
  · obtain ⟨d, hd', hp⟩ := hp
    rw [hd₁] at hd'
    exact hsel p (Option.some.inj hd' ▸ hp)
  · rw [hothers p fun hsel => hp ⟨_, hd₁, hsel⟩]
    by_cases hempties : (s.w.core.reg.data id).empties p = true
    · obtain ⟨sp, hsp, -⟩ := (Option.any_eq_true _ _).mp hempties
      exact Or.inr ⟨⟨_, hd₁, hI _ _ (h.has w₀ w₁ id hs hget) p (hsp ▸ rfl)⟩, if_pos hempties⟩
    · exact Or.inl (if_neg hempties)

theorem Checkpointed.step (hP : Lasting P) (hI : ∀ h c, P h c → Inside h c) (h : Checkpointed P t w s) (ha : Fuzzes t s a) :
    Checkpointed P t w (s.step t a) ∧
    Checkpoint.Step (w.baseOf t) (w.mmOf t).mayWrite a.op (s.checkpoint t) ((s.step t a).checkpoint t) := by
  have hrefl : (s.checkpoint t) = ⟨s.w.pageOf t, s.taken.map fun taken => taken.1.takenCopy taken.2 t⟩ := rfl
  have htake : ∀ {op : Op}, op.Takes → ∀ s', Checkpointed P t w s' ∧
      (s.taken = none ∧ s'.w.pageOf t = s.w.pageOf t ∧ s'.taken = some (s.w, s'.w) ∨ s.taken ≠ none ∧ s' = s) →
      Checkpointed P t w s' ∧ Checkpoint.Step (w.baseOf t) (w.mmOf t).mayWrite op (s.checkpoint t) (s'.checkpoint t) := by
    rintro op hop s' ⟨hnext, ⟨hs, hbytes, htaken⟩ | ⟨hs, rfl⟩⟩
    · rw [hrefl, hs, checkpoint_eq hbytes htaken]
      exact ⟨hnext, .take hop (k := s.w.takenCopy s'.w t)⟩
    · obtain ⟨taken, hs⟩ := Option.ne_none_iff_exists'.mp hs
      rw [checkpoint_eq rfl hs]
      exact ⟨hnext, .refused hop⟩
  have hrestore : ∀ {env : Env}, s.taken ≠ none → env.Allocates → env.ReuseSound →
      Checkpointed P t w (s.step t ⟨env, t, .ioctl .restore⟩) ∧ ∃ k, s.checkpoint t = ⟨s.w.pageOf t, some k⟩ ∧
        (s.step t ⟨env, t, .ioctl .restore⟩).checkpoint t =
          ⟨(s.step t ⟨env, t, .ioctl .restore⟩).w.pageOf t, some k⟩ ∧
        k.Back (w.baseOf t) (s.w.pageOf t) ((s.step t ⟨env, t, .ioctl .restore⟩).w.pageOf t) := by
    intro env htaken henv hreuse
    obtain ⟨⟨w₀, w₁⟩, hs⟩ := Option.ne_none_iff_exists'.mp htaken
    obtain ⟨hnext, hback⟩ := h.back hP hI hs henv hreuse
    have hs' : (s.step t ⟨env, t, .ioctl .restore⟩).taken = some (w₀, w₁) := hs
    exact ⟨hnext, _, checkpoint_eq rfl hs, checkpoint_eq rfl hs', hback⟩
  cases ha with
  | plain ha =>
    rcases ha with ha | ha | ha
    · cases ha with
      | read hu =>
        obtain ⟨hnext, heq⟩ := h.read hP hu
        rw [heq]
        exact ⟨hnext, .read _ _⟩
      | write hu hpriv henv hreuse =>
        obtain ⟨hnext, heq⟩ := h.write hP (.write hu hpriv henv hreuse)
        rw [heq]
        exact ⟨hnext, .write _ _ _⟩
    · cases ha with
      | exclude hidle =>
        obtain ⟨hnext, heq⟩ := h.range hidle _ rfl
        exact ⟨hnext, heq ▸ .exclude _ _ _⟩
      | include_ hidle =>
        obtain ⟨hnext, heq⟩ := h.range hidle _ rfl
        exact ⟨hnext, heq ▸ .include_ _ _ _⟩
      | @take env config henv =>
        exact htake (.take config) _ (h.take hP config henv (by simp [Session.step, World.step, World.ioctl]))
      | @do_ env henv =>
        exact htake .do_ _ (h.take hP (aflSnapshotMmap ||| aflSnapshotFds ||| aflSnapshotRegs ||| aflSnapshotExit) henv
          (by simp [Session.step, World.step, World.ioctl]))
      | clean =>
        obtain ⟨hnext, heq⟩ := h.clean
        rw [heq]
        exact ⟨hnext, .clean _⟩
    · cases ha with
      | restore htaken henv hreuse =>
        obtain ⟨hnext, k, h1, h2, hback⟩ := hrestore htaken henv hreuse
        rw [h1, h2]
        exact ⟨hnext, .restore hback⟩
  | @exit env hstays henv hreuse =>
    obtain ⟨htaken, heq⟩ := step_exitGroup env h hstays
    obtain ⟨hnext, k, h1, h2, hback⟩ := hrestore htaken henv hreuse
    rw [heq, h1, h2]
    exact ⟨hnext, .exit hback⟩

theorem checkpointed_of_run (hP : Lasting P) (hI : ∀ h c, P h c → Inside h c)
    (h : Run (Session.step t) (Fuzzes t) ⟨w, none⟩ s) (hidle : Idle t w) : Checkpointed P t w s := by
  have hstart : Checkpointed P t w ⟨w, none⟩ :=
    ⟨(tracked_idle rfl).mpr hidle, rfl, rfl, fun _ => rfl, fun _ _ _ htaken => by cases htaken⟩
  exact h.invariant hstart fun _ _ hs ha => (hs.step hP hI ha).1

theorem lasting_inside : Lasting Inside where
  read _ _ _ _ hI _ := hI.readByte
  write _ _ _ _ _ hI hR _ := hI.writeByte hR
  take _ _ _ _ _ _ _ hT hs henv := hT.inside hs henv
  round _ _ _ _ hok hR hwb henv hreuse hq hI := hI.recoverEntry hok hR hwb henv hreuse hq

/-- A page is written, and a snapshot taken that is restored on exit. -/
def takenExits : Session :=
  (Session.step 1 ⟨.boot heapMm [1], none⟩ ⟨.calm, 1, .write 4096 7⟩).step 1 ⟨.calm, 1, .ioctl (.take aflSnapshotExit)⟩

/-- The page is written again. -/
def writtenExits : Session := takenExits.step 1 ⟨.calm, 1, .write 4096 8⟩

theorem writtenExits_run : Run (Session.step 1) (Fuzzes 1) ⟨.boot heapMm [1], none⟩ writtenExits := by
  have hpriv : ∀ s : Session, (s.w.mmOf 1).vmaAt 4096 = some ⟨0, 4096, 12288, 3, none⟩ →
      ∀ v, (s.w.mmOf 1).vmaAt 4096 = some v → v.shared = false := fun s hs v hv => by
    obtain rfl := Option.some.inj (hs.symm.trans hv)
    rfl
  refine .step (.step (.step .start (.plain (Or.inl (.write rfl ?_ calm_ok.toAllocates calm_reuseSound))))
    (.plain (Or.inr (Or.inl (.take calm_ok.toAllocates))))) (.plain (Or.inl (.write rfl ?_ calm_ok.toAllocates calm_reuseSound)))
  · exact hpriv _ (by decide)
  · exact hpriv _ (by decide)

end
end AflSnapshot
