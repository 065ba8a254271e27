import AflSnapshot.Lib.Programs
import AflSnapshot.Theorems.Checkpoint

/-! # Rounds of a program

What a program does after a restore is what it does after the take, whatever the process did in between: no test case sees
anything of the ones before it. -/

namespace AflSnapshot
open Runs Programs

/-! ### Queued pages -/

/-- The pages that a restore goes through can be written. -/
def QueuedWritable (h : Home) (c : Core) : Prop :=
  ∀ p sp v, (c.reg.data h.id).getSnapshotPage p = some sp → sp.inDirtyList = true → (c.mem.mm h.m).vmaAt p = some v →
    v.writable = true

/-- The entries are of pages in linked VMAs, the queued ones of pages that can be written. -/
def Orderly (h : Home) (c : Core) : Prop := Inside h c ∧ QueuedWritable h c

section
variable {h : Home} {c c' : Core} {env : Env} {addr q : Nat} {byte : UInt8}

theorem QueuedWritable.readByte (hQ : QueuedWritable h c) (hR : Restorable h c) : QueuedWritable h (c.readByte env h.m addr) := by
  unfold Core.readByte
  cases hf : c.readFault env h.m (pageBase addr) with
  | none => exact hQ
  | some c' =>
    obtain ⟨v, -, -, hcase⟩ := readFault_cases hf
    have hF := hcase.faulted hR.sane
    intro p sp v hsp hq hv
    rw [Option.getD_some] at hsp hv
    rw [hcase.reg] at hsp
    rw [hF.vmaAt] at hv
    exact hQ p sp v hsp hq hv

/-- A write queues its own page at most. -/
theorem QueuedWritable.writeByte (hQ : QueuedWritable h c) (hR : Restorable h c) (hreuse : env.ReuseSound) :
    QueuedWritable h (c.writeByte env h.m addr byte) := by
  unfold Core.writeByte
  cases hf : c.writeFault env h.m (pageBase addr) with
  | none => exact hQ
  | some c' =>
    obtain ⟨v, hv, hw, hcase⟩ := writeFault_cases hR.coherent hreuse (fun v hv hs => hR.armed hv hs) hf
    have hF := hcase.faulted hR.sane
    have ht := writeFault_touched hR.coherent hf
    rw [hR.live] at ht
    obtain ⟨g, hpte⟩ := hcase.writable
    dsimp only
    rw [store_eq hpte]
    intro p sp v' hsp hq hv'
    have hsp : (c'.reg.data h.id).getSnapshotPage p = some sp := hsp
    have hv' : (c'.mem.mm h.m).vmaAt p = some v' := hv'
    rw [hF.vmaAt] at hv'
    by_cases hp : p = pageBase addr
    · subst hp
      obtain rfl := Option.some.inj (hv.symm.trans hv')
      exact hw
    · rw [(ht.data h.id rfl).others p hp] at hsp
      exact hQ p sp v' hsp hq hv'

theorem QueuedWritable.recoverEntry (hQ : QueuedWritable h c) (hok : h.Ok) (hR : Restorable h c) (hwb : WriteBack h c)
    (henv : env.Allocates) (hreuse : env.ReuseSound) (hin : q ∈ (c.reg.data h.id).ss.dirtyPages) :
    QueuedWritable h (c.recoverEntry env h.m h.id q) := by
  have hround := hR.recoverEntry hok henv hreuse hwb hin
  intro p sp v hsp hq hv
  have hp : p ≠ q := by
    rintro rfl
    have hstays := (hround.restorable.queued.mem p).mpr ⟨sp, hsp, hq⟩
    rw [hround.dirtyPages] at hstays
    exact hR.queued.nodup.not_mem_erase hstays
  rw [hround.others p hp] at hsp
  unfold Mm.vmaAt at hv
  rw [hround.mmap] at hv
  exact hQ p sp v hsp hq hv

theorem Took.queuedWritable {t config id : Nat} {w w' : World} {d₀ : TaskData} (hT : Took env t config w id d₀ w')
    (hs : w.core.mem.Sane) (henv : env.Allocates) : QueuedWritable (w.homeAt w' t id) w'.core := by
  obtain ⟨x, st, hwalk, htaking⟩ := hT.taken hs henv
  intro p sp v hsp hq
  have hsp : (w'.core.reg.data id).getSnapshotPage p = some sp := hsp
  rw [hT.data, htaking] at hsp
  have hsp : st.data.getSnapshotPage p = some sp := hsp
  rcases hwalk.page p with ⟨hnone, -⟩ | ⟨hentry, -⟩
  · rw [hnone] at hsp
    cases hsp
  · rw [hentry] at hsp
    cases hsp
    cases hq

theorem lasting_orderly : Lasting Orderly where
  read _ _ _ _ hP hR := ⟨hP.1.readByte, hP.2.readByte hR⟩
  write _ _ _ _ _ hP hR hreuse := ⟨hP.1.writeByte hR, hP.2.writeByte hR hreuse⟩
  take _ _ _ _ _ _ _ hT hs henv := ⟨hT.inside hs henv, hT.queuedWritable hs henv⟩
  round _ _ _ _ hok hR hwb henv hreuse hq hP :=
    ⟨hP.1.recoverEntry hok hR hwb henv hreuse hq, hP.2.recoverEntry hok hR hwb henv hreuse hq⟩

/-- A page that cannot be written is not emptied. -/
theorem QueuedWritable.not_empties (hQ : QueuedWritable h c) {p : Nat} {v : VmArea} (hv : (c.mem.mm h.m).vmaAt p = some v)
    (hw : v.writable = false) : (c.reg.data h.id).empties p = false := by
  rw [Bool.eq_false_iff]
  intro hempties
  obtain ⟨sp, hsp, hflags⟩ := (Option.any_eq_true _ _).mp hempties
  simp at hflags
  rw [hQ p sp v hsp hflags.1.1 hv] at hw
  cases hw

end

/-! ### Accesses and their answers -/

/-- An access of a process to its memory. -/
inductive Access
  | load (addr : Nat)
  | save (addr : Nat) (byte : UInt8)
deriving DecidableEq

def Access.op : Access → Op
  | .load addr => .read addr
  | .save addr byte => .write addr byte

/-- The process may read at the address. -/
def Mm.mayRead (mm : Mm) (addr : Nat) : Bool := (mm.vmaAt (pageBase addr)).any VmArea.readable

/-- The page is mapped, and cannot be written. -/
def Mm.Unwritable (mm : Mm) (page : Nat) : Prop := ∃ v, mm.vmaAt page = some v ∧ v.writable = false

namespace World
variable (t : Nat) (w : World)

def access (env : Env) (a : Access) : World := w.step env t a.op

/-- The byte that is read or written; none where the access is refused. -/
def outcome : Access → Option UInt8
  | .load addr =>
    if (w.mmOf t).mayRead addr then some (w.pageOf t (pageBase addr) ⟨addr % pageSize, offset_lt addr⟩) else none
  | .save addr byte => if (w.mmOf t).mayWrite addr then some byte else none

end World

/-- A read of what the restore brings back or nothing changes, and a write to private memory. -/
def Access.Replayed (t : Nat) (w₀ w₁ : World) : Access → Prop
  | .load addr => (w₁.mmOf t).mayRead addr = true →
    (w₀.takenCopy w₁ t).sel (pageBase addr) ∨ (w₁.mmOf t).mayWrite addr = false
  | .save addr _ => ∀ v, (w₁.mmOf t).vmaAt (pageBase addr) = some v → v.shared = false

/-- The session with the state right after the take of its snapshot, of which it keeps what cannot be written. -/
def Retakes (t : Nat) (w : World) (s : Session) : Prop :=
  ∀ w₀ w₁, s.taken = some (w₀, w₁) → Checkpointed Orderly t w ⟨w₁, some (w₀, w₁)⟩ ∧
    w₁.pageOf t = w₀.pageOf t ∧ ∀ p, (w.mmOf t).Unwritable p → s.w.pageOf t p = w₁.pageOf t p

section
variable {t addr : Nat} {s s' : Session} {a : Move} {w w' w₀ w₁ : World} {env : Env} {byte : UInt8}

theorem vmaAt_congr {mm mm' : Mm} (h : mm'.mmap = mm.mmap) : mm'.vmaAt = mm.vmaAt := by
  unfold Mm.vmaAt
  rw [h]

theorem Retakes.same (h : Retakes t w s) (htaken : s'.taken = s.taken)
    (hbytes : ∀ p, (w.mmOf t).Unwritable p → s'.w.pageOf t p = s.w.pageOf t p) : Retakes t w s' := by
  intro w₀ w₁ hs
  obtain ⟨hc, hcopy, hfixed⟩ := h w₀ w₁ (htaken.symm.trans hs)
  exact ⟨hc, hcopy, fun p hp => (hbytes p hp).trans (hfixed p hp)⟩

theorem putByte_unwritable {mm : Mm} {bytes : Nat → Page} {p : Nat} (hp : mm.Unwritable p) :
    (if mm.mayWrite addr then putByte addr byte bytes else bytes) p = bytes p := by
  split
  · rename_i hmay
    obtain ⟨v, hv, hw⟩ := hp
    have hne : p ≠ pageBase addr := by
      rintro rfl
      rw [Mm.mayWrite, hv, Option.any_some, hw] at hmay
      cases hmay
    exact Function.update_of_ne hne ..
  · rfl

/-- A restore leaves what cannot be written. -/
theorem Checkpointed.restore_unwritable (h : Checkpointed Orderly t w s)
    (hs : s.taken = some (w₀, w₁)) (henv : env.Allocates) (hreuse : env.ReuseSound) (hcopy : w₁.pageOf t = w₀.pageOf t)
    (hfixed : ∀ p, (w.mmOf t).Unwritable p → s.w.pageOf t p = w₁.pageOf t p) :
    ∀ p, (w.mmOf t).Unwritable p → (s.step t ⟨env, t, .ioctl .restore⟩).w.pageOf t p = w₁.pageOf t p := by
  intro p hp
  obtain ⟨id, hget, hd₁, hd⟩ := h.records hs
  obtain ⟨-, hsel, hothers⟩ := h.restore lasting_orderly hs henv hreuse hd₁ hd
  by_cases hin : Selects (w₁.core.reg.data id) (w₀.mmOf t) p
  · rw [hsel p hin, hcopy]
  obtain ⟨v, hv, hw⟩ := hp
  have hv' : (s.w.mmOf t).vmaAt p = some v := (congrFun (vmaAt_congr h.mmap) p).trans hv
  have hmm : (w₀.homeAt w₁ t id).m = (s.w.task t).mm := by
    obtain ⟨id', hl, -⟩ := (tracked_live hs).mp h.tracked
    exact (hl.mm t).symm
  have hempties : (s.w.core.reg.data id).empties p = false := by
    refine (h.has w₀ w₁ id hs hget).2.not_empties ?_ hw
    rw [hmm]
    exact hv'
  rw [hothers p hin, hempties, if_neg Bool.false_ne_true]
  exact hfixed p ⟨v, hv, hw⟩

theorem Retakes.restore (h : Checkpointed Orderly t w s) (hK : Retakes t w s)
    (henv : env.Allocates) (hreuse : env.ReuseSound) : Retakes t w (s.step t ⟨env, t, .ioctl .restore⟩) := by
  intro w₀ w₁ hs
  have hs : s.taken = some (w₀, w₁) := hs
  obtain ⟨hc, hcopy, hfixed⟩ := hK w₀ w₁ hs
  exact ⟨hc, hcopy, h.restore_unwritable hs henv hreuse hcopy hfixed⟩

theorem Retakes.step (h : Checkpointed Orderly t w s) (hK : Retakes t w s) (ha : Fuzzes t s a) :
    Retakes t w (s.step t a) := by
  have htake : ∀ s', Checkpointed Orderly t w s' ∧
      (s.taken = none ∧ s'.w.pageOf t = s.w.pageOf t ∧ s'.taken = some (s.w, s'.w) ∨ s.taken ≠ none ∧ s' = s) → Retakes t w s' := by
    rintro ⟨w', taken⟩ ⟨hnext, ⟨-, hbytes, htaken⟩ | ⟨-, rfl⟩⟩
    · intro w₀ w₁ hs
      obtain ⟨rfl, rfl⟩ := Prod.mk.inj (Option.some.inj (htaken.symm.trans hs))
      have htaken : taken = some (s.w, w') := htaken
      subst htaken
      exact ⟨hnext, hbytes, fun _ _ => rfl⟩
    · exact hK
  cases ha with
  | plain ha =>
    rcases ha with ha | ha | ha
    · cases ha with
      | read hu =>
        exact hK.same rfl fun p _ => congrFun (congrArg Checkpoint.bytes (h.read lasting_orderly hu).2) p
      | @write env u addr byte hu hpriv henv hreuse =>
        have hwrite : Accesses t s ⟨env, u, .write addr byte⟩ := .write hu hpriv henv hreuse
        have heq := (h.write lasting_orderly hwrite).2
        exact hK.same rfl fun p hp => (congrFun (congrArg Checkpoint.bytes heq) p).trans (putByte_unwritable hp)
    · cases ha with
      | exclude hidle => exact fun _ _ hs => by cases hidle.symm.trans hs
      | include_ hidle => exact fun _ _ hs => by cases hidle.symm.trans hs
      | @take env config henv =>
        exact htake _ (h.take lasting_orderly config henv (by simp [Session.step, World.step, World.ioctl]))
      | @do_ env henv =>
        exact htake _ (h.take lasting_orderly (aflSnapshotMmap ||| aflSnapshotFds ||| aflSnapshotRegs ||| aflSnapshotExit)
          henv (by simp [Session.step, World.step, World.ioctl]))
      | @clean env =>
        intro w₀ w₁ hs
        have hnone : (s.step t ⟨env, t, .ioctl .clean⟩).taken = none := if_pos rfl
        rw [hnone] at hs
        cases hs
    · cases ha with
      | restore htaken henv hreuse => exact hK.restore h henv hreuse
  | @exit env hstays henv hreuse =>
    rw [(step_exitGroup env h hstays).2]
    exact hK.restore h henv hreuse

theorem retakes_of_run (h : Run (Session.step t) (Fuzzes t) ⟨w, none⟩ s) (hidle : Idle t w) :
    Checkpointed Orderly t w s ∧ Retakes t w s := by
  refine h.invariant (I := fun s => Checkpointed _ t w s ∧ Retakes t w s)
    ⟨checkpointed_of_run lasting_orderly (fun _ _ hP => hP.1) .start hidle, fun _ _ hs => by cases hs⟩ ?_
  intro s a hs ha
  exact ⟨(hs.1.step lasting_orderly (fun _ _ hP => hP.1) ha).1, hs.2.step hs.1 ha⟩

/-! ### Two rounds -/

/-- Two states with the same snapshot that hold the same bytes in what it brings back and in what cannot be written. -/
structure Twins (t : Nat) (w w₀ w₁ x y : World) : Prop where
  left : Checkpointed Orderly t w ⟨x, some (w₀, w₁)⟩
  right : Checkpointed Orderly t w ⟨y, some (w₀, w₁)⟩
  bytes : ∀ p, (w₀.takenCopy w₁ t).sel p ∨ (w.mmOf t).Unwritable p → x.pageOf t p = y.pageOf t p

variable {x y : World}

variable (env addr) in
theorem Checkpointed.load (h : Checkpointed Orderly t w ⟨x, some (w₀, w₁)⟩) :
    Checkpointed Orderly t w ⟨x.access t env (.load addr), some (w₀, w₁)⟩ ∧
      (x.access t env (.load addr)).pageOf t = x.pageOf t := by
  have hread : Checkpointed Orderly t w (Session.step t ⟨x, some (w₀, w₁)⟩ ⟨env, t, .read addr⟩) ∧ _ := h.read lasting_orderly rfl
  exact ⟨hread.1, congrArg Checkpoint.bytes hread.2⟩

variable (byte) in
theorem Checkpointed.save (h : Checkpointed Orderly t w ⟨x, some (w₀, w₁)⟩)
    (hpriv : ∀ v, (w.mmOf t).vmaAt (pageBase addr) = some v → v.shared = false) (henv : env.Allocates ∧ env.ReuseSound) :
    Checkpointed Orderly t w ⟨x.access t env (.save addr byte), some (w₀, w₁)⟩ ∧
      (x.access t env (.save addr byte)).pageOf t =
        if (w.mmOf t).mayWrite addr then putByte addr byte (x.pageOf t) else x.pageOf t := by
  have hwrite : Accesses t ⟨x, some (w₀, w₁)⟩ ⟨env, t, .write addr byte⟩ :=
    .write rfl (fun v hv => hpriv v ((congrFun (vmaAt_congr h.mmap) _).symm.trans hv)) henv.1 henv.2
  have hnext := h.write lasting_orderly hwrite
  exact ⟨hnext.1, congrArg Checkpoint.bytes hnext.2⟩

/-- The accesses are answered alike, and lead to such states. -/
theorem twins_alike (h₁ : Checkpointed Orderly t w ⟨w₁, some (w₀, w₁)⟩) : Alike (World.access t) (World.outcome t)
    (fun env => env.Allocates ∧ env.ReuseSound) (Access.Replayed t w₀ w₁) (Twins t w w₀ w₁) := by
  have hvma : (w₁.mmOf t).vmaAt = (w.mmOf t).vmaAt := vmaAt_congr h₁.mmap
  refine ⟨fun x y a hR hok => ?_, fun x y a env env' hR hok henv henv' => ?_⟩
  · have hx : (x.mmOf t).vmaAt = (w.mmOf t).vmaAt := vmaAt_congr hR.left.mmap
    have hy : (y.mmOf t).vmaAt = (w.mmOf t).vmaAt := vmaAt_congr hR.right.mmap
    cases a with
    | load addr =>
      unfold World.outcome Mm.mayRead
      dsimp only
      rw [hx, hy]
      split
      · rename_i hmay
        have hsame : x.pageOf t (pageBase addr) = y.pageOf t (pageBase addr) := by
          refine hR.bytes _ ?_
          rcases hok (by rw [Mm.mayRead, hvma]; exact hmay) with hsel | hw
          · exact Or.inl hsel
          obtain ⟨v, hv, -⟩ := (Option.any_eq_true _ _).mp hmay
          rw [Mm.mayWrite, hvma, hv] at hw
          exact Or.inr ⟨v, hv, hw⟩
        rw [hsame]
      · rfl
    | save addr byte =>
      unfold World.outcome Mm.mayWrite
      dsimp only
      rw [hx, hy]
  · cases a with
    | load addr =>
      obtain ⟨hx, hxeq⟩ := hR.left.load addr env
      obtain ⟨hy, hyeq⟩ := hR.right.load addr env'
      exact ⟨hx, hy, fun p hp => by rw [hxeq, hyeq, hR.bytes p hp]⟩
    | save addr byte =>
      have hpriv : ∀ v, (w.mmOf t).vmaAt (pageBase addr) = some v → v.shared = false := by
        rw [← hvma]
        exact hok
      obtain ⟨hx, hxeq⟩ := hR.left.save byte hpriv henv
      obtain ⟨hy, hyeq⟩ := hR.right.save byte hpriv henv'
      refine ⟨hx, hy, fun p hp => ?_⟩
      rw [hxeq, hyeq]
      split
      · unfold putByte
        by_cases hq : p = pageBase addr
        · subst hq
          rw [Function.update_self, Function.update_self, hR.bytes _ hp]
        · rw [Function.update_of_ne hq, Function.update_of_ne hq, hR.bytes p hp]
      · exact hR.bytes p hp

/-- A restore makes it a state that holds what the one after the take does. -/
theorem twins_of_restore (h : Checkpointed Orderly t w s) (hK : Retakes t w s) (hs : s.taken = some (w₀, w₁))
    (henv : env.Allocates) (hreuse : env.ReuseSound) : Twins t w w₀ w₁ w₁ (s.w.step env t (.ioctl .restore)) := by
  obtain ⟨hc, hcopy, hfixed⟩ := hK w₀ w₁ hs
  obtain ⟨id, hget, hd₁, hd⟩ := h.records hs
  obtain ⟨hnext, hsel, -⟩ := h.restore lasting_orderly hs henv hreuse hd₁ hd
  have hnext : Checkpointed Orderly t w ⟨s.w.step env t (.ioctl .restore), s.taken⟩ := hnext
  rw [hs] at hnext
  refine ⟨hc, hnext, fun p hp => ?_⟩
  rcases hp with ⟨d, hd', hp⟩ | hp
  · obtain rfl := Option.some.inj (hd₁.symm.trans hd')
    rw [hcopy]
    exact (hsel p hp).symm
  · exact (h.restore_unwritable hs henv hreuse hcopy hfixed p hp).symm

/-- The program reads a byte, and then adds one to it. -/
def increments : Program (Option UInt8) Access (Option UInt8) where
  request
    | none => .load 4096
    | some byte => .save 4096 (byte + 1)
  learn _ byte := byte

end
end AflSnapshot
