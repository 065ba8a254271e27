import AflSnapshot.Theorems.Checkpoint

/-! # What the dirty list says

In a session the dirty list is exact in both directions: a selected page that does not hold what it did at the take is queued,
and what is queued was written since the last restore. So a restore has at most a round for each page written. -/

namespace AflSnapshot
open Runs

/-- A session, and the pages written since its last take or restore. -/
structure Logged where
  session : Session
  written : List Nat

/-- The session goes on. -/
def Logged.step (t : Nat) (s : Logged) (a : Move) : Logged where
  session := s.session.step t a
  written := match a.op with
    | .write addr _ => if (s.session.w.mmOf t).mayWrite addr then pageBase addr :: s.written else s.written
    | .ioctl .restore | .exitGroup => []
    | .ioctl (.take _) | .ioctl .do_ => if s.session.taken.isNone then [] else s.written
    | _ => s.written

/-- What is queued was written. -/
def Logged.Queues (t : Nat) (s : Logged) : Prop :=
  ∀ d, s.session.taken ≠ none → s.session.w.recordOf t = some d → ∀ p ∈ d.ss.dirtyPages, p ∈ s.written

section
variable {h : Home} {c c' : Core} {env : Env} {addr q : Nat} {byte : UInt8}

/-- A write queues its own page at most, and only where it is not refused. -/
theorem dirtyPages_writeByte (hok : h.Ok) (hR : Restorable h c) (henv : env.Allocates) (hreuse : env.ReuseSound)
    (hpriv : ∀ v, (c.mem.mm h.m).vmaAt (pageBase addr) = some v → v.shared = false)
    (hq : q ∈ ((c.writeByte env h.m addr byte).reg.data h.id).ss.dirtyPages) :
    q ∈ (c.reg.data h.id).ss.dirtyPages ∨ q = pageBase addr ∧ (c.mem.mm h.m).mayWrite addr = true := by
  have hR' := hR.writeByte hok henv hreuse addr byte hpriv
  obtain ⟨sp, hsp, hin⟩ := (hR'.queued.mem q).mp hq
  rw [hR.queued.mem]
  unfold Core.writeByte at hsp
  cases hf : c.writeFault env h.m (pageBase addr) with
  | none =>
    rw [hf] at hsp
    exact Or.inl ⟨sp, hsp, hin⟩
  | some c' =>
    rw [hf] at hsp
    obtain ⟨v, hv, hw, hcase⟩ := writeFault_cases hR.coherent hreuse (fun v hv hs => hR.armed hv hs) hf
    have ht := writeFault_touched hR.coherent hf
    rw [hR.live] at ht
    obtain ⟨g, hpte⟩ := hcase.writable
    dsimp only at hsp
    rw [store_eq hpte] at hsp
    by_cases hpage : q = pageBase addr
    · refine Or.inr ⟨hpage, ?_⟩
      unfold Mm.mayWrite
      rw [hv]
      exact hw
    · have hsp : (c'.reg.data h.id).getSnapshotPage q = some sp := hsp
      rw [(ht.data h.id rfl).others q hpage] at hsp
      exact Or.inl ⟨sp, hsp, hin⟩

theorem readByte_reg {m : Nat} : (c.readByte env m addr).reg = c.reg := by
  unfold Core.readByte
  cases hf : c.readFault env m (pageBase addr) with
  | none => rfl
  | some c' =>
    obtain ⟨v, -, -, hcase⟩ := readFault_cases hf
    exact hcase.reg

end

section
variable {t id addr : Nat} {s : Logged} {a : Move} {w w' w₀ w₁ : World} {env : Env} {d₀ d d₁ : TaskData}

theorem Took.dirtyPages {config : Nat} (hT : Took env t config w id d₀ w') (hs : w.core.mem.Sane) (henv : env.Allocates) :
    (w'.core.reg.data id).ss.dirtyPages = [] := by
  obtain ⟨x, st, hwalk, htaking⟩ := hT.taken hs henv
  rw [hT.data, htaking]
  show st.data.ss.dirtyPages = []
  rw [hwalk.same]
  exact hT.fresh.2.2.2.2.2

/-- The live snapshot of a session, its record and where it lives. -/
theorem Checkpointed.live {P : Home → Core → Prop} {s : Session} (h : Checkpointed P t w s) (hs : s.taken = some (w₀, w₁)) :
    ∃ id, Live t w₀ w₁ s.w id ∧ DirtyWritable (w₀.homeAt w₁ t id) s.w.core ∧ Whole (w₀.homeAt w₁ t id) s.w.core ∧
      (w₀.homeAt w₁ t id).m = (s.w.task t).mm ∧ s.w.recordOf t = some (s.w.core.reg.data id) := by
  obtain ⟨id, hl, hw, hW⟩ := (tracked_live hs).mp h.tracked
  exact ⟨id, hl, hw, hW, (hl.mm t).symm, recordOf_eq (live_eq_some.mp hl.owner.2).1⟩

theorem Logged.Queues.restore (h : Checkpointed Inside t w s.session) (hs : s.session.taken ≠ none) (henv : env.Allocates)
    (hreuse : env.ReuseSound) : (s.step t ⟨env, t, .ioctl .restore⟩).Queues t := by
  obtain ⟨⟨w₀, w₁⟩, hs⟩ := Option.ne_none_iff_exists'.mp hs
  obtain ⟨id, hl, hw, hW, -, -⟩ := h.live hs
  have hback := hl.restore hw henv (Or.inl hW) hreuse
  intro d _ hd p hp
  have hrec := recordOf_eq (live_eq_some.mp hback.live.owner.2).1
  obtain rfl := Option.some.inj (hrec.symm.trans hd)
  have hempty : ((s.session.w.step env t (.ioctl .restore)).core.reg.data id).ss.dirtyPages = [] := hback.restored.dirtyPages
  rw [hempty] at hp
  cases hp

theorem Logged.Queues.take (h : Checkpointed Inside t w s.session) (hK : s.Queues t) (config : Nat) (henv : env.Allocates)
    {s' : Logged} (hs' : s'.session.w = (s.session.w.takeSnapshot env t config).1)
    (hwritten : s'.written = if s.session.taken.isNone then [] else s.written) : s'.Queues t := by
  intro d _ hd p hp
  rw [hs'] at hd
  cases hs : s.session.taken with
  | none =>
    have hi := (tracked_idle hs).mp h.tracked
    obtain ⟨id, d₀, hT, -⟩ := takeSnapshot_took config hi.coherent (hi.sane.mms (s.session.w.task t).mm).sorted hi.live fun _ =>
      henv.kzallocTaskData
    obtain rfl := Option.some.inj ((recordOf_eq (live_eq_some.mp hT.live).1).symm.trans hd)
    rw [hT.dirtyPages hi.sane henv] at hp
    cases hp
  | some taken =>
    obtain ⟨w₀, w₁⟩ := taken
    obtain ⟨id, hl, -⟩ := h.live hs
    rw [takeSnapshot_live config hl.owner.2] at hd
    rw [hwritten, hs]
    exact hK d (by simp [hs]) hd p hp

theorem Logged.Queues.write {u : Nat} {byte : UInt8} (h : Checkpointed Inside t w s.session) (hK : s.Queues t)
    (ha : Accesses t s.session ⟨env, u, .write addr byte⟩) : (s.step t ⟨env, u, .write addr byte⟩).Queues t := by
  intro d htaken hd p hp
  obtain ⟨⟨w₀, w₁⟩, hs⟩ := Option.ne_none_iff_exists'.mp htaken
  have hs : s.session.taken = some (w₀, w₁) := hs
  have hs' : (s.session.step t ⟨env, u, .write addr byte⟩).taken = some (w₀, w₁) := hs
  obtain ⟨id, hl, -, -, hmm, hrec⟩ := h.live hs
  obtain ⟨id', hl', -, -, -, hrec'⟩ := (h.write lasting_inside ha).1.live hs'
  obtain rfl := Option.some.inj (hl.record.symm.trans hl'.record)
  obtain rfl := Option.some.inj (hrec'.symm.trans hd)
  cases ha with
  | write hu hpriv henv hreuse =>
    have hp : p ∈ ((s.session.w.core.writeByte env (s.session.w.task u).mm addr byte).reg.data id).ss.dirtyPages := hp
    rw [hu, ← hmm] at hp
    unfold World.mmOf at hpriv
    rw [← hmm] at hpriv
    have hgoal : (s.step t ⟨env, u, .write addr byte⟩).written =
        if (s.session.w.mmOf t).mayWrite addr then pageBase addr :: s.written else s.written := rfl
    rw [hgoal]
    unfold World.mmOf
    rw [← hmm]
    rcases dirtyPages_writeByte hl.ok hl.restorable henv hreuse hpriv hp with hp | ⟨rfl, hmay⟩
    · have hin : p ∈ s.written := hK _ (by simp [hs]) hrec p hp
      split
      · exact List.mem_cons_of_mem _ hin
      · exact hin
    · rw [if_pos hmay]
      exact List.mem_cons_self

theorem Logged.Queues.step (h : Checkpointed Inside t w s.session) (hK : s.Queues t) (ha : Fuzzes t s.session a) :
    (s.step t a).Queues t := by
  cases ha with
  | plain ha =>
    rcases ha with ha | ha | ha
    · cases ha with
      | @read env u addr hu =>
        intro d htaken hd p hp
        have hreg : (s.session.w.core.readByte env (s.session.w.task u).mm addr).reg = s.session.w.core.reg := readByte_reg
        refine hK d htaken ?_ p hp
        rw [← hd]
        unfold World.recordOf
        show _ = ((s.session.w.core.readByte env (s.session.w.task u).mm addr).reg.getTaskData t).map
          (s.session.w.core.readByte env (s.session.w.task u).mm addr).reg.data
        rw [hreg]
      | write hu hpriv henv hreuse => exact hK.write h (.write hu hpriv henv hreuse)
    · cases ha with
      | exclude hidle => exact fun _ htaken => absurd hidle htaken
      | include_ hidle => exact fun _ htaken => absurd hidle htaken
      | @take env config henv => exact hK.take h config henv rfl rfl
      | @do_ env henv =>
        exact hK.take h (aflSnapshotMmap ||| aflSnapshotFds ||| aflSnapshotRegs ||| aflSnapshotExit) henv rfl rfl
      | clean => exact fun _ htaken => absurd (if_pos rfl) htaken
    · cases ha with
      | restore htaken henv hreuse => exact .restore h htaken henv hreuse
  | @exit env hstays henv hreuse =>
    obtain ⟨htaken, heq⟩ := step_exitGroup env h hstays
    have hlog : s.step t ⟨env, t, .exitGroup⟩ = s.step t ⟨env, t, .ioctl .restore⟩ := congrArg (Logged.mk · []) heq
    rw [hlog]
    exact .restore h htaken henv hreuse

/-- The page is written, a snapshot taken, and the page written again. -/
def loggedExits : Logged :=
  ((Logged.step 1 ⟨⟨.boot heapMm [1], none⟩, []⟩ ⟨.calm, 1, .write 4096 7⟩).step 1 ⟨.calm, 1, .ioctl (.take aflSnapshotExit)⟩).step 1
    ⟨.calm, 1, .write 4096 8⟩

end
end AflSnapshot
