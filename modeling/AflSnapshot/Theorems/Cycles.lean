import AflSnapshot.Theorems.Sessions

/-! # Reads, writes, restores and further takes

In a session of these steps a restore brings back what the selected pages held when the last take began. -/

namespace AflSnapshot
open Runs

/-! ### Moves -/

/-- Accesses by the threads that share the task's address space, the writes to private mappings. -/
inductive Accesses (t : Nat) (s : Session) : Move → Prop
  | read {env : Env} {u addr : Nat} (hu : (s.w.task u).mm = (s.w.task t).mm) : Accesses t s ⟨env, u, .read addr⟩
  | write {env : Env} {u addr : Nat} {byte : UInt8} (hu : (s.w.task u).mm = (s.w.task t).mm)
      (hpriv : ∀ v, (s.w.mmOf t).vmaAt (pageBase addr) = some v → v.shared = false) (henv : env.Allocates)
      (hreuse : env.ReuseSound) : Accesses t s ⟨env, u, .write addr byte⟩

/-- The commands but restore; the ranges are given before the take. -/
inductive Commands (t : Nat) (s : Session) : Move → Prop
  | exclude {env : Env} {start end_ : Nat} (hidle : s.taken = none) :
      Commands t s ⟨env, t, .ioctl (.excludeVmrange start end_)⟩
  | include_ {env : Env} {start end_ : Nat} (hidle : s.taken = none) :
      Commands t s ⟨env, t, .ioctl (.includeVmrange start end_)⟩
  | take {env : Env} {config : Nat} (henv : env.Allocates) : Commands t s ⟨env, t, .ioctl (.take config)⟩
  | do_ {env : Env} (henv : env.Allocates) : Commands t s ⟨env, t, .ioctl .do_⟩
  | clean {env : Env} : Commands t s ⟨env, t, .ioctl .clean⟩

/-- A restore of the live snapshot. -/
inductive Restores (t : Nat) (s : Session) : Move → Prop
  | restore {env : Env} (htaken : s.taken ≠ none) (henv : env.Allocates) (hreuse : env.ReuseSound) :
      Restores t s ⟨env, t, .ioctl .restore⟩

/-- What the accesses keep. -/
structure AccessStable (P : Home → Core → Prop) : Prop where
  read : ∀ (env : Env) h c addr, P h c → Restorable h c → P h (c.readByte env h.m addr)
  write : ∀ (env : Env) h c addr byte, P h c → Restorable h c → env.ReuseSound → P h (c.writeByte env h.m addr byte)

section
variable {P Q : Home → Core → Prop} {t : Nat} {s : Session} {a : Move} {w w₀ w₁ : World} {env : Env} {id : Nat}

theorem accessStable_dirtyWritable : AccessStable DirtyWritable where
  read _ _ _ _ hP hR := hP.readByte hR.sane
  write _ _ _ _ _ hP hR hreuse := hP.writeByte hR hreuse

theorem accessStable_whole : AccessStable Whole where
  read _ _ _ _ hP hR := hP.readByte hR.sane
  write _ _ _ _ _ hP hR hreuse := hP.writeByte hR hreuse

theorem AccessStable.and (hP : AccessStable P) (hQ : AccessStable Q) : AccessStable fun h c => P h c ∧ Q h c where
  read env h c addr hPQ hR := ⟨hP.read env h c addr hPQ.1 hR, hQ.read env h c addr hPQ.2 hR⟩
  write env h c addr byte hPQ hR hreuse :=
    ⟨hP.write env h c addr byte hPQ.1 hR hreuse, hQ.write env h c addr byte hPQ.2 hR hreuse⟩

/-! ### Steps -/

theorem tracked_idle {taken : Option (World × World)} (h : taken = none) : Tracked P t ⟨w, taken⟩ ↔ Idle t w := by
  unfold Tracked
  rw [h]

theorem tracked_live {taken : Option (World × World)} (h : taken = some (w₀, w₁)) :
    Tracked P t ⟨w, taken⟩ ↔ ∃ id, Live t w₀ w₁ w id ∧ P (w₀.homeAt w₁ t id) w.core := by
  unfold Tracked
  rw [h]

theorem Tracked.accesses (hstable : AccessStable P) (h : Tracked P t s) (ha : Accesses t s a) :
    Tracked P t (s.step t a) := by
  cases hs : s.taken with
  | none =>
    have h := (tracked_idle hs).mp h
    cases ha with
    | read hu => exact (tracked_idle hs).mpr (h.read _ _ hu)
    | write hu hpriv henv hreuse => exact (tracked_idle hs).mpr (h.write _ _ hu hreuse)
  | some taken =>
    obtain ⟨w₀, w₁⟩ := taken
    obtain ⟨id, hl, hP⟩ := (tracked_live hs).mp h
    have hmm : (s.w.task t).mm = (w₀.homeAt w₁ t id).m := hl.mm t
    cases ha with
    | @read env u addr hu =>
      refine (tracked_live hs).mpr ⟨id, ?_⟩
      show Live t w₀ w₁ (s.w.mapCore (·.readByte env (s.w.task u).mm addr)) id ∧ P _ (s.w.core.readByte env (s.w.task u).mm addr)
      rw [hu, hmm]
      exact ⟨hl.mapCore (hl.restorable.readByte addr), hstable.read env _ _ addr hP hl.restorable⟩
    | @write env u addr byte hu hpriv henv hreuse =>
      refine (tracked_live hs).mpr ⟨id, ?_⟩
      show Live t w₀ w₁ (s.w.mapCore (·.writeByte env (s.w.task u).mm addr byte)) id ∧
        P _ (s.w.core.writeByte env (s.w.task u).mm addr byte)
      rw [hu, hmm]
      have hpriv : ∀ v, (s.w.core.mem.mm (w₀.homeAt w₁ t id).m).vmaAt (pageBase addr) = some v → v.shared = false := by
        rw [← hmm]
        exact hpriv
      exact ⟨hl.mapCore (hl.restorable.writeByte hl.ok henv hreuse addr byte hpriv),
        hstable.write env _ _ addr byte hP hl.restorable hreuse⟩

/-- A take by an idle task, and one that is refused. -/
theorem Tracked.take (hnew : ∀ h c, DirtyWritable h c → Whole h c → P h c) (h : Tracked P t s) {env : Env}
    (config : Nat) (henv : env.Allocates) :
    Tracked P t ⟨(s.w.takeSnapshot env t config).1,
      if s.w.core.reg.live t = none then some (s.w, (s.w.takeSnapshot env t config).1) else s.taken⟩ := by
  cases hs : s.taken with
  | none =>
    have hidle := (tracked_idle hs).mp h
    rw [if_pos hidle.live]
    obtain ⟨id, hl, hw, hW⟩ := hidle.take config henv
    exact ⟨id, hl, hnew _ _ hw hW⟩
  | some taken =>
    obtain ⟨w₀, w₁⟩ := taken
    obtain ⟨id, hl, hP⟩ := (tracked_live hs).mp h
    rw [if_neg (by simp [hl.owner.2]), takeSnapshot_live config hl.owner.2]
    exact ⟨id, hl, hP⟩

theorem Tracked.commands (hnew : ∀ h c, DirtyWritable h c → Whole h c → P h c) (h : Tracked P t s)
    (ha : Commands t s a) : Tracked P t (s.step t a) := by
  cases ha with
  | @exclude env start end_ hidle =>
    refine (tracked_idle hidle).mpr ?_
    have hi := (tracked_idle hidle).mp h
    show Idle t (if env.copyFromUser then (s.w.excludeVmrange env t start end_, (0 : Int)) else (s.w, -22)).1
    split
    · exact hi.addVmrange env t (·.exclude start end_)
    · exact hi
  | @include_ env start end_ hidle =>
    refine (tracked_idle hidle).mpr ?_
    have hi := (tracked_idle hidle).mp h
    show Idle t (if env.copyFromUser then (s.w.includeVmrange env t start end_, (0 : Int)) else (s.w, -22)).1
    split
    · exact hi.addVmrange env t (·.include_ start end_)
    · exact hi
  | @take env config henv => simpa [Session.step, World.step, World.ioctl] using h.take hnew config henv
  | @do_ env henv => simpa [Session.step, World.step, World.ioctl] using h.take hnew _ henv
  | @clean env =>
    have hclean : Idle t (s.w.cleanSnapshot t) := by
      cases hs : s.taken with
      | none =>
        have hi := (tracked_idle hs).mp h
        exact idle_clean hi.sane hi.coherent hi.owner hi.used
      | some taken =>
        obtain ⟨id, hl, -⟩ := (tracked_live hs).mp h
        exact hl.clean
    exact (tracked_idle (if_pos rfl)).mpr hclean

theorem Tracked.restores (h : Tracked P t s)
    (hready : ∀ w₀ w₁ id, Live t w₀ w₁ s.w id → P (w₀.homeAt w₁ t id) s.w.core →
      DirtyWritable (w₀.homeAt w₁ t id) s.w.core ∧ (Whole (w₀.homeAt w₁ t id) s.w.core ∨ a.env.Ok))
    (hback : ∀ (h : Home) c', h.Ok → P h s.w.core → Restored h c' → (Whole h s.w.core → Whole h c') → P h c')
    (ha : Restores t s a) : Tracked P t (s.step t a) := by
  cases ha with
  | @restore env htaken henv hreuse =>
    cases hs : s.taken with
    | none => exact absurd hs htaken
    | some taken =>
      obtain ⟨w₀, w₁⟩ := taken
      obtain ⟨id, hl, hP⟩ := (tracked_live hs).mp h
      obtain ⟨hw, hmaps⟩ := hready w₀ w₁ id hl hP
      have hb := hl.restore hw henv hmaps hreuse
      exact (tracked_live hs).mpr ⟨id, hb.live, hback _ _ hl.ok hP hb.restored hb.whole⟩

/-! ### Sessions -/

/-- The steps of a process that leaves its mappings as they are. -/
def Plain (t : Nat) (s : Session) (a : Move) : Prop := Accesses t s a ∨ Commands t s a ∨ Restores t s a

/-- Nothing that is saved is out of reach, and nothing is gone. -/
def AtHome (h : Home) (c : Core) : Prop := DirtyWritable h c ∧ Whole h c

theorem Tracked.plain (h : Tracked AtHome t s) (ha : Plain t s a) : Tracked AtHome t (s.step t a) := by
  rcases ha with ha | ha | ha
  · exact h.accesses (accessStable_dirtyWritable.and accessStable_whole) ha
  · exact h.commands (fun _ _ hw hW => ⟨hw, hW⟩) ha
  · refine h.restores (fun _ _ _ _ hP => ⟨hP.1, Or.inl hP.2⟩) (fun _ _ hok hP hres hW => ?_) ha
    exact ⟨hres.dirtyWritable hok, hW hP.2⟩

theorem tracked_of_plain (h : Run (Session.step t) (Plain t) ⟨w, none⟩ s) (hidle : Idle t w) : Tracked AtHome t s :=
  h.invariant ((tracked_idle rfl).mpr hidle) fun _ _ h ha => h.plain ha

/-- In every session of reads, writes, restores and takes a restore brings back what the selected pages held when the
    last take began. -/
theorem restore_brings_back (h : Run (Session.step t) (Plain t) ⟨w, none⟩ s) (hidle : Idle t w)
    (htaken : s.taken = some (w₀, w₁)) (henv : env.Allocates) (hreuse : env.ReuseSound) {d : TaskData}
    (hd : w₁.recordOf t = some d) {page : Nat} (hsel : Selects d (w₀.mmOf t) page) :
    (s.w.step env t (.ioctl .restore)).pageOf t page = w₀.pageOf t page := by
  obtain ⟨id, hl, hw, hW⟩ := (tracked_live htaken).mp (tracked_of_plain h hidle)
  exact ((hl.restore hw henv (Or.inl hW) hreuse).pageOf hd hsel).2

/-- A page is written, a snapshot taken, and the page written again. -/
def writtenTwice : Session :=
  ((Session.step 1 ⟨.boot heapMm [1], none⟩ ⟨.calm, 1, .write 4096 7⟩).step 1 ⟨.calm, 1, .ioctl (.take 0)⟩).step 1
    ⟨.calm, 1, .write 4096 8⟩

theorem writtenTwice_run : Run (Session.step 1) (Plain 1) ⟨.boot heapMm [1], none⟩ writtenTwice := by
  have hpriv : ∀ s : Session, (s.w.mmOf 1).vmaAt 4096 = some ⟨0, 4096, 12288, 3, none⟩ →
      ∀ v, (s.w.mmOf 1).vmaAt 4096 = some v → v.shared = false := fun s hs v hv => by
    obtain rfl := Option.some.inj (hs.symm.trans hv)
    rfl
  refine .step (.step (.step .start (Or.inl (.write rfl ?_ calm_ok.toAllocates calm_reuseSound)))
    (Or.inr (Or.inl (.take calm_ok.toAllocates)))) (Or.inl (.write rfl ?_ calm_ok.toAllocates calm_reuseSound))
  · exact hpriv _ (by decide)
  · exact hpriv _ (by decide)

theorem restore_brings_back_written : (writtenTwice.w.step .calm 1 (.ioctl .restore)).pageOf 1 4096 0 = 7 :=
  (congrFun (restore_brings_back writtenTwice_run (heapMm_idle [1]) rfl calm_ok.toAllocates calm_reuseSound rfl
    (Or.inl (by decide))) 0).trans (by decide)

/-! ### Threads -/

/-- The page is queued, and its bytes are saved unless it is to be emptied. -/
def World.IsRecorded (w : World) (t page : Nat) (C : Page) : Prop :=
  ∃ d sp, w.recordOf t = some d ∧ d.getSnapshotPage page = some sp ∧ page ∈ d.ss.dirtyPages ∧
    (sp.isNonePte = true ∨ sp.dirty = true ∧ sp.hasBeenCopied = true ∧ sp.pageData = some C)

theorem Live.isRecorded (hl : Live t w₀ w₁ w id) {B C : Page} {page : Nat}
    (ho : Opened B C ((w.core.reg.data id).getSnapshotPage page)) : w.IsRecorded t page C := by
  have hrec : w.recordOf t = some (w.core.reg.data id) := by
    unfold World.recordOf
    rw [(live_eq_some.mp hl.owner.2).1]
    rfl
  have hmem : ∀ sp, (w.core.reg.data id).getSnapshotPage page = some sp → sp.inDirtyList = true →
      page ∈ (w.core.reg.data id).ss.dirtyPages := fun sp hsp hq => (hl.restorable.queued.mem page).mpr ⟨sp, hsp, hq⟩
  generalize hget : (w.core.reg.data id).getSnapshotPage page = o at ho hmem
  cases ho with
  | refreshed hnone hpriv hdirty hq hhad hB => exact ⟨_, _, hrec, hget, hmem _ rfl hq, Or.inl hnone⟩
  | dirty hnone hdirty hq hcopied hdata =>
    exact ⟨_, _, hrec, hget, hmem _ rfl hq, Or.inr ⟨hdirty, hcopied, hdata⟩⟩

/-- A write to a selected page leaves it recorded. -/
theorem Live.records (hl : Live t w₀ w₁ w id) {u addr : Nat} {byte : UInt8} (hu : (w.task u).mm = (w.task t).mm)
    (henv : env.Allocates) (hreuse : env.ReuseSound) {v : VmArea} (hv : (w.mmOf t).vmaAt (pageBase addr) = some v)
    (hs : v.shared = false) (hw : v.writable = true) (hsel : (w₀.homeAt w₁ t id).sel (pageBase addr)) :
    (w.step env u (.write addr byte)).IsRecorded t (pageBase addr) (w₀.pageOf t (pageBase addr)) := by
  have hmm : (w.task t).mm = (w₀.homeAt w₁ t id).m := hl.mm t
  have hv : (w.core.mem.mm (w₀.homeAt w₁ t id).m).vmaAt (pageBase addr) = some v := by
    rw [← hmm]
    exact hv
  have hstep : w.step env u (.write addr byte) = w.mapCore (·.writeByte env (w₀.homeAt w₁ t id).m addr byte) := by
    show w.mapCore (·.writeByte env (w.task u).mm addr byte) = _
    rw [hu, hmm]
  have hpriv : ∀ v', (w.core.mem.mm (w₀.homeAt w₁ t id).m).vmaAt (pageBase addr) = some v' → v'.shared = false :=
    fun v' hv' => Option.some.inj (hv.symm.trans hv') ▸ hs
  have hl' := hl.mapCore (hl.restorable.writeByte hl.ok henv hreuse addr byte hpriv)
  rw [hstep]
  obtain ⟨c', hf⟩ := writeFault_isSome env hv hw
  obtain ⟨v', hv', -, hcase⟩ := writeFault_cases hl.restorable.coherent hreuse (fun v hv hs => hl.restorable.armed hv hs) hf
  obtain rfl := Option.some.inj (hv.symm.trans hv')
  obtain ⟨v₀, hv₀⟩ := (hl.ok.sel _ hsel).2.2
  have ho := hl.restorable.opens hl.ok (henv.pageData _) (henv.snapshotPage _) hsel hv₀ hv hs hcase
  refine hl'.isRecorded (B := (w.core.mem.frame (w.core.mem.backing v₀ (pageBase addr))).data) ?_
  obtain ⟨f, hpte⟩ := hcase.writable
  show Opened _ _ (((w.core.writeByte env (w₀.homeAt w₁ t id).m addr byte).reg.data id).getSnapshotPage (pageBase addr))
  unfold Core.writeByte
  rw [hf]
  dsimp only
  rw [store_eq hpte]
  exact ho

/-- A thread that leads its group takes the snapshot: every write to a selected page by a thread of the group is
    recorded, and a restore brings all selected pages back. -/
theorem leader_takes (h : Run (Session.step t) (Plain t) ⟨w, none⟩ s) (hsane : w.core.mem.Sane)
    (hcoherent : w.core.reg.Coherent) (howner : (w.mmOf t).owner = (w.task t).groupLeader)
    (hused : (w.task t).mm < w.core.mem.freshMm) (hlive : w.core.reg.live t = none)
    (hleader : (w.task t).groupLeader = t) (htaken : s.taken = some (w₀, w₁)) {d : TaskData}
    (hd : w₁.recordOf t = some d) {page : Nat} (hsel : Selects d (w₀.mmOf t) page) :
    (∀ env u addr byte v, Accesses t s ⟨env, u, .write addr byte⟩ → pageBase addr = page →
      (s.w.mmOf t).vmaAt page = some v → v.writable = true →
      (s.w.step env u (.write addr byte)).IsRecorded t page (w₀.pageOf t page)) ∧
    ∀ env : Env, env.Allocates → env.ReuseSound →
      (s.w.step env t (.ioctl .restore)).pageOf t page = w₀.pageOf t page := by
  have hidle : Idle t w := ⟨hsane, hcoherent, howner.trans hleader, hused, hlive⟩
  obtain ⟨id, hl, hw, hW⟩ := (tracked_live htaken).mp (tracked_of_plain h hidle)
  refine ⟨fun env u addr byte v ha hpage hv hwrite => ?_, fun env henv hreuse => ?_⟩
  · obtain rfl := hl.recordOf_eq hd
    subst hpage
    cases ha with
    | write hu hpriv henv hreuse => exact hl.records hu henv hreuse hv (hpriv v hv) hwrite hsel
  · exact ((hl.restore hw henv (Or.inl hW) hreuse).pageOf hd hsel).2

/-- Another thread of the group writes after the take. -/
theorem leader_takes_written : (writtenTwice.w.step .calm 2 (.write 4096 9)).IsRecorded 1 4096
    (((World.boot heapMm [1]).step .calm 1 (.write 4096 7)).pageOf 1 4096) := by
  have hidle := heapMm_idle [1]
  have hv : (writtenTwice.w.mmOf 1).vmaAt 4096 = some ⟨0, 4096, 12288, 3, none⟩ := by decide
  refine (leader_takes writtenTwice_run hidle.sane hidle.coherent rfl hidle.used hidle.live rfl rfl rfl
    (Or.inl (by decide))).1 .calm 2 4096 9 _ (.write rfl (fun v hv' => ?_) calm_ok.toAllocates calm_reuseSound) rfl hv rfl
  obtain rfl := Option.some.inj (hv.symm.trans hv')
  rfl

/-- A thread that does not lead its group takes the snapshot, and the leader writes. -/
def followerTook : Session :=
  ((Session.step 2 ⟨.boot heapMm [1, 2], none⟩ ⟨.calm, 1, .write 4096 7⟩).step 2 ⟨.calm, 2, .ioctl (.take 0)⟩).step 2
    ⟨.calm, 1, .write 4096 8⟩

/-- The write is not recorded, and the restore leaves the page as it is. -/
theorem follower_takes : ∃ w₀ w₁ d, followerTook.taken = some (w₀, w₁) ∧ w₁.recordOf 2 = some d ∧
    Selects d (w₀.mmOf 2) 4096 ∧ w₀.pageOf 2 4096 0 = 7 ∧
    (followerTook.w.recordOf 2).map (fun d => d.ss.dirtyPages) = some [] ∧
    (followerTook.w.step .calm 2 (.ioctl .restore)).pageOf 2 4096 0 = 8 :=
  ⟨_, _, _, rfl, rfl, Or.inl (by decide), by decide, by decide, by decide⟩

end
end AflSnapshot
