import AflSnapshot.Theorems.Departures
import AflSnapshot.Theorems.Isolation

/-! # Processes that write to private memory

`World.Isolated` over runs of processes. The hook keeps to frames of the process's own, and no write through a private
mapping is seen elsewhere, where no fork shares a page that a snapshot trusts, no such page is read when its entry was
emptied, and all that a restore is to write back is written back (`Isolates`). -/

namespace AflSnapshot
open Runs

/-- A process with an address space of its own. -/
structure World.Process (w : World) (t : Nat) : Prop where
  created : t < w.freshTask
  used : (w.task t).mm < w.core.mem.freshMm
  owner : (w.mmOf t).owner = t

/-- No process has a snapshot yet. -/
structure World.Unsnapshotted (w : World) : Prop where
  kept : w.Kept
  sane : w.core.mem.Sane
  tasks : ∀ m, m < w.core.mem.freshMm →
    (w.core.mem.mm m).owner < w.freshTask ∧ (w.task (w.core.mem.mm m).owner).mm = m
  idle : ∀ u, w.core.reg.live u = none

/-- What the processes do: they read, write and discard pages, fork, open and close files, give commands, and exit. -/
inductive ProcessMoves (w : World) : Move → Prop
  | read {env : Env} {t : Nat} (addr : Nat) : w.Process t → ProcessMoves w ⟨env, t, .read addr⟩
  | write {env : Env} {t : Nat} (addr : Nat) (byte : UInt8) : w.Process t → env.ReuseSound →
    ProcessMoves w ⟨env, t, .write addr byte⟩
  | discard {env : Env} {t : Nat} (addr : Nat) : w.Process t → ProcessMoves w ⟨env, t, .discard addr⟩
  | fork {env : Env} {t : Nat} : w.Process t → ProcessMoves w ⟨env, t, .fork⟩
  | file {env : Env} {t : Nat} (op : FileOp) : w.Process t → ProcessMoves w ⟨env, t, .file op⟩
  | ioctl {env : Env} {t : Nat} (cmd : Ioctl) : w.Process t → env.ReuseSound → ProcessMoves w ⟨env, t, .ioctl cmd⟩
  | exit {env : Env} {t : Nat} : w.Process t → ProcessMoves w ⟨env, t, .exit⟩
  | exitGroup {env : Env} {t : Nat} : w.Process t → env.ReuseSound → ProcessMoves w ⟨env, t, .exitGroup⟩

/-- In a restore all saved pages that are dirty when the loop starts are written back, where they are mapped privately and
    have not their frame for themselves. -/
def World.WritesBack (env : Env) (t : Nat) (w : World) : Prop :=
  ∀ id, w.core.reg.getTaskData t = some id → (w.core.beforeLoop env (w.task t).mm id).2 = 0 →
    (w.core.beforeLoop env (w.task t).mm id).1.Rewrites env (w.task t).mm id

/-- The step leaves no page that the hook trusts with a frame that others have. -/
def Isolates (w : World) (a : Move) : Prop :=
  match a.op with
  | .read addr => w.core.Trusted (w.task a.tsk).mm (pageBase addr) → (w.mmOf a.tsk).pte (pageBase addr) ≠ .none
  | .fork => ∀ page v, (w.mmOf a.tsk).vmaAt page = some v → v.shared = false → w.core.Trusted (w.task a.tsk).mm page →
    (w.mmOf a.tsk).pte page = .none
  | .ioctl .restore | .exitGroup => w.WritesBack a.env a.tsk
  | _ => True

section
variable {env : Env} {m m' page p t u id config addr : Nat} {c c' : Core} {w w' w₀ : World} {v : VmArea} {byte : UInt8}

/-! ### One write -/

/-- What a page reads as does not change where its frame does not. -/
theorem content_congr {mem mem' : Memory} (hmm : mem'.mm m = mem.mm m) (hcache : mem'.pageCache = mem.pageCache)
    (hpte : ∀ f w, (mem.mm m).pte p = .present f w → (mem'.frame f).data = (mem.frame f).data)
    (hzero : (mem'.frame zeroPfn).data = (mem.frame zeroPfn).data)
    (hobject : ∀ o q, (mem'.frame (mem.pageCache o q)).data = (mem.frame (mem.pageCache o q)).data) :
    mem'.content m p = mem.content m p := by
  unfold Memory.content
  rw [hmm]
  cases hp : (mem.mm m).pte p with
  | present f w => exact hpte f w hp
  | none =>
    cases (mem.mm m).vmaAt p with
    | none => rfl
    | some v =>
      dsimp only
      unfold Memory.backing
      rw [hcache]
      cases v.file with
      | none => exact hzero
      | some o => exact hobject o p

/-- A write through a private mapping changes a frame that no other page has. -/
theorem Core.Safe.write_own (h : c.Safe) (hm : m < c.mem.freshMm) (hreuse : env.ReuseSound)
    (hv : (c.mem.mm m).vmaAt (pageBase addr) = some v) (hpriv : v.shared = false) :
    (∀ m' p, m' ≠ m → (c.writeByte env m addr byte).mem.content m' p = c.mem.content m' p) ∧
      ∀ o q, ((c.writeByte env m addr byte).mem.frame (c.mem.pageCache o q)).data = (c.mem.frame (c.mem.pageCache o q)).data := by
  unfold Core.writeByte
  cases hf : c.writeFault env m (pageBase addr) with
  | none => exact ⟨fun _ _ _ => rfl, fun _ _ => rfl⟩
  | some c₁ =>
    obtain ⟨hsafe, hp, v', hv', -, hcase⟩ := h.writeFault hm hreuse (pageBase_dvd addr) hf
    obtain ⟨f, hpte⟩ := hcase.writable
    have hF := hcase.faulted h.sane
    have hex : c₁.mem.Exclusive m (pageBase addr) f := hsafe.sane.excl m _ f v hpte (hp.vmaAt.trans hv) hpriv
    dsimp only
    rw [store_eq hpte]
    -- The frame is anonymous, and no other page has it.
    have hother : ∀ g, g < c.mem.freshPfn → g ≠ f → ∀ frame : Frame,
        ((c₁.mem.setFrame f frame).frame g).data = (c.mem.frame g).data := fun g hg hgf frame => by
      rw [← hF.frame g hg]
      exact congrArg Frame.data (Function.update_of_ne hgf ..)
    have hanon : ∀ g, g < c.mem.freshPfn → (c.mem.frame g).anon = false → g ≠ f := fun g hg hfile hgf => by
      have hframe := hex.anon
      rw [← hgf, hF.frame g hg, hfile] at hframe
      cases hframe
    have hobject : ∀ o q, ∀ frame : Frame, ((c₁.mem.setFrame f frame).frame (c.mem.pageCache o q)).data =
        (c.mem.frame (c.mem.pageCache o q)).data := fun o q frame =>
      hother _ (h.sane.cache o q).1 (hanon _ (h.sane.cache o q).1 (h.sane.cache o q).2) frame
    refine ⟨fun m' p hne => content_congr (hF.mm m' hne) hF.pageCache (fun g b hg => ?_) ?_ fun o q => hobject o q _,
      fun o q => hobject o q _⟩
    · refine hother g (h.sane.pfn m' p g b hg) (fun hgf => ?_) _
      have hg' : (c₁.mem.mm m').pte p = .present f b := by rw [hF.mm m' hne, hg, hgf]
      exact hne (hex.only m' p b hg').1
    · exact hother _ h.sane.zero.1 (hanon _ h.sane.zero.1 h.sane.zero.2) _

/-! ### Steps -/

/-- A step of a process that keeps the invariant of the frames. -/
theorem World.Isolated.step_of (h : w.Isolated) (hp : w.Process t) (hkept : w'.Kept)
    (hsafe : w.core.SafeStep (w.task t).mm w'.core) (hfresh : w'.freshTask = w.freshTask)
    (hmm : ∀ u, (w'.task u).mm = (w.task u).mm) : w'.Isolated where
  kept := hkept
  safe := hsafe.safe
  tasks m hm := by
    have howner : (w'.core.mem.mm m).owner = (w.core.mem.mm m).owner := by
      by_cases hmt : m = (w.task t).mm
      · rw [hmt]
        exact hsafe.owner
      · rw [hsafe.mm m hmt]
    rw [howner, hfresh, hmm]
    exact h.tasks m (hsafe.freshMm ▸ hm)
  newcomers u hu := by
    rw [hfresh] at hu
    have hne : u ≠ (w.core.mem.mm (w.task t).mm).owner := fun he => by
      have hlt := hp.created
      have howner : (w.core.mem.mm (w.task t).mm).owner = t := hp.owner
      omega
    cases hlive : w'.core.reg.live u with
    | none => rfl
    | some id =>
      have := (hsafe.records u id hne hlive).1
      rw [h.newcomers u hu] at this
      cases this

/-- A step that changes the records of a process without a snapshot, or the ranges of one. -/
theorem World.Isolated.safe_records (h : w.Isolated) (hp : w.Process t) (hmem : w'.core.mem = w.core.mem)
    (hc : w'.core.reg.Coherent) (hothers : ∀ u, u ≠ t → w'.core.reg.live u = w.core.reg.live u)
    (hdata : ∀ u id, u ≠ t → w.core.reg.live u = some id → w'.core.reg.data id = w.core.reg.data id)
    (hpages : ∀ id, w'.core.reg.live t = some id → w.core.reg.live t = some id ∧
      (w'.core.reg.data id).ss.ssPages = (w.core.reg.data id).ss.ssPages) : w.core.SafeStep (w.task t).mm w'.core := by
  have howner : (w.core.mem.mm (w.task t).mm).owner = t := hp.owner
  refine h.safe.setReg hp.used hmem hc (fun u id hu hlive => ?_) fun id q sp hlive hsp => ?_
  · rw [howner] at hu
    rw [hothers u hu] at hlive
    exact ⟨hlive, hdata u id hu hlive⟩
  · rw [howner] at hlive ⊢
    obtain ⟨hlive₀, heq⟩ := hpages id hlive
    refine ⟨hlive₀, sp, ?_, fun ht => ht⟩
    unfold TaskData.getSnapshotPage at hsp ⊢
    rwa [← heq]

theorem World.Isolated.safe_addVmrange (h : w.Isolated) (hp : w.Process t) (f : RangeLists → RangeLists) :
    w.core.SafeStep (w.task t).mm (w.addVmrange env t f).core := by
  have hgiven := addVmrange_given env t h.kept.coherent f
  refine h.safe_records hp hgiven.mem hgiven.coherent (fun u _ => hgiven.live u)
    (fun u id hu hlive => (hgiven.data u id hlive).2 hu) fun id hlive => ?_
  rw [hgiven.live] at hlive
  obtain ⟨⟨ranges, hranges⟩, -⟩ := hgiven.data t id hlive
  exact ⟨hlive, by rw [hranges]⟩

theorem World.Isolated.safe_clean (h : w.Isolated) (hp : w.Process t) :
    w.core.SafeStep (w.task t).mm (w.cleanSnapshot t).core := by
  have hcleaned := cleanSnapshot_cleaned h.kept.coherent t
  refine h.safe_records hp hcleaned.mem hcleaned.coherent hcleaned.others (fun u id hu hlive => hcleaned.data id ?_) fun id hlive => ?_
  · rw [(getTaskData_spec (live_eq_some.mp hlive).1).2]
    exact hu
  · rw [live_of_getTaskData_none hcleaned.none] at hlive
    cases hlive

theorem World.Isolated.safe_take (h : w.Isolated) (hp : w.Process t) (config : Nat) :
    w.core.SafeStep (w.task t).mm (w.takeSnapshot env t config).1.core := by
  rcases takeSnapshot_cases env t config h.kept.coherent (h.kept.sorted t) with ⟨id, -, heq⟩ | ⟨-, -, heq⟩ | ⟨id, d₀, -, hT, -⟩
  · rw [heq]
    exact h.safe.refl _
  · rw [heq]
    exact h.safe_records hp rfl h.kept.coherent (fun _ _ => rfl) (fun _ _ _ _ => rfl) fun _ hlive => ⟨hlive, rfl⟩
  · exact hT.safe h.safe hp.owner hp.used

theorem World.Isolated.safe_restore (h : w.Isolated) (hp : w.Process t) (hreuse : env.ReuseSound)
    (hget : w.core.reg.getTaskData t = some id) (hback : w.WritesBack env t) :
    w.core.SafeStep (w.task t).mm (w.restoreSnapshot env t id).core := by
  rw [(restoreSnapshot_core env w t id).1]
  have howner : (w.core.mem.mm (w.task t).mm).owner = t := hp.owner
  exact h.safe.restore hp.used h.kept.mapped h.kept.records (howner.symm ▸ hget) hreuse (hback id hget)

theorem World.Process.congr (hp : w.Process t) (hfresh : w'.freshTask = w.freshTask) (hmm : (w'.task t).mm = (w.task t).mm)
    (hmem : w'.core.mem = w.core.mem) : w'.Process t := by
  obtain ⟨h1, h2, h3⟩ := hp
  unfold World.mmOf at h3
  refine ⟨by rw [hfresh]; exact h1, by rw [hmm, hmem]; exact h2, ?_⟩
  unfold World.mmOf
  rw [hmm, hmem, h3]

theorem World.Isolated.fork (h : w.Isolated) (hp : w.Process t) (hfork : ∀ page v, (w.mmOf t).vmaAt page = some v →
    v.shared = false → w.core.Trusted (w.task t).mm page → (w.mmOf t).pte page = .none) : (w.fork t).Isolated where
  kept := (h.kept.step .calm t .fork).1
  safe := h.safe.dupMm hp.used (h.newcomers _ le_rfl) (fun m hm => (h.tasks m hm).1.ne) hfork
  tasks m hm := by
    have hm : m < w.core.mem.freshMm + 1 := hm
    have howner : ((w.fork t).core.mem.mm m).owner =
        if m = w.core.mem.freshMm then w.freshTask else (w.core.mem.mm m).owner := by
      show ((w.core.mem.dupMm (w.task t).mm w.freshTask).mm m).owner = _
      rw [dupMm_mm]
      split
      · rfl
      · split
        · rename_i heq
          rw [heq]
        · rfl
    rw [howner]
    show _ < w.freshTask + 1 ∧ (Function.update w.task w.freshTask _ _).mm = m
    split
    · rename_i hchild
      rw [Function.update_self, hchild]
      exact ⟨Nat.lt_succ_self _, rfl⟩
    · obtain ⟨h1, h2⟩ := h.tasks m (by omega)
      rw [Function.update_of_ne h1.ne]
      exact ⟨by omega, h2⟩
  newcomers u hu := h.newcomers u (Nat.le_of_succ_le hu)

theorem World.Isolated.clean (h : w.Isolated) (hp : w.Process t) :
    (w.cleanSnapshot t).Isolated ∧ (w.cleanSnapshot t).Process t := by
  have hcleaned := cleanSnapshot_cleaned h.kept.coherent t
  have hfresh := (cleanSnapshot_tasks w t).freshTask
  have hmm : ∀ u, ((w.cleanSnapshot t).task u).mm = (w.task u).mm := fun u => by rw [hcleaned.task]
  exact ⟨h.step_of hp (h.kept.clean t) (h.safe_clean hp) hfresh hmm, hp.congr hfresh (hmm t) hcleaned.mem⟩

theorem World.Isolated.recoverThreads (h : w.Isolated) (hp : w.Process t) :
    (w.recoverThreadsSnapshot t).Isolated ∧ (w.recoverThreadsSnapshot t).Process t := by
  have hsame := recoverThreads_same w t
  have hfresh := (recoverThreads_tasks w t).freshTask
  refine ⟨h.step_of hp (h.kept.recoverThreads t) ?_ hfresh hsame.mm, hp.congr hfresh (hsame.mm t) (by rw [hsame.core])⟩
  rw [hsame.core]
  exact h.safe.refl _

theorem World.Isolated.doExitOrig (h : w.Isolated) (hp : w.Process t) : (w.doExitOrig t).Isolated := by
  refine h.step_of hp (h.kept.doExitOrig t) (h.safe.refl _) rfl fun u => ?_
  show (Function.update w.task t _ u).mm = _
  by_cases hu : u = t
  · rw [hu, Function.update_self]
  · rw [Function.update_of_ne hu]

theorem World.Isolated.exit (h : w.Isolated) (hp : w.Process t) : (w.doExitHook t).Isolated := by
  rcases doExitHook_cases w t with heq | heq <;> rw [heq]
  · exact h.doExitOrig hp
  · obtain ⟨hclean, hp'⟩ := h.clean hp
    exact hclean.doExitOrig hp'

theorem World.Isolated.restore (h : w.Isolated) (hp : w.Process t) (hreuse : env.ReuseSound)
    (hget : w.core.reg.getTaskData t = some id) (hback : w.WritesBack env t) : (w.restoreSnapshot env t id).Isolated :=
  h.step_of hp (h.kept.restoreSnapshot env t id).kept (h.safe_restore hp hreuse hget hback)
    (restoreSnapshot_tasks env w t id).freshTask (restoreSnapshot_core env w t id).2

/-- What one step keeps. -/
theorem World.Isolated.move {a : Move} (h : w.Isolated) (ha : ProcessMoves w a) (hiso : Isolates w a) : (w.move a).Isolated := by
  have hkept := (h.kept.step a.env a.tsk a.op).1
  have hlocal : ∀ {c' : Core}, w.Process a.tsk → w.core.SafeStep (w.task a.tsk).mm c' → w.move a = { w with core := c' } →
      (w.move a).Isolated := fun hp hsafe heq => by
    refine h.step_of hp hkept ?_ ?_ ?_ <;> rw [heq]
    · exact hsafe
    · exact fun _ => rfl
  cases ha with
  | read addr hp => exact hlocal hp (h.safe.readByte hp.used hiso) rfl
  | write addr byte hp hreuse => exact hlocal hp (h.safe.writeByte hp.used hreuse addr byte) rfl
  | discard addr hp => exact hlocal hp (h.safe.zapPage hp.used (pageBase addr)) rfl
  | fork hp => exact h.fork hp hiso
  | file op hp => exact h.step_of hp hkept (h.safe.refl _) rfl fun _ => rfl
  | exit hp => exact h.exit hp
  | @exitGroup env t hp hreuse =>
    show (w.sysExitGroupHook env t).Isolated
    rcases sysExitGroupHook_cases env w t with ⟨id, hget, -, -, heq⟩ | heq | heq <;> rw [heq]
    · exact h.restore hp hreuse hget hiso
    · obtain ⟨hclean, hp₁⟩ := h.clean hp
      obtain ⟨hkill, hp₂⟩ := hclean.recoverThreads hp₁
      exact hkill.exit hp₂
    · obtain ⟨hkill, hp₁⟩ := h.recoverThreads hp
      exact hkill.exit hp₁
  | @ioctl env t cmd hp hreuse =>
    have hrange : ∀ f, (if env.copyFromUser then (w.addVmrange env t f, (0 : Int)) else (w, -22)).1.Isolated := fun f => by
      split
      · have hgiven := addVmrange_given env t h.kept.coherent f
        exact h.step_of hp (h.kept.addVmrange env t f) (h.safe_addVmrange hp f) hgiven.freshTask fun u => by rw [hgiven.task]
      · exact h
    have htake : ∀ config, (w.takeSnapshot env t config).1.Isolated := fun config => by
      refine h.step_of hp (h.kept.take env t config) (h.safe_take hp config) (takeSnapshot_tasks h.kept config).freshTask fun u => ?_
      rcases takeSnapshot_cases env t config h.kept.coherent (h.kept.sorted t) with ⟨id, -, heq⟩ | ⟨-, -, heq⟩ | ⟨id, d₀, -, hT, -⟩
      · rw [heq]
      · rw [heq]
        rfl
      · rw [hT.task]
    cases cmd with
    | excludeVmrange start end_ => exact hrange _
    | includeVmrange start end_ => exact hrange _
    | take config => exact htake config
    | do_ => exact htake _
    | restore =>
      show (w.recoverSnapshot env t).1.Isolated
      unfold World.recoverSnapshot
      split
      · exact h
      · rename_i id hget
        exact h.restore hp hreuse hget hiso
    | clean => exact (h.clean hp).1

theorem World.Unsnapshotted.isolated (h : w.Unsnapshotted) : w.Isolated where
  kept := h.kept
  safe := by
    refine ⟨h.sane, h.kept.coherent, fun m m' hm hm' heq => ?_, fun u id p sp hlive => ?_, fun m page v _ _ => ?_⟩
    · rw [← (h.tasks m hm).2, heq, (h.tasks m' hm').2]
    · rw [h.idle u] at hlive
      cases hlive
    · intro id sp f b hlive
      rw [h.idle] at hlive
      cases hlive
  tasks := h.tasks
  newcomers u _ := h.idle u

/-! ### Runs -/

theorem isolated_of_run (h₀ : w₀.Unsnapshotted) (hrun : Run World.move (fun w a => ProcessMoves w a ∧ Isolates w a) w₀ w) :
    w.Isolated :=
  hrun.invariant h₀.isolated fun _ _ hw ha => hw.move ha.1 ha.2

/-- The hook makes a page writable in place for a frame that is anonymous and has no other user, and a write through a
    private mapping changes what no other process and no file holds. -/
theorem private_writes_isolated (h₀ : w₀.Unsnapshotted)
    (hrun : Run World.move (fun w a => ProcessMoves w a ∧ Isolates w a) w₀ w) (hp : w.Process t) :
    (∀ env page v f, (w.mmOf t).vmaAt page = some v → v.shared = false → (w.mmOf t).pte page = .present f false →
      (w.core.doWpPageHook env (w.task t).mm page).2 = true → w.core.mem.Exclusive (w.task t).mm page f) ∧
    ∀ env addr byte v, env.ReuseSound → (w.mmOf t).vmaAt (pageBase addr) = some v → v.shared = false →
      (∀ m p, m ≠ (w.task t).mm →
        (w.step env t (.write addr byte)).core.mem.content m p = w.core.mem.content m p) ∧
      ∀ o p, ((w.step env t (.write addr byte)).core.mem.frame (w.core.mem.pageCache o p)).data =
        (w.core.mem.frame (w.core.mem.pageCache o p)).data := by
  have h := isolated_of_run h₀ hrun
  refine ⟨fun env page v f hv hpriv hpte hskip => ?_, fun env addr byte v hreuse hv hpriv => ?_⟩
  · rcases (doWpPageHook_spec env (w.task t).mm page h.kept.coherent).2.2 with ⟨hno, -⟩ | ⟨-, -, htrust⟩
    · rw [hskip] at hno
      cases hno
    · exact armed_iff.mp (h.safe.armed _ page v hv hpriv) htrust f false hpte
  · exact h.safe.write_own hp.used hreuse hv hpriv

/-- A process whose page is written before a take. -/
def takenHeap : World := ((World.boot heapMm [1]).move ⟨.calm, 1, .write 4096 7⟩).move ⟨.calm, 1, .ioctl (.take 0)⟩

theorem heapMm_unsnapshotted : (World.boot heapMm [1]).Unsnapshotted where
  kept := heapMm_kept [1]
  sane := boot_sane [1] heapMm_vmas fun _ => rfl
  tasks m hm := by
    obtain rfl : m = 0 := Nat.lt_one_iff.mp hm
    exact ⟨by decide, rfl⟩
  idle _ := rfl

theorem private_writes_isolated_taken : (takenHeap.core.doWpPageHook .calm 0 4096).2 = true ∧
    takenHeap.core.mem.Exclusive 0 4096 10 := by
  have hrun : Run World.move (fun w a => ProcessMoves w a ∧ Isolates w a) (World.boot heapMm [1]) takenHeap :=
    .step (.step .start ⟨.write 4096 7 ⟨by decide, by decide, rfl⟩ calm_reuseSound, trivial⟩)
      ⟨.ioctl (.take 0) ⟨by decide, by decide, rfl⟩ calm_reuseSound, trivial⟩
  have hskip : (takenHeap.core.doWpPageHook .calm 0 4096).2 = true := by decide
  have hp : takenHeap.Process 1 := ⟨by decide, by decide, rfl⟩
  exact ⟨hskip, (private_writes_isolated heapMm_unsnapshotted hrun hp).1 .calm 4096 heapVma 10 (by decide) rfl (by decide) hskip⟩

/-- The process forks after the take. -/
def forkedHeap : World := takenHeap.move ⟨.calm, 1, .fork⟩

/-- What the process writes after that is what the child reads. -/
theorem private_writes_fails : Run World.move ProcessMoves (World.boot heapMm [1]) forkedHeap ∧ forkedHeap.Process 1 ∧
    (forkedHeap.core.doWpPageHook .calm 0 4096).2 = true ∧ ¬forkedHeap.core.mem.Exclusive 0 4096 10 ∧
    (forkedHeap.core.mem.content 1 4096) 0 = 7 ∧
    ((forkedHeap.step .calm 1 (.write 4096 8)).core.mem.content 1 4096) 0 = 8 := by
  refine ⟨?_, ⟨by decide, by decide, rfl⟩, by decide, fun h => ?_, by decide, by decide⟩
  · exact .step (.step (.step .start (.write 4096 7 ⟨by decide, by decide, rfl⟩ calm_reuseSound))
      (.ioctl (.take 0) ⟨by decide, by decide, rfl⟩ calm_reuseSound)) (.fork ⟨by decide, by decide, rfl⟩)
  · exact absurd (h.only 1 4096 false (by decide)).1 (by decide)

end
end AflSnapshot
