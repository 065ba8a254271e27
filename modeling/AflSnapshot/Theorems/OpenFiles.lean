import AflSnapshot.Theorems.Reachable

/-! # The descriptors of a process

With `AFL_SNAPSHOT_FDS` the copied table is no task's table, so that no system call changes it, and its offsets were
written for all of its descriptors (`CopyHeld`). -/

namespace AflSnapshot
open Runs

/-- The copied table `copy` and its offsets are those that the take of `t` in `w₀` made. -/
structure CopyHeld (t : Nat) (w₀ w : World) (copy : Nat) (offsets : List Int) : Prop where
  fresh : copy < w.fs.fresh
  own : ∀ u, (w.task u).files ≠ copy
  fds : ∀ fd, w.fs.fileAt copy fd = w₀.fs.fileAt (w₀.task t).files fd
  room : ∀ fd f, w.fs.fileAt copy fd = some f → fd < offsets.length
  saved : ∀ fd f, w.fs.fileAt copy fd = some f → offsets.getD fd (-1) = w₀.fs.offsetOf f

structure FilesHeld (t id : Nat) (w₀ w : World) : Prop where
  kept : w.Kept
  record : w.core.reg.getTaskData t = some id
  config : hasFlag (w.core.reg.data id).config aflSnapshotFds = true
  copy : ∀ copy offsets, (w.core.reg.data id).ss.ssFiles = ⟨some copy, some offsets⟩ → CopyHeld t w₀ w copy offsets

/-- The file calls of all tasks, and the restores by one. -/
inductive FileMoves (t : Nat) : World → Move → Prop
  | call {w : World} {env : Env} {u : Nat} (op : FileOp) : FileMoves t w ⟨env, u, .file op⟩
  | restore {w : World} (env : Env) : FileMoves t w ⟨env, t, .ioctl .restore⟩

/-- In a restore by the task `recover_files_snapshot` goes through. -/
def World.FilesBack (env : Env) (t : Nat) (w : World) : Prop :=
  ∃ id, w.core.reg.getTaskData t = some id ∧ ((w.beforeFiles env t id).recoverFilesSnapshot env t id).2 = 0

section
variable {env : Env} {t u id config copy : Nat} {w w' w₀ w₁ : World} {d₀ : TaskData} {offsets : List Int}

theorem fileAt_congr {fs fs' : Files} {n : Nat} (h : (fs'.filesStruct n).fds = (fs.filesStruct n).fds) (fd : Nat) :
    fs'.fileAt n fd = fs.fileAt n fd := by
  unfold Files.fileAt
  rw [h]

/-! ### Take -/

/-- What the take of the files makes of the record. -/
theorem takeFiles_copied (env : Env) (fs : Files) (n : Nat) (d : TaskData) (hcfg : hasFlag d.config aflSnapshotFds = true)
    (hnone : d.ss.ssFiles = ⟨none, none⟩)
    (hcopy : (fs.takeFilesSnapshot env n d).1.2 = ⟨some copy, some offsets⟩) :
    copy = fs.fresh ∧ (fs.takeFilesSnapshot env n d).1.1.fresh = fs.fresh + 1 ∧
      (∀ fd, (fs.takeFilesSnapshot env n d).1.1.fileAt copy fd = fs.fileAt n fd) ∧
      ∀ fd f, fs.fileAt n fd = some f → fd < offsets.length ∧ offsets.getD fd (-1) = fs.offsetOf f := by
  unfold Files.takeFilesSnapshot at hcopy ⊢
  rw [if_pos hcfg] at hcopy ⊢
  rcases dupFd_eq env fs n with hdup | ⟨fs', hdup, hfresh, hfile, hfds, hothers⟩ <;> rw [hdup] at hcopy ⊢ <;>
    dsimp only at hcopy ⊢
  · rw [hnone] at hcopy
    cases hcopy
  by_cases halloc : env.kmallocOffsets = true
  swap
  · rw [if_neg halloc, hnone] at hcopy
    cases hcopy
  rw [if_pos halloc] at hcopy ⊢
  obtain ⟨hzero, hlen, -, hsaved⟩ := iterate_save fs'
    (show 0 + (fs'.filesStruct fs.fresh).fds.length ≤ (List.replicate (fs'.filesStruct fs.fresh).fds.length (-1)).length by
      rw [List.length_replicate, Nat.zero_add])
  rw [if_pos hzero] at hcopy ⊢
  obtain ⟨hc, ho⟩ := OpenFilesSnapshot.mk.inj hcopy
  obtain rfl := Option.some.inj hc
  obtain rfl := Option.some.inj ho
  have hopen : ∀ fd, fs'.fileAt fs.fresh fd = fs.fileAt n fd := fun fd => by
    unfold Files.fileAt
    rw [hfds, getD_resizeFds]
  refine ⟨rfl, hfresh, hopen, fun fd f hf => ⟨?_, ?_⟩⟩
  · rw [hlen, List.length_replicate]
    rw [← hopen] at hf
    by_contra hge
    unfold Files.fileAt at hf
    rw [List.getD_eq_default _ _ (Nat.le_of_not_lt hge)] at hf
    cases hf
  · have := hsaved fd f ((hopen fd).trans hf)
    rw [Nat.zero_add] at this
    rw [this]
    unfold Files.offsetOf
    rw [hfile]

/-- The record that a take works on has no files. -/
theorem Took.noFiles (hT : Took env t config w₀ id d₀ w₁) (h₀ : w₀.Kept) : d₀.ss.ssFiles = ⟨none, none⟩ := by
  rcases hT.old with ⟨-, hold⟩ | ⟨-, hnew⟩
  · have hkept := (h₀.records id).noFiles
    rw [hold] at hkept
    exact hkept hT.fresh.2.1
  · rw [hnew]
    rfl

/-- Nor has it any when they are to be taken. -/
theorem Took.taking_noFiles (hT : Took env t config w₀ id d₀ w₁) (h₀ : w₀.Kept) :
    (w₀.taking env t config d₀).1.1.ss.ssFiles = ⟨none, none⟩ := by
  have hblank : (w₀.initialized t config d₀).Blank := hT.fresh.2.2
  obtain ⟨done, rest, x, s, -, hs, hres, -⟩ := take_taken env.take (h₀.sorted t) hblank
  have hres : (w₀.taking env t config d₀).1 = (s.data, s.mm) := hres
  rw [hres, hs.same]
  exact hT.noFiles h₀

theorem Took.filesHeld (hT : Took env t config w₀ id d₀ w₁) (h₀ : w₀.Kept) (hcfg : hasFlag config aflSnapshotFds = true) :
    FilesHeld t id w₀ w₁ := by
  have hblank : (w₀.initialized t config d₀).Blank := hT.fresh.2.2
  obtain ⟨done, rest, x, s, -, hs, hres, -⟩ := take_taken env.take (h₀.sorted t) hblank
  have hres : (w₀.taking env t config d₀).1 = (s.data, s.mm) := hres
  have hdata := hT.data
  have hfs := hT.fs
  rw [hres] at hdata hfs
  have hconfig : s.data.config = config := by rw [hs.same]; rfl
  have hnone : s.data.ss.ssFiles = ⟨none, none⟩ := by
    have := hT.taking_noFiles h₀
    rwa [hres] at this
  refine ⟨hT.kept h₀, (live_eq_some.mp hT.live).1, ?_, fun copy offsets hcopy => ?_⟩
  · rw [hdata]
    show hasFlag s.data.config aflSnapshotFds = true
    rw [hconfig, hcfg]
  · rw [hdata] at hcopy
    obtain ⟨rfl, hfresh, hfds, hsaved⟩ := takeFiles_copied env w₀.fs (w₀.task t).files s.data (by rw [hconfig, hcfg]) hnone hcopy
    rw [← hfs] at hfresh hfds
    refine ⟨by omega, fun u => ?_, hfds, fun fd f hf => (hsaved fd f ((hfds fd).symm.trans hf)).1,
      fun fd f hf => (hsaved fd f ((hfds fd).symm.trans hf)).2⟩
    rw [hT.task]
    exact (h₀.tables u).ne

/-! ### Steps -/

theorem fds_install (fs : Files) (n fd : Nat) (file : Option Nat) {i : Nat} (hi : i ≠ n) :
    (fs.install n fd file).filesStruct i = fs.filesStruct i := Function.update_of_ne hi ..

/-- A system call changes no table but that of its task. -/
theorem fds_call (fs : Files) (n : Nat) (op : FileOp) {i : Nat} (hi : i ≠ n) :
    (fs.call n op).filesStruct i = fs.filesStruct i := by
  have hseek : ∀ fd pos, (fs.seek n fd pos).filesStruct i = fs.filesStruct i := fun fd pos => by
    unfold Files.seek
    split
    · split <;> rfl
    · rfl
  cases op with
  | open_ file => exact fds_install fs n _ _ hi
  | close fd => exact fds_install fs n _ _ hi
  | dup fd =>
    unfold Files.call
    dsimp only
    split
    · exact fds_install fs n _ _ hi
    · rfl
  | dup2 fd new =>
    unfold Files.call
    dsimp only
    split
    · exact fds_install fs n _ _ hi
    · rfl
  | read fd pos => exact hseek fd pos
  | write fd pos => exact hseek fd pos
  | lseek fd pos => exact hseek fd pos

theorem CopyHeld.congr (h : CopyHeld t w₀ w copy offsets) (hfresh : w.fs.fresh ≤ w'.fs.fresh)
    (hfds : (w'.fs.filesStruct copy).fds = (w.fs.filesStruct copy).fds) (hown : ∀ u, (w'.task u).files ≠ copy) :
    CopyHeld t w₀ w' copy offsets where
  fresh := lt_of_lt_of_le h.fresh hfresh
  own := hown
  fds fd := (fileAt_congr hfds fd).trans (h.fds fd)
  room fd f hf := h.room fd f ((fileAt_congr hfds fd).symm.trans hf)
  saved fd f hf := h.saved fd f ((fileAt_congr hfds fd).symm.trans hf)

theorem FilesHeld.call (h : FilesHeld t id w₀ w) (op : FileOp) : FilesHeld t id w₀ (w.step env u (.file op)) where
  kept := (h.kept.step env u (.file op)).1
  record := h.record
  config := h.config
  copy copy offsets hcopy := by
    have hc := h.copy copy offsets hcopy
    refine hc.congr (fresh_call ..).ge ?_ hc.own
    rw [show (w.step env u (.file op)).fs = w.fs.call (w.task u).files op from rfl, fds_call _ _ _ (hc.own u).symm]

theorem FilesHeld.restore (h : FilesHeld t id w₀ w) : FilesHeld t id w₀ (w.step env t (.ioctl .restore)) := by
  rw [step_restore h.record]
  have hr := h.kept.restoreSnapshot env t id
  have hdata := hr.steady.data id
  refine ⟨hr.kept, (hr.steady.getTaskData t).trans h.record, ?_, fun copy offsets hcopy => ?_⟩
  · rw [hdata]
    exact h.config
  · rw [hdata] at hcopy
    have hc := h.copy copy offsets hcopy
    refine hc.congr hr.files.fresh (hr.files.fds copy hc.fresh) fun v => ?_
    rcases hr.files.files v with hv | ⟨hv, -⟩
    · exact fun he => hc.own v (hv.symm.trans he)
    · exact fun he => hc.fresh.ne (he.symm.trans hv)

theorem filesHeld_of_run (h : Run World.move (FileMoves t) w₁ w) (h₁ : FilesHeld t id w₀ w₁) : FilesHeld t id w₀ w :=
  h.invariant h₁ fun w a hw ha => by
    cases ha with
    | call op => exact hw.call op
    | restore env => exact hw.restore

/-- After a restore that goes through, the threads that share the task's table have the table of the take, and the files
    that told their offset then are back there. The offsets are only read where they were written. -/
theorem restore_reopens (h₀ : w₀.Kept) (hcfg : hasFlag config aflSnapshotFds = true)
    (htake : w₀.takeSnapshot env t config = (w₁, 1)) (hrun : Run World.move (FileMoves t) w₁ w) :
    (∀ env, w.FilesBack env t →
      (∀ u ∈ w.threads (w.task t).groupLeader, (w.task u).files = (w.task t).files → ∀ fd,
        (w.step env t (.ioctl .restore)).fs.fileAt ((w.step env t (.ioctl .restore)).task u).files fd =
          w₀.fs.fileAt (w₀.task t).files fd) ∧
      ∀ fd f, w₀.fs.fileAt (w₀.task t).files fd = some f → 0 ≤ w₀.fs.offsetOf f →
        ((w.step env t (.ioctl .restore)).fs.file f).pos = w₀.fs.offsetOf f) ∧
    ∀ d copy offsets, w.recordOf t = some d → d.ss.ssFiles = ⟨some copy, some offsets⟩ →
      ∀ env fs' restored, w.fs.dupFd env copy = (fs', some restored) → ∀ fd f, fs'.fileAt restored fd = some f →
        fd < offsets.length ∧ w₀.fs.fileAt (w₀.task t).files fd = some f := by
  obtain ⟨id, hheld⟩ : ∃ id, FilesHeld t id w₀ w := by
    rcases takeSnapshot_cases env t config h₀.coherent (h₀.sorted t) with ⟨id, -, heq⟩ | ⟨-, -, heq⟩ | ⟨id, d₀, -, hT, -⟩
    · exact absurd (show (1 : Int) = 0 from congrArg Prod.snd (htake.symm.trans heq)) (by decide)
    · exact absurd (show (1 : Int) = 0 from congrArg Prod.snd (htake.symm.trans heq)) (by decide)
    · rw [htake] at hT
      exact ⟨id, filesHeld_of_run hrun (hT.filesHeld h₀ hcfg)⟩
  refine ⟨?_, fun d copy offsets hd hcopy env fs' restored hdup fd f hf => ?_⟩
  · rintro env ⟨i, hi, hback⟩
    obtain rfl : id = i := Option.some.inj (hheld.record.symm.trans hi)
    obtain ⟨hsteady, hsame⟩ := beforeFiles_spec env t id hheld.kept
    have htables : ∀ u, ((w.beforeFiles env t id).task u).files < (w.beforeFiles env t id).fs.fresh := fun u => by
      rw [hsame.files, hsame.fs]
      exact hheld.kept.tables u
    have hdata := hsteady.data id
    have hflag : hasFlag ((w.beforeFiles env t id).core.reg.data id).config aflSnapshotFds = true := by
      rw [hdata]
      exact hheld.config
    obtain ⟨copy, offsets, hcopy, htable, hpos⟩ := recoverFiles_success htables hflag hback
    rw [hdata] at hcopy
    have hc := hheld.copy copy offsets hcopy
    rw [step_restore hheld.record, restoreSnapshot_eq]
    rw [hsame.threads, hsame.groupLeader, hsame.fs] at htable
    rw [hsame.fs] at hpos
    refine ⟨fun u hu hshared fd => ?_, fun fd f hf hoff => ?_⟩
    · refine (htable u hu ?_ fd).trans (hc.fds fd)
      rw [hsame.files, hsame.files]
      exact hshared
    · exact hpos w₀.fs.offsetOf hc.saved fd f ((hc.fds fd).trans hf) hoff
  · have hd : some (w.core.reg.data id) = some d := by
      rw [← hd, World.recordOf, hheld.record]
      rfl
    obtain rfl := Option.some.inj hd
    have hc := hheld.copy copy offsets hcopy
    have hf : w.fs.fileAt copy fd = some f := by
      rcases dupFd_eq env w.fs copy with hnone | ⟨fs₁, hsome, -, -, hfds, -⟩
      · rw [hnone] at hdup
        cases hdup
      · rw [hsome] at hdup
        cases hdup
        unfold Files.fileAt at hf ⊢
        rwa [hfds, getD_resizeFds] at hf
    exact ⟨hc.room fd f hf, (hc.fds fd).symm.trans hf⟩

/-- A process with one file open. -/
def oneFile : World := (World.boot heapMm [1]).move ⟨.calm, 1, .file (.open_ ⟨0, true⟩)⟩

/-- The file is moved and closed after a take. -/
def movedAndClosed : World :=
  (((oneFile.takeSnapshot .calm 1 aflSnapshotFds).1).move ⟨.calm, 1, .file (.lseek 0 5)⟩).move
    ⟨.calm, 1, .file (.close 0)⟩

theorem restore_reopens_closed :
    (movedAndClosed.step .calm 1 (.ioctl .restore)).fs.fileAt
        ((movedAndClosed.step .calm 1 (.ioctl .restore)).task 1).files 0 = oneFile.fs.fileAt (oneFile.task 1).files 0 ∧
      ((movedAndClosed.step .calm 1 (.ioctl .restore)).fs.file 0).pos = oneFile.fs.offsetOf 0 := by
  have hopen : oneFile.Kept := ((heapMm_kept [1]).step .calm 1 (.file (.open_ ⟨0, true⟩))).1
  have htake : oneFile.takeSnapshot .calm 1 aflSnapshotFds = ((oneFile.takeSnapshot .calm 1 aflSnapshotFds).1, 1) :=
    Prod.ext rfl (by decide)
  have hrun : Run World.move (FileMoves 1) (oneFile.takeSnapshot .calm 1 aflSnapshotFds).1 movedAndClosed :=
    .step (.step .start (.call (.lseek 0 5))) (.call (.close 0))
  have hback : movedAndClosed.FilesBack .calm 1 := ⟨0, by decide, by decide⟩
  obtain ⟨hfds, hpos⟩ := (restore_reopens hopen (by decide) htake hrun).1 .calm hback
  exact ⟨hfds 1 (by decide) rfl 0, hpos 0 0 (by decide) (by decide)⟩

end
end AflSnapshot
