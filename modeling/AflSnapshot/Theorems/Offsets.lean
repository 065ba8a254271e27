import AflSnapshot.Theorems.OpenFiles

/-! # Files after a recovery that failed

`recover_files_snapshot` releases the table it has made where a file cannot be sought back, so that all threads keep
their tables. The files that were sought before stay where they were put (`SoughtBack`). -/

namespace AflSnapshot

/-- `restore_file_offset` moves the file: the recorded offset is valid, and the file takes a position. -/
def SeekMoves (env : Env) (fs : Files) (f : Nat) (offset : Int) : Prop :=
  0 ≤ offset ∧ (fs.file f).seekable = true ∧ 0 ≤ env.llseek f offset

/-- `restore_file_offset` fails: the file cannot be sought, or lands elsewhere. -/
def SeekFails (env : Env) (fs : Files) (f : Nat) (offset : Int) : Prop :=
  0 ≤ offset ∧ ¬((fs.file f).seekable = true ∧ env.llseek f offset = offset)

/-- The first `n` descriptors of `opened` were sought back, of which the last one failed. A file is where the last seek
    that moved it has put it, and where it was if none did. -/
structure SoughtBack (env : Env) (opened : Nat → Option Nat) (off : Nat → Int) (fs fs' : Files) (n : Nat) : Prop where
  passed : ∀ i f, i + 1 < n → opened i = some f → ¬SeekFails env fs f (off i)
  failed : ∃ f, opened (n - 1) = some f ∧ SeekFails env fs f (off (n - 1))
  moved : ∀ i < n, ∀ f, opened i = some f → SeekMoves env fs f (off i) →
    (∀ j, i < j → j < n → opened j = some f → ¬SeekMoves env fs f (off j)) →
    fs'.file f = { fs.file f with pos := env.llseek f (off i) }
  others : ∀ f, (∀ i < n, opened i = some f → ¬SeekMoves env fs f (off i)) → fs'.file f = fs.file f

section
variable {env : Env} {t id f g n fd : Nat} {w : World} {fs fs' : Files} {offsets : List Int} {fds : List (Option Nat)}
  {opened : Nat → Option Nat} {off : Nat → Int} {offset : Int}

/-! ### One file -/

variable (env offsets fs f fd) in
theorem restoreFileOffset_cases :
    offsets.getD fd (-1) < 0 ∧ Files.restoreFileOffset env offsets fs f fd = (fs, 0) ∨
    0 ≤ offsets.getD fd (-1) ∧ (fs.file f).seekable = false ∧ Files.restoreFileOffset env offsets fs f fd = (fs, -29) ∨
    0 ≤ offsets.getD fd (-1) ∧ (fs.file f).seekable = true ∧ env.llseek f (offsets.getD fd (-1)) < 0 ∧
      Files.restoreFileOffset env offsets fs f fd = (fs, env.llseek f (offsets.getD fd (-1))) ∨
    SeekMoves env fs f (offsets.getD fd (-1)) ∧ Files.restoreFileOffset env offsets fs f fd =
      ({ fs with file := Function.update fs.file f { fs.file f with pos := env.llseek f (offsets.getD fd (-1)) } },
        if env.llseek f (offsets.getD fd (-1)) = offsets.getD fd (-1) then 0 else 1) := by
  unfold Files.restoreFileOffset SeekMoves
  dsimp only
  generalize offsets.getD fd (-1) = offset
  by_cases hneg : offset < 0
  · rw [if_pos hneg]
    exact Or.inl ⟨hneg, rfl⟩
  rw [if_neg hneg]
  have hpos := not_lt.mp hneg
  refine Or.inr ?_
  by_cases hseek : (fs.file f).seekable = true
  swap
  · rw [if_neg hseek, if_pos (by decide)]
    exact Or.inl ⟨hpos, by simpa using hseek, rfl⟩
  rw [if_pos hseek]
  refine Or.inr ?_
  by_cases hres : env.llseek f offset < 0
  · rw [if_pos hres]
    exact Or.inl ⟨hpos, hseek, hres, rfl⟩
  · rw [if_neg hres]
    exact Or.inr ⟨⟨hpos, hseek, not_lt.mp hres⟩, rfl⟩

variable (env offsets fs f fd) in
theorem restoreFileOffset_fails :
    (Files.restoreFileOffset env offsets fs f fd).2 ≠ 0 ↔ SeekFails env fs f (offsets.getD fd (-1)) := by
  unfold SeekFails
  rcases restoreFileOffset_cases env f fd fs offsets with ⟨hneg, heq⟩ | ⟨hpos, hseek, heq⟩ | ⟨hpos, hseek, hres, heq⟩ |
    ⟨⟨hpos, hseek, -⟩, heq⟩ <;> rw [heq]
  · exact iff_of_false (fun h => h rfl) fun h => absurd h.1 (not_le.mpr hneg)
  · exact iff_of_true (show (-29 : Int) ≠ 0 by decide) ⟨hpos, by simp [hseek]⟩
  · exact iff_of_true hres.ne ⟨hpos, fun h => by omega⟩
  · rw [and_iff_right hpos, and_iff_right hseek]
    by_cases hback : env.llseek f (offsets.getD fd (-1)) = offsets.getD fd (-1)
    · rw [if_pos hback]
      exact iff_of_false (fun h => h rfl) (not_not.mpr hback)
    · rw [if_neg hback]
      exact iff_of_true (show (1 : Int) ≠ 0 by decide) hback

variable (env offsets fs f fd) in
theorem restoreFileOffset_moves (hmoves : SeekMoves env fs f (offsets.getD fd (-1))) :
    (Files.restoreFileOffset env offsets fs f fd).1.file f =
      { fs.file f with pos := env.llseek f (offsets.getD fd (-1)) } := by
  obtain ⟨hpos, hseek, hres⟩ := hmoves
  rcases restoreFileOffset_cases env f fd fs offsets with ⟨hneg, -⟩ | ⟨-, hno, -⟩ | ⟨-, -, hneg, -⟩ | ⟨-, heq⟩
  · exact absurd hneg (not_lt.mpr hpos)
  · rw [hseek] at hno
    cases hno
  · exact absurd hneg (not_lt.mpr hres)
  · rw [heq]
    exact Function.update_self ..

variable (env offsets fs f fd) in
theorem restoreFileOffset_stays (hstays : ¬SeekMoves env fs f (offsets.getD fd (-1))) :
    (Files.restoreFileOffset env offsets fs f fd).1 = fs := by
  rcases restoreFileOffset_cases env f fd fs offsets with ⟨-, heq⟩ | ⟨-, -, heq⟩ | ⟨-, -, -, heq⟩ | ⟨hmoves, -⟩
  · rw [heq]
  · rw [heq]
  · rw [heq]
  · exact absurd hmoves hstays

/-! ### The descriptors -/

theorem seekMoves_congr (h : (fs'.file f).seekable = (fs.file f).seekable) :
    SeekMoves env fs' f offset ↔ SeekMoves env fs f offset := by
  unfold SeekMoves
  rw [h]

theorem seekFails_congr (h : (fs'.file f).seekable = (fs.file f).seekable) :
    SeekFails env fs' f offset ↔ SeekFails env fs f offset := by
  unfold SeekFails
  rw [h]

/-- One more descriptor in front, which is not open. -/
theorem SoughtBack.skip (h : SoughtBack env (fun i => opened (i + 1)) (fun i => off (i + 1)) fs fs' n) (hn : 0 < n)
    (hclosed : opened 0 = none) : SoughtBack env opened off fs fs' (n + 1) where
  passed i f hi hf := by
    cases i with
    | zero => simp [hclosed] at hf
    | succ i => exact h.passed i f (by omega) hf
  failed := by
    have hlast := h.failed
    rwa [Nat.sub_add_cancel hn] at hlast
  moved i hi f hf hmoves hlast := by
    cases i with
    | zero => simp [hclosed] at hf
    | succ i => exact h.moved i (by omega) f hf hmoves fun j hij hj => hlast (j + 1) (by omega) (by omega)
  others f hf := h.others f fun i hi => hf (i + 1) (by omega)

/-- One more file in front, whose seek goes through. -/
theorem SoughtBack.seek {fs₁ : Files} (h : SoughtBack env (fun i => opened (i + 1)) (fun i => off (i + 1)) fs₁ fs' n)
    (hn : 0 < n) (hg : opened 0 = some g) (hpass : ¬SeekFails env fs g (off 0))
    (hseek : ∀ f, (fs₁.file f).seekable = (fs.file f).seekable) (hothers : ∀ f, f ≠ g → fs₁.file f = fs.file f)
    (hmoved : SeekMoves env fs g (off 0) → fs₁.file g = { fs.file g with pos := env.llseek g (off 0) })
    (hstays : ¬SeekMoves env fs g (off 0) → fs₁.file g = fs.file g) : SoughtBack env opened off fs fs' (n + 1) where
  passed i f hi hf := by
    cases i with
    | zero =>
      obtain rfl := Option.some.inj (hg.symm.trans hf)
      exact hpass
    | succ i => exact (seekFails_congr (hseek f)).not.mp (h.passed i f (by omega) hf)
  failed := by
    obtain ⟨f, hf, hfails⟩ := h.failed
    simp only [Nat.sub_add_cancel hn] at hf hfails
    exact ⟨f, hf, (seekFails_congr (hseek f)).mp hfails⟩
  moved i hi f hf hmoves hlast := by
    cases i with
    | zero =>
      obtain rfl := Option.some.inj (hg.symm.trans hf)
      rw [h.others g fun j hj hj' => (seekMoves_congr (hseek g)).not.mpr (hlast (j + 1) (by omega) (by omega) hj')]
      exact hmoved hmoves
    | succ i =>
      have hback := h.moved i (by omega) f hf ((seekMoves_congr (hseek f)).mpr hmoves) fun j hij hj hj' =>
        (seekMoves_congr (hseek f)).not.mpr (hlast (j + 1) (by omega) (by omega) hj')
      rw [hback]
      dsimp only
      rw [hseek f]
  others f hf := by
    rw [h.others f fun i hi hi' => (seekMoves_congr (hseek f)).not.mpr (hf (i + 1) (by omega) hi')]
    by_cases hfg : f = g
    · rw [hfg]
      exact hstays (hfg ▸ hf 0 (by omega) (hfg ▸ hg))
    · exact hothers f hfg

theorem SoughtBack.congr {fs₁ fs₁' : Files} (h : SoughtBack env opened off fs₁ fs₁' n) (hfs : fs₁.file = fs.file)
    (hfs' : fs'.file = fs₁'.file) : SoughtBack env opened off fs fs' n := by
  obtain ⟨hpassed, hfailed, hmoved, hothers⟩ := h
  unfold SeekFails at hpassed hfailed
  unfold SeekMoves at hmoved hothers
  rw [hfs] at hpassed hfailed hmoved hothers
  rw [← hfs'] at hmoved hothers
  exact ⟨hpassed, hfailed, hmoved, hothers⟩

variable (fds fd env fs offsets) in
/-- The loop over the descriptors, where it fails. -/
theorem iterate_fails (hres : (iterateFd (Files.restoreFileOffset env offsets) fds fd fs).2 ≠ 0) :
    ∃ n, 0 < n ∧ SoughtBack env (fun i => fds.getD i none) (fun i => offsets.getD (fd + i) (-1)) fs
      (iterateFd (Files.restoreFileOffset env offsets) fds fd fs).1 n := by
  induction fds generalizing fd fs with
  | nil => exact absurd rfl hres
  | cons x fds ih =>
    have hoff : (fun i => offsets.getD (fd + 1 + i) (-1)) = fun i => offsets.getD (fd + (i + 1)) (-1) := by
      funext i
      rw [show fd + 1 + i = fd + (i + 1) by omega]
    cases x with
    | none =>
      rw [iterateFd] at hres ⊢
      obtain ⟨n, hn, hback⟩ := ih _ _ hres
      rw [hoff] at hback
      exact ⟨n + 1, Nat.succ_pos n, SoughtBack.skip hback hn rfl⟩
    | some g =>
      rw [iterateFd] at hres ⊢
      obtain ⟨hsought, hothers, -⟩ := restoreFileOffset_spec env offsets fs g fd
      have hfails := restoreFileOffset_fails env g fd fs offsets
      have hmoves := restoreFileOffset_moves env g fd fs offsets
      have hstays := restoreFileOffset_stays env g fd fs offsets
      generalize Files.restoreFileOffset env offsets fs g fd = r at hres hsought hothers hfails hmoves hstays ⊢
      have hgone : ¬SeekMoves env fs g (offsets.getD fd (-1)) → r.1.file g = fs.file g := fun h => by rw [hstays h]
      by_cases hr : r.2 = 0
      · rw [if_pos hr] at hres ⊢
        obtain ⟨n, hn, hback⟩ := ih _ _ hres
        rw [hoff] at hback
        exact ⟨n + 1, Nat.succ_pos n, SoughtBack.seek hback hn rfl
          (hfails.not.mp (not_not.mpr hr)) hsought.seekable hothers hmoves hgone⟩
      · rw [if_neg hr]
        refine ⟨1, Nat.one_pos, fun i f hi => absurd hi (by omega), ⟨g, rfl, hfails.mp hr⟩,
          fun i hi f hf hm _ => ?_, fun f hf => ?_⟩
        · obtain rfl : i = 0 := by omega
          obtain rfl : g = f := Option.some.inj hf
          exact hmoves hm
        · by_cases hfg : f = g
          · rw [hfg]
            exact hgone (hfg ▸ hf 0 Nat.one_pos (congrArg some hfg.symm))
          · exact hothers f hfg

/-- A recovery of the files that fails leaves all tables as they are. It moves no file where there is no table to recover
    or none to be had; else it has moved the files that were sought back up to the descriptor where it fails. -/
theorem recoverFiles_failed (hres : (w.recoverFilesSnapshot env t id).2 ≠ 0) :
    (w.recoverFilesSnapshot env t id).1.task = w.task ∧
    (∀ n < w.fs.fresh, (w.recoverFilesSnapshot env t id).1.fs.filesStruct n = w.fs.filesStruct n) ∧
    ((w.recoverFilesSnapshot env t id).1 = w ∨
      ∃ copy offsets n, (w.core.reg.data id).ss.ssFiles = ⟨some copy, some offsets⟩ ∧ env.dupFd = true ∧ 0 < n ∧
        SoughtBack env (w.fs.fileAt copy) (fun fd => offsets.getD fd (-1)) w.fs (w.recoverFilesSnapshot env t id).1.fs n) := by
  unfold World.recoverFilesSnapshot at hres ⊢
  dsimp only at hres ⊢
  split at hres
  swap
  · exact absurd rfl hres
  rename_i hflag
  rw [if_pos hflag]
  split at hres
  swap
  · exact ⟨rfl, fun _ _ => rfl, Or.inl rfl⟩
  rename_i copy offsets hss
  rcases dupFd_eq env w.fs copy with heq | ⟨fs₁, heq, -, hfile, hfds, hothers⟩
  · rw [heq]
    exact ⟨rfl, fun _ _ => rfl, Or.inl rfl⟩
  have hdup : env.dupFd = true := by
    by_contra hno
    unfold Files.dupFd at heq
    rw [if_neg hno] at heq
    cases heq
  rw [heq] at hres ⊢
  dsimp only at hres ⊢
  have hsought := iterate_sought env offsets (fs₁.filesStruct w.fs.fresh).fds 0 fs₁
  have hfails := iterate_fails env 0 fs₁ offsets (fs₁.filesStruct w.fs.fresh).fds
  generalize iterateFd (Files.restoreFileOffset env offsets) (fs₁.filesStruct w.fs.fresh).fds 0 fs₁ = r
    at hres hsought hfails ⊢
  by_cases hr : r.2 = 0
  · rw [if_pos hr] at hres
    exact absurd rfl hres
  rw [if_neg hr]
  refine ⟨rfl, fun n hn => ?_, Or.inr ?_⟩
  · rw [show (r.1.putFilesStruct w.fs.fresh).filesStruct n = r.1.filesStruct n from Function.update_of_ne hn.ne ..,
      hsought.filesStruct, hothers n hn.ne]
  · obtain ⟨n, hn, hback⟩ := hfails hr
    refine ⟨copy, offsets, n, hss, hdup, hn, ?_⟩
    have hopen : (fun i => (fs₁.filesStruct w.fs.fresh).fds.getD i none) = w.fs.fileAt copy := by
      funext i
      rw [hfds, getD_resizeFds]
      rfl
    simp only [Nat.zero_add] at hback
    rw [hopen] at hback
    exact hback.congr hfile rfl

/-- A process with two files open. -/
def twoFiles : World := oneFile.move ⟨.calm, 1, .file (.open_ ⟨0, true⟩)⟩

/-- Both files are moved after a take. -/
def bothMoved : World :=
  (((twoFiles.takeSnapshot .calm 1 aflSnapshotFds).1).move ⟨.calm, 1, .file (.lseek 0 5)⟩).move
    ⟨.calm, 1, .file (.lseek 1 7)⟩

/-- The second file cannot be sought. -/
def Env.stuck : Env := { Env.calm with llseek := fun f offset => if f = 1 then -5 else offset }

/-- The recovery fails at the second file, and leaves the first one where the seek has put it. -/
theorem recoverFiles_half : (bothMoved.recoverFilesSnapshot .stuck 1 0).2 ≠ 0 ∧
    (bothMoved.fs.file 0).pos = 5 ∧ ((bothMoved.recoverFilesSnapshot .stuck 1 0).1.fs.file 0).pos = 0 := by
  decide

theorem recoverFiles_failed_half :
    (bothMoved.recoverFilesSnapshot .stuck 1 0).2 ≠ 0 ∧ (bothMoved.recoverFilesSnapshot .stuck 1 0).1.task = bothMoved.task ∧
      ((bothMoved.recoverFilesSnapshot .stuck 1 0).1.fs.file 1).pos = 7 := by
  have hres : (bothMoved.recoverFilesSnapshot .stuck 1 0).2 ≠ 0 := by decide
  obtain ⟨htask, -, -⟩ := recoverFiles_failed hres
  exact ⟨hres, htask, by decide⟩

end
end AflSnapshot
