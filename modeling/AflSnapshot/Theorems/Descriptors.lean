import AflSnapshot.Lib.Runs
import AflSnapshot.Theorems.Commands
import AflSnapshot.Theorems.Steady
import Mathlib.Data.List.GetD
import Mathlib.Data.List.Induction

/-! # The snapshot of the open files

The copied table is no task's table, so that no system call changes it, and its offsets were written for all of its
descriptors. A restore that succeeds gives the process a copy of it, with every file at its offset. -/

namespace AflSnapshot
open Runs

/-! ### Tables -/

section
variable {fds : List (Option Nat)} {n fd : Nat} {env : Env} {fs fs' : Files} {offsets : List Int}

/-- An empty end of a table makes no difference. -/
theorem getD_append_none {l₁ l₂ : List (Option Nat)} (h : ∀ x ∈ l₂, x = none) :
    (l₁ ++ l₂).getD fd none = l₁.getD fd none := by
  rcases Nat.lt_or_ge fd l₁.length with hlt | hge
  · exact List.getD_append _ _ _ _ hlt
  · rw [List.getD_append_right _ _ _ _ hge, List.getD_eq_default _ _ hge, List.getD_eq_getElem?_getD]
    cases hi : l₂[fd - l₁.length]? with
    | none => rfl
    | some x => exact h x (List.mem_of_getElem? hi)

theorem getD_resizeFds (size : Nat) (fds : List (Option Nat)) (fd : Nat) :
    (resizeFds size fds).getD fd none = fds.getD fd none := by
  unfold resizeFds
  dsimp only
  rw [getD_append_none fun x hx => List.eq_of_mem_replicate hx]
  induction fds using List.reverseRecOn with
  | nil => rw [List.rdropWhile_nil]
  | append_singleton l x ih =>
    rw [List.rdropWhile_concat]
    split
    · rename_i hx
      rw [ih, getD_append_none fun y hy => ?_]
      rw [List.mem_singleton.mp hy]
      exact Option.isNone_iff_eq_none.mp hx
    · rfl

/-! ### Offsets -/

/-- What `vfs_llseek(file, 0, SEEK_CUR)` returns. -/
def Files.offsetOf (fs : Files) (f : Nat) : Int := if (fs.file f).seekable then (fs.file f).pos else -29

/-- Every descriptor gets its offset, and nothing below the first one is written. -/
theorem iterate_save (fs : Files) (hroom : fd + fds.length ≤ offsets.length) :
    (iterateFd fs.saveFileOffset fds fd offsets).2 = 0 ∧
      (iterateFd fs.saveFileOffset fds fd offsets).1.length = offsets.length ∧
      (∀ j, j < fd → (iterateFd fs.saveFileOffset fds fd offsets).1.getD j (-1) = offsets.getD j (-1)) ∧
      ∀ i f, fds.getD i none = some f →
        (iterateFd fs.saveFileOffset fds fd offsets).1.getD (fd + i) (-1) = fs.offsetOf f := by
  induction fds generalizing fd offsets with
  | nil => exact ⟨rfl, rfl, fun _ _ => rfl, fun i f hi => by simp at hi⟩
  | cons x fds ih =>
    rw [List.length_cons] at hroom
    cases x with
    | none =>
      rw [iterateFd]
      obtain ⟨h1, h2, h3, h4⟩ := ih (show fd + 1 + fds.length ≤ offsets.length by omega)
      refine ⟨h1, h2, fun j hj => h3 j (Nat.lt_succ_of_lt hj), fun i f hi => ?_⟩
      cases i with
      | zero => simp at hi
      | succ i =>
        rw [show fd + (i + 1) = fd + 1 + i by omega]
        exact h4 i f (by simpa using hi)
    | some g =>
      rw [iterateFd]
      simp only [Files.saveFileOffset, if_true]
      have hlen : (offsets.set fd (fs.offsetOf g)).length = offsets.length := List.length_set
      have hset : ∀ j, (offsets.set fd (fs.offsetOf g)).getD j (-1) =
          if fd = j then fs.offsetOf g else offsets.getD j (-1) := fun j => by
        rw [List.getD_eq_getElem?_getD, List.getD_eq_getElem?_getD, List.getElem?_set]
        split
        · rename_i hj
          rw [if_pos (by omega)]
          rfl
        · rfl
      obtain ⟨h1, h2, h3, h4⟩ := ih (show fd + 1 + fds.length ≤ (offsets.set fd (fs.offsetOf g)).length by omega)
      refine ⟨h1, h2.trans hlen, fun j hj => ?_, fun i f hi => ?_⟩
      · refine (h3 j (Nat.lt_succ_of_lt hj)).trans ?_
        rw [hset, if_neg (by omega)]
      · cases i with
        | zero =>
          obtain rfl : g = f := by simpa using hi
          refine (h3 fd (Nat.lt_succ_self fd)).trans ?_
          rw [hset, if_pos rfl]
        | succ i =>
          rw [show fd + (i + 1) = fd + 1 + i by omega]
          exact h4 i f (by simpa using hi)

/-- Only positions of files change. -/
structure Files.Sought (fs fs' : Files) : Prop where
  filesStruct : fs'.filesStruct = fs.filesStruct
  fresh : fs'.fresh = fs.fresh
  seekable : ∀ f, (fs'.file f).seekable = (fs.file f).seekable

theorem Files.Sought.trans {fs'' : Files} (h₁ : fs.Sought fs') (h₂ : fs'.Sought fs'') : fs.Sought fs'' :=
  ⟨h₂.filesStruct.trans h₁.filesStruct, h₂.fresh.trans h₁.fresh, fun f => (h₂.seekable f).trans (h₁.seekable f)⟩

/-- A file whose saved offset is valid is put there, or the call fails. -/
theorem restoreFileOffset_spec (env : Env) (offsets : List Int) (fs : Files) (g fd : Nat) :
    fs.Sought (Files.restoreFileOffset env offsets fs g fd).1 ∧
      (∀ f, f ≠ g → (Files.restoreFileOffset env offsets fs g fd).1.file f = fs.file f) ∧
      ((Files.restoreFileOffset env offsets fs g fd).2 = 0 → 0 ≤ offsets.getD fd (-1) →
        ((Files.restoreFileOffset env offsets fs g fd).1.file g).pos = offsets.getD fd (-1)) := by
  unfold Files.restoreFileOffset
  dsimp only
  generalize offsets.getD fd (-1) = offset
  by_cases hneg : offset < 0
  · rw [if_pos hneg]
    exact ⟨⟨rfl, rfl, fun _ => rfl⟩, fun _ _ => rfl, fun _ h => absurd h (by omega)⟩
  rw [if_neg hneg]
  generalize (if (fs.file g).seekable = true then env.llseek g offset else -29) = res
  by_cases hres : res < 0
  · rw [if_pos hres]
    exact ⟨⟨rfl, rfl, fun _ => rfl⟩, fun _ _ => rfl, fun h => absurd h (by show res ≠ 0; omega)⟩
  rw [if_neg hres]
  refine ⟨⟨rfl, rfl, fun f => ?_⟩, fun f hf => Function.update_of_ne hf .., fun h _ => ?_⟩
  · show (Function.update fs.file g _ f).seekable = _
    by_cases hf : f = g
    · rw [hf, Function.update_self]
    · rw [Function.update_of_ne hf]
  · show (Function.update fs.file g _ g).pos = _
    rw [Function.update_self]
    by_contra hne
    rw [if_neg hne] at h
    exact absurd (show (1 : Int) = 0 from h) (by decide)

theorem iterate_sought (env : Env) (offsets : List Int) (fds : List (Option Nat)) (fd : Nat) (fs : Files) :
    fs.Sought (iterateFd (Files.restoreFileOffset env offsets) fds fd fs).1 := by
  induction fds generalizing fd fs with
  | nil => exact ⟨rfl, rfl, fun _ => rfl⟩
  | cons x fds ih =>
    cases x with
    | none => exact ih (fd + 1) fs
    | some g =>
      obtain ⟨h1, -, -⟩ := restoreFileOffset_spec env offsets fs g fd
      rw [iterateFd]
      split
      · exact h1.trans (ih (fd + 1) _)
      · exact h1

variable (fds fd) in
/-- When all calls went through, every file of the table whose saved offset is valid is there. Descriptors of one file
    have the same offset saved. -/
theorem iterate_restore (env : Env) {off : Nat → Int} (fs : Files)
    (hoff : ∀ i f, fds.getD i none = some f → offsets.getD (fd + i) (-1) = off f) :
    (∀ f, some f ∉ fds → (iterateFd (Files.restoreFileOffset env offsets) fds fd fs).1.file f = fs.file f) ∧
      ((iterateFd (Files.restoreFileOffset env offsets) fds fd fs).2 = 0 → ∀ f, some f ∈ fds → 0 ≤ off f →
        ((iterateFd (Files.restoreFileOffset env offsets) fds fd fs).1.file f).pos = off f) := by
  induction fds generalizing fd fs with
  | nil => exact ⟨fun _ _ => rfl, fun _ f hf => by cases hf⟩
  | cons x fds ih =>
    have hoff' : ∀ i f, fds.getD i none = some f → offsets.getD (fd + 1 + i) (-1) = off f := fun i f hi => by
      rw [show fd + 1 + i = fd + (i + 1) by omega]
      exact hoff (i + 1) f (by simpa using hi)
    cases x with
    | none =>
      rw [iterateFd]
      obtain ⟨h2, h3⟩ := ih (fd + 1) fs hoff'
      refine ⟨fun f hf => h2 f fun hin => hf (List.mem_cons_of_mem _ hin), fun hz f hf => h3 hz f ?_⟩
      rcases List.mem_cons.mp hf with hf | hf
      · cases hf
      · exact hf
    | some g =>
      rw [iterateFd]
      obtain ⟨-, h2, h3⟩ := restoreFileOffset_spec env offsets fs g fd
      have hg : offsets.getD fd (-1) = off g := hoff 0 g rfl
      rw [hg] at h3
      generalize Files.restoreFileOffset env offsets fs g fd = r at h2 h3
      by_cases hr : r.2 = 0
      · rw [if_pos hr]
        obtain ⟨h5, h6⟩ := ih (fd + 1) r.1 hoff'
        refine ⟨fun f hf => ?_, fun hz f hf hpos => ?_⟩
        · rw [List.mem_cons, not_or] at hf
          rw [h5 f hf.2, h2 f fun he => hf.1 (congrArg some he)]
        · by_cases hin : some f ∈ fds
          · exact h6 hz f hin hpos
          · rcases List.mem_cons.mp hf with hf | hf
            · obtain rfl := Option.some.inj hf
              rw [h5 f hin]
              exact h3 hr hpos
            · exact absurd hf hin
      · rw [if_neg hr]
        refine ⟨fun f hf => h2 f fun he => hf ?_, fun hz => absurd hz hr⟩
        rw [he]
        exact List.mem_cons_self

end

/-! ### The threads of the group -/

section
variable {env : Env} {t old restored id : Nat} {w w' w₀ w₁ : World} {fs fs' : Files}

/-- The tables and the files are those of `fs` but for reference counts. -/
structure Files.Recounted (fs fs' : Files) : Prop where
  fds : ∀ n, (fs'.filesStruct n).fds = (fs.filesStruct n).fds
  fresh : fs'.fresh = fs.fresh
  file : fs'.file = fs.file

theorem Files.Recounted.trans {fs'' : Files} (h₁ : fs.Recounted fs') (h₂ : fs'.Recounted fs'') : fs.Recounted fs'' :=
  ⟨fun n => (h₂.fds n).trans (h₁.fds n), h₂.fresh.trans h₁.fresh, h₂.file.trans h₁.file⟩

theorem recounted_addCount (fs : Files) (n : Nat) (k : Int) : fs.Recounted (fs.addCount n k) where
  fds i := by
    show (Function.update fs.filesStruct n _ i).fds = _
    by_cases hi : i = n
    · rw [hi, Function.update_self]
    · rw [Function.update_of_ne hi]
  fresh := rfl
  file := rfl

/-- The threads of `l` that had the table `old` have the table `restored`. -/
structure Replaced (l : List Nat) (old restored : Nat) (w w' : World) : Prop where
  core : w'.core = w.core
  threads : w'.threads = w.threads
  fs : w.fs.Recounted w'.fs
  files : ∀ u, (w'.task u).files = if u ∈ l ∧ (w.task u).files = old then restored else (w.task u).files
  groupLeader : ∀ u, (w'.task u).groupLeader = (w.task u).groupLeader

variable (t old restored) in
theorem replaceFiles_replaced (u : Nat) (w : World) : Replaced [u] old restored w (World.replaceFiles t old restored w u) := by
  unfold World.replaceFiles
  by_cases hu : (w.task u).files = old
  · rw [if_pos hu]
    dsimp only
    have htask : ∀ v, Function.update w.task u { w.task u with files := restored } v =
        if v = u then { w.task u with files := restored } else w.task v := fun v => Function.update_apply ..
    refine ⟨rfl, rfl, ?_, fun v => ?_, fun v => ?_⟩
    · refine Files.Recounted.trans ?_ (recounted_addCount _ old (-1))
      split
      · exact ⟨fun _ => rfl, rfl, rfl⟩
      · exact recounted_addCount _ _ _
    · show (Function.update w.task u _ v).files = _
      rw [htask]
      by_cases hv : v = u
      · rw [if_pos hv, if_pos ⟨List.mem_singleton.mpr hv, hv ▸ hu⟩]
      · rw [if_neg hv, if_neg fun h => hv (List.mem_singleton.mp h.1)]
    · show (Function.update w.task u _ v).groupLeader = _
      rw [htask]
      split
      · rename_i hv
        rw [hv]
      · rfl
  · rw [if_neg hu]
    refine ⟨rfl, rfl, ⟨fun _ => rfl, rfl, rfl⟩, fun v => ?_, fun _ => rfl⟩
    rw [if_neg]
    rintro ⟨hv, hold⟩
    rw [List.mem_singleton.mp hv] at hold
    exact hu hold

variable (t) in
/-- The loop of `recover_files_snapshot`. -/
theorem replaceFiles_fold (hne : restored ≠ old) (l : List Nat) (w : World) :
    Replaced l old restored w (l.foldl (World.replaceFiles t old restored) w) := by
  induction l generalizing w with
  | nil => exact ⟨rfl, rfl, ⟨fun _ => rfl, rfl, rfl⟩, fun u => by simp, fun _ => rfl⟩
  | cons u l ih =>
    rw [List.foldl_cons]
    obtain ⟨h1, h2, h3, h4, h5⟩ := replaceFiles_replaced t old restored u w
    obtain ⟨k1, k2, k3, k4, k5⟩ := ih (World.replaceFiles t old restored w u)
    refine ⟨k1.trans h1, k2.trans h2, h3.trans k3, fun v => ?_, fun v => (k5 v).trans (h5 v)⟩
    rw [k4, h4]
    by_cases hold : (w.task v).files = old
    · by_cases hv : v = u
      · simp [hv, hv ▸ hold, hne]
      · simp [hv, hold]
    · simp [hold]

/-- What `recover_files_snapshot` leaves, however it ends. -/
structure FilesRecovered (w w' : World) : Prop where
  core : w'.core = w.core
  threads : w'.threads = w.threads
  groupLeader : ∀ u, (w'.task u).groupLeader = (w.task u).groupLeader
  fresh : w.fs.fresh ≤ w'.fs.fresh
  fds : ∀ n < w.fs.fresh, (w'.fs.filesStruct n).fds = (w.fs.filesStruct n).fds
  files : ∀ u, (w'.task u).files = (w.task u).files ∨ (w'.task u).files = w.fs.fresh ∧ w.fs.fresh < w'.fs.fresh

/-- A change of the files alone. -/
theorem filesRecovered_fs (hfresh : w.fs.fresh ≤ fs.fresh)
    (hfds : ∀ n < w.fs.fresh, (fs.filesStruct n).fds = (w.fs.filesStruct n).fds) : FilesRecovered w { w with fs } :=
  ⟨rfl, rfl, fun _ => rfl, hfresh, hfds, fun _ => Or.inl rfl⟩

/-- `dup_fd` makes a new table. -/
theorem dupFd_eq (env : Env) (fs : Files) (n : Nat) : fs.dupFd env n = (fs, none) ∨
    ∃ fs', fs.dupFd env n = (fs', some fs.fresh) ∧ fs'.fresh = fs.fresh + 1 ∧ fs'.file = fs.file ∧
      (fs'.filesStruct fs.fresh).fds = resizeFds env.fdtSize (fs.filesStruct n).fds ∧
      ∀ i, i ≠ fs.fresh → fs'.filesStruct i = fs.filesStruct i := by
  unfold Files.dupFd
  split
  · exact Or.inr ⟨_, rfl, rfl, rfl, by dsimp only; rw [Function.update_self], fun i hi => Function.update_of_ne hi ..⟩
  · exact Or.inl rfl

variable (env t id) in
theorem recoverFiles_recovered (htables : ∀ u, (w.task u).files < w.fs.fresh) :
    FilesRecovered w (w.recoverFilesSnapshot env t id).1 := by
  have hrefl : FilesRecovered w w := ⟨rfl, rfl, fun _ => rfl, le_rfl, fun _ _ => rfl, fun _ => Or.inl rfl⟩
  unfold World.recoverFilesSnapshot
  dsimp only
  split
  swap
  · exact hrefl
  split
  swap
  · exact hrefl
  rename_i copy offsets hss
  rcases dupFd_eq env w.fs copy with hdup | ⟨fs₁, hdup, hfresh, hfile, hfds, hothers⟩ <;> rw [hdup] <;> dsimp only
  · exact hrefl
  have hiter : fs₁.Sought (iterateFd (Files.restoreFileOffset env offsets) (fs₁.filesStruct w.fs.fresh).fds 0 fs₁).1 :=
    iterate_sought env offsets _ 0 fs₁
  generalize iterateFd (Files.restoreFileOffset env offsets) (fs₁.filesStruct w.fs.fresh).fds 0 fs₁ = r at hiter ⊢
  have hfresh' : r.1.fresh = w.fs.fresh + 1 := hiter.fresh.trans hfresh
  have hfds' : ∀ n < w.fs.fresh, (r.1.filesStruct n).fds = (w.fs.filesStruct n).fds := fun n hn => by
    rw [hiter.filesStruct, hothers n hn.ne]
  split
  · have hne : w.fs.fresh ≠ (w.task t).files := (htables t).ne'
    obtain ⟨h1, h2, h3, h4, h5⟩ := replaceFiles_fold t hne (w.threads (w.task t).groupLeader) { w with fs := r.1 }
    have hfresh₂ := h3.fresh.trans hfresh'
    refine ⟨h1, h2, h5, ?_, fun n hn => (h3.fds n).trans (hfds' n hn), fun u => ?_⟩
    · rw [hfresh₂]
      exact Nat.le_succ _
    · rw [h4, hfresh₂]
      split
      · exact Or.inr ⟨rfl, Nat.lt_succ_self _⟩
      · exact Or.inl rfl
  · have hput := recounted_addCount r.1 w.fs.fresh (-1)
    refine filesRecovered_fs ?_ fun n hn => (hput.fds n).trans (hfds' n hn)
    rw [show (r.1.putFilesStruct w.fs.fresh).fresh = r.1.fresh from rfl, hfresh']
    exact Nat.le_succ _

/-- A recovery that goes through gives the threads with the task's table one like the copy, and puts the files to their
    offsets. -/
theorem recoverFiles_success (htables : ∀ u, (w.task u).files < w.fs.fresh)
    (hcfg : hasFlag (w.core.reg.data id).config aflSnapshotFds = true) (hres : (w.recoverFilesSnapshot env t id).2 = 0) :
    ∃ copy offsets, (w.core.reg.data id).ss.ssFiles = ⟨some copy, some offsets⟩ ∧
      (∀ u ∈ w.threads (w.task t).groupLeader, (w.task u).files = (w.task t).files → ∀ fd,
        (w.recoverFilesSnapshot env t id).1.fs.fileAt ((w.recoverFilesSnapshot env t id).1.task u).files fd =
          w.fs.fileAt copy fd) ∧
      ∀ off : Nat → Int, (∀ fd f, w.fs.fileAt copy fd = some f → offsets.getD fd (-1) = off f) →
        ∀ fd f, w.fs.fileAt copy fd = some f → 0 ≤ off f →
          ((w.recoverFilesSnapshot env t id).1.fs.file f).pos = off f := by
  unfold World.recoverFilesSnapshot at hres ⊢
  dsimp only at hres ⊢
  rw [if_pos hcfg] at hres ⊢
  split at hres
  swap
  · exact absurd (show (-22 : Int) = 0 from hres) (by decide)
  rename_i copy offsets hss
  refine ⟨copy, offsets, hss, ?_⟩
  rcases dupFd_eq env w.fs copy with hdup | ⟨fs₁, hdup, hfresh, hfile, hfds, hothers⟩ <;> rw [hdup] at hres ⊢ <;>
    dsimp only at hres ⊢
  · exact absurd (show (-12 : Int) = 0 from hres) (by decide)
  have hopen : ∀ fd, (fs₁.filesStruct w.fs.fresh).fds.getD fd none = w.fs.fileAt copy fd := fun fd => by
    rw [hfds, getD_resizeFds]
    rfl
  have hiter := fun (off : Nat → Int) (hoff : ∀ fd f, w.fs.fileAt copy fd = some f → offsets.getD fd (-1) = off f) =>
    iterate_restore (fs₁.filesStruct w.fs.fresh).fds 0 env fs₁ fun i f hi => by
      rw [Nat.zero_add]
      exact hoff i f ((hopen i).symm.trans hi)
  have hsought := iterate_sought env offsets (fs₁.filesStruct w.fs.fresh).fds 0 fs₁
  generalize iterateFd (Files.restoreFileOffset env offsets) (fs₁.filesStruct w.fs.fresh).fds 0 fs₁ = r
    at hres hiter hsought ⊢
  by_cases hzero : r.2 = 0
  swap
  · rw [if_neg hzero] at hres
    exact absurd hres hzero
  rw [if_pos hzero]
  have hne : w.fs.fresh ≠ (w.task t).files := (htables t).ne'
  obtain ⟨h1, h2, h3, h4, h5⟩ := replaceFiles_fold t hne (w.threads (w.task t).groupLeader) { w with fs := r.1 }
  refine ⟨fun u hu hsame fd => ?_, fun off hoff fd f hf hpos => ?_⟩
  · have htable := h4 u
    rw [if_pos ⟨hu, hsame⟩] at htable
    unfold Files.fileAt at hopen ⊢
    rw [htable, h3.fds]
    show (r.1.filesStruct w.fs.fresh).fds.getD fd none = _
    rw [hsought.filesStruct, hopen]
  · rw [h3.file]
    refine (hiter off hoff).2 hzero f ?_ hpos
    rw [← hopen] at hf
    rw [List.getD_eq_getElem?_getD] at hf
    cases hget : (fs₁.filesStruct w.fs.fresh).fds[fd]? with
    | none =>
      rw [hget] at hf
      cases hf
    | some x =>
      rw [hget] at hf
      obtain rfl : x = some f := hf
      exact List.mem_of_getElem? hget

end
end AflSnapshot
