import AflSnapshot.Theorems.Departures
import Mathlib.Data.Finset.Card
import Mathlib.Order.Interval.Finset.Nat

/-! # The references to descriptor tables

The count of a table is the number of running tasks that have it, and one more where a snapshot holds it
(`World.Counted`). In the loop of `recover_files_snapshot` the reference of the caller is counted before it is there
(`World.Balanced`). -/

namespace AflSnapshot
open Runs

/-- The running tasks that have the table. -/
def World.users (w : World) (n : Nat) : Finset Nat :=
  (Finset.range w.freshTask).filter fun t => (w.task t).alive = true ∧ (w.task t).files = n

/-- The table is held as the snapshot of a task. -/
def World.Held (w : World) (n : Nat) : Prop :=
  ∃ id ∈ w.core.reg.taskDataList, (w.core.reg.data id).ss.ssFiles.files = some n

instance (w : World) (n : Nat) : Decidable (w.Held n) := inferInstanceAs (Decidable (∃ id ∈ _, _))

/-- The table that the live snapshot of a task holds. -/
def World.copyOf (t : Nat) (w : World) : Option Nat :=
  (w.core.reg.live t).bind fun id => (w.core.reg.data id).ss.ssFiles.files

/-- Each table has a reference for each of its users, and `e` more. -/
def World.Balanced (w : World) (e : Nat → Nat) : Prop :=
  ∀ n < w.fs.fresh, (w.fs.filesStruct n).count = (w.users n).card + e n

/-- Each table is counted right, and the snapshots hold tables of their own. -/
structure World.Counted (w : World) : Prop where
  count : w.Balanced fun n => if w.Held n then 1 else 0
  copies : ∀ t n, w.copyOf t = some n → n < w.fs.fresh
  own : ∀ t u n, w.copyOf t = some n → w.copyOf u = some n → t = u

/-- A running thread is in the list of its group, once. A thread in the list that is gone has let go of its table. -/
structure World.Grouped (w : World) : Prop where
  listed : ∀ t, w.Running t → t ∈ w.threads (w.task t).groupLeader
  once : ∀ t, w.Running t → (w.threads (w.task t).groupLeader).Nodup
  gone : ∀ t, w.Running t → ∀ u ∈ w.threads (w.task t).groupLeader, ¬w.Running u → ∀ v, w.Running v →
    (w.task u).files ≠ (w.task v).files
  below : ∀ t, w.Running t → (w.task t).groupLeader < w.freshTask ∧
    ∀ u ∈ w.threads (w.task t).groupLeader, u < w.freshTask

section
variable {env : Env} {t u v id n r old restored parent child : Nat} {w w' w₀ : World} {e : Nat → Nat} {l : List Nat}
  {fs fs' : Files} {d : TaskData}

/-! ### Users -/

theorem mem_users : t ∈ w.users n ↔ w.Running t ∧ (w.task t).files = n := by
  unfold World.users World.Running
  rw [Finset.mem_filter, Finset.mem_range, and_assoc]

theorem World.SameTasks.users (h : w.SameTasks w') (hfiles : ∀ u, (w'.task u).files = (w.task u).files) (n : Nat) :
    w'.users n = w.users n := by
  ext u
  rw [mem_users, mem_users, h.running, hfiles]

/-- A table that is yet to be made has no users. -/
theorem users_fresh (h : ∀ u, (w.task u).files < w.fs.fresh) (hn : w.fs.fresh ≤ n) : w.users n = ∅ := by
  rw [Finset.eq_empty_iff_forall_notMem]
  intro u hu
  have := h u
  have := (mem_users.mp hu).2
  omega

/-- A task goes over to another table. -/
theorem users_moved (h : w.SameTasks w') (hfiles : ∀ v, (w'.task v).files = if v = u then r else (w.task v).files)
    (hu : w.Running u) (hold : (w.task u).files = old) (hne : r ≠ old) :
    (w'.users r).card = (w.users r).card + 1 ∧ (w'.users old).card + 1 = (w.users old).card ∧
      ∀ n, n ≠ r → n ≠ old → w'.users n = w.users n := by
  have hmem : ∀ v n, v ∈ w'.users n ↔ w.Running v ∧ (if v = u then r else (w.task v).files) = n := fun v n => by
    rw [mem_users, h.running, hfiles]
  have hin : u ∈ w.users old := mem_users.mpr ⟨hu, hold⟩
  have hout : u ∉ w.users r := fun hr => hne ((mem_users.mp hr).2.symm.trans hold)
  refine ⟨?_, ?_, fun n hr ho => ?_⟩
  · rw [← Finset.card_insert_of_notMem hout]
    congr 1
    ext v
    rw [hmem, Finset.mem_insert, mem_users]
    by_cases hv : v = u
    · simp [hv, hu]
    · simp [hv]
  · rw [← Finset.card_erase_add_one hin]
    congr 2
    ext v
    rw [hmem, Finset.mem_erase, mem_users]
    by_cases hv : v = u
    · simp [hv, hne]
    · simp [hv]
  · ext v
    rw [hmem, mem_users]
    by_cases hv : v = u
    · simp [hv, hold, Ne.symm hr, Ne.symm ho]
    · simp [hv]

/-! ### The loop over the threads -/

theorem count_addCount (fs : Files) (n : Nat) (k : Int) (i : Nat) : ((fs.addCount n k).filesStruct i).count =
    if i = n then ((fs.filesStruct n).count + k).toNat else (fs.filesStruct i).count := by
  show (Function.update fs.filesStruct n _ i).count = _
  by_cases hi : i = n
  · rw [if_pos hi, hi, Function.update_self]
  · rw [if_neg hi, Function.update_of_ne hi]

/-- What a round of the loop does to a thread that has the table. -/
theorem replaceFiles_moves (hold : (w.task u).files = old) (hne : restored ≠ old) :
    w.SameTasks (World.replaceFiles t old restored w u) ∧
    (∀ v, ((World.replaceFiles t old restored w u).task v).files = if v = u then restored else (w.task v).files) ∧
    (World.replaceFiles t old restored w u).fs.fresh = w.fs.fresh ∧
    ∀ i, ((World.replaceFiles t old restored w u).fs.filesStruct i).count =
      if i = old then (w.fs.filesStruct i).count - 1
      else if i = restored ∧ u ≠ t then (w.fs.filesStruct i).count + 1 else (w.fs.filesStruct i).count := by
  have hr := replaceFiles_replaced t old restored u w
  refine ⟨replaceFiles_tasks t old restored [u] w, fun v => ?_, hr.fs.fresh, fun i => ?_⟩
  · rw [hr.files v]
    by_cases hv : v = u
    · rw [if_pos hv, if_pos ⟨List.mem_singleton.mpr hv, hv ▸ hold⟩]
    · rw [if_neg hv, if_neg fun h => hv (List.mem_singleton.mp h.1)]
  · unfold World.replaceFiles
    rw [if_pos hold]
    dsimp only
    unfold Files.putFilesStruct
    rw [count_addCount]
    by_cases hut : u = t
    · rw [if_pos hut]
      by_cases hi : i = old
      · rw [if_pos hi, if_pos hi, hi]
        omega
      · rw [if_neg hi, if_neg hi, if_neg fun h => h.2 hut]
    · rw [if_neg hut, count_addCount, count_addCount, if_neg hne.symm]
      by_cases hi : i = old
      · rw [if_pos hi, if_pos hi, hi]
        omega
      · rw [if_neg hi, if_neg hi]
        by_cases hir : i = restored
        · rw [if_pos hir, if_pos ⟨hir, hut⟩, hir]
          omega
        · rw [if_neg hir, if_neg fun h => hir h.1]

theorem replaceFiles_skips (hold : (w.task u).files ≠ old) : World.replaceFiles t old restored w u = w := if_neg hold

/-- A thread that is not the caller takes a reference with it. -/
theorem World.Balanced.replaceOther (h : w.Balanced e) (hut : u ≠ t) (hne : restored ≠ old)
    (hrun : (w.task u).files = old → w.Running u) : (World.replaceFiles t old restored w u).Balanced e := by
  by_cases hold : (w.task u).files = old
  swap
  · rwa [replaceFiles_skips hold]
  obtain ⟨htasks, hfiles, hfresh, hcount⟩ := replaceFiles_moves (t := t) hold hne
  obtain ⟨hnew, hleft, hothers⟩ := users_moved htasks hfiles (hrun hold) hold hne
  intro n hn
  have hbal := h n (hfresh ▸ hn)
  rw [hcount]
  by_cases hno : n = old
  · subst hno
    rw [if_pos rfl]
    omega
  · rw [if_neg hno]
    by_cases hnr : n = restored
    · subst hnr
      rw [if_pos ⟨rfl, hut⟩]
      omega
    · rw [if_neg fun h => hnr h.1, hothers n hnr hno]
      exact hbal

/-- The caller takes over the reference that the new table was made with. -/
theorem World.Balanced.replaceSelf (h : w.Balanced e) (hne : restored ≠ old) (hold : (w.task t).files = old)
    (hrun : w.Running t) (he : 0 < e restored) :
    (World.replaceFiles t old restored w t).Balanced (Function.update e restored (e restored - 1)) := by
  obtain ⟨htasks, hfiles, hfresh, hcount⟩ := replaceFiles_moves (t := t) hold hne
  obtain ⟨hnew, hleft, hothers⟩ := users_moved htasks hfiles hrun hold hne
  intro n hn
  have hbal := h n (hfresh ▸ hn)
  rw [hcount]
  by_cases hno : n = old
  · subst hno
    rw [if_pos rfl, Function.update_of_ne hne.symm]
    omega
  · rw [if_neg hno, if_neg fun h => h.2 rfl]
    by_cases hnr : n = restored
    · subst hnr
      rw [Function.update_self]
      omega
    · rw [Function.update_of_ne hnr, hothers n hnr hno]
      exact hbal

/-- What still has the table `old` had it before. -/
theorem Replaced.had (h : Replaced l old restored w w') (hne : restored ≠ old) (hv : (w'.task v).files = old) :
    (w.task v).files = old := by
  rw [h.files v] at hv
  split at hv
  · exact absurd hv hne
  · exact hv

theorem replaceFiles_running : (World.replaceFiles t old restored w u).Running v ↔ w.Running v :=
  (replaceFiles_tasks t old restored [u] w).running v

theorem World.Balanced.replaceOthers (h : w.Balanced e) (ht : t ∉ l) (hne : restored ≠ old)
    (hrun : ∀ u ∈ l, (w.task u).files = old → w.Running u) :
    (l.foldl (World.replaceFiles t old restored) w).Balanced e := by
  induction l generalizing w with
  | nil => exact h
  | cons u l ih =>
    rw [List.foldl_cons]
    rw [List.mem_cons, not_or] at ht
    refine ih (h.replaceOther (Ne.symm ht.1) hne (hrun u List.mem_cons_self)) ht.2 fun v hv hold => ?_
    rw [replaceFiles_running]
    exact hrun v (List.mem_cons_of_mem _ hv) ((replaceFiles_replaced t old restored u w).had hne hold)

/-- The whole loop, which comes to the caller once. -/
theorem World.Balanced.replaceAll (h : w.Balanced e) (ht : t ∈ l) (hl : l.Nodup) (hne : restored ≠ old)
    (hrun : ∀ u ∈ l, (w.task u).files = old → w.Running u) (hold : (w.task t).files = old) (he : 0 < e restored) :
    (l.foldl (World.replaceFiles t old restored) w).Balanced (Function.update e restored (e restored - 1)) := by
  obtain ⟨l₁, l₂, rfl⟩ := List.append_of_mem ht
  obtain ⟨-, hl₂, hdisj⟩ := List.nodup_append'.mp hl
  have ht₁ : t ∉ l₁ := fun h₁ => hdisj h₁ List.mem_cons_self
  have ht₂ : t ∉ l₂ := (List.nodup_cons.mp hl₂).1
  rw [List.foldl_append, List.foldl_cons]
  have hfirst := h.replaceOthers ht₁ hne fun u hu => hrun u (List.mem_append_left _ hu)
  have hrep := replaceFiles_fold t hne l₁ w
  have htasks := replaceFiles_tasks t old restored l₁ w
  generalize l₁.foldl (World.replaceFiles t old restored) w = w₁ at hfirst hrep htasks ⊢
  have hold₁ : (w₁.task t).files = old := by rw [hrep.files t, if_neg fun h => ht₁ h.1, hold]
  have hself : w₁.Running t := (htasks.running t).mpr (hrun t ht hold)
  refine (hfirst.replaceSelf hne hold₁ hself he).replaceOthers ht₂ hne fun u hu hold₂ => ?_
  rw [replaceFiles_running, htasks.running u]
  exact hrun u (List.mem_append_right _ (List.mem_cons_of_mem _ hu))
    (hrep.had hne ((replaceFiles_replaced t old restored t w₁).had hne hold₂))

/-! ### Restore -/

/-- The tables, their users and the snapshots' tables are as before. -/
structure World.SameRefs (w w' : World) : Prop where
  count : ∀ n, (w'.fs.filesStruct n).count = (w.fs.filesStruct n).count
  fresh : w'.fs.fresh = w.fs.fresh
  files : ∀ u, (w'.task u).files = (w.task u).files
  groupLeader : ∀ u, (w'.task u).groupLeader = (w.task u).groupLeader
  threads : w'.threads = w.threads
  tasks : w.SameTasks w'
  copies : ∀ u, w'.copyOf u = w.copyOf u

theorem copyOf_congr (hlive : w'.core.reg.live t = w.core.reg.live t)
    (hdata : ∀ id, w.core.reg.live t = some id → (w'.core.reg.data id).ss.ssFiles = (w.core.reg.data id).ss.ssFiles) :
    w'.copyOf t = w.copyOf t := by
  unfold World.copyOf
  rw [hlive]
  cases hid : w.core.reg.live t with
  | none => rfl
  | some id => exact congrArg OpenFilesSnapshot.files (hdata id hid)

theorem Core.Steady.copyOf (h : w.core.Steady env w'.core) (t : Nat) : w'.copyOf t = w.copyOf t :=
  copyOf_congr (h.live t) fun id _ => by rw [h.data id]

theorem copyOf_eq_some (hn : w.copyOf t = some n) :
    ∃ id, w.core.reg.live t = some id ∧ (w.core.reg.data id).ss.ssFiles.files = some n :=
  Option.bind_eq_some_iff.mp hn

theorem held_iff (h : w.Kept) : w.Held n ↔ ∃ t, w.copyOf t = some n := by
  constructor
  · rintro ⟨id, hid, hfiles⟩
    have hmade : (w.core.reg.data id).haveSnapshot = true := by
      by_contra hmade
      rw [(h.records id).noFiles (by simpa using hmade)] at hfiles
      cases hfiles
    refine ⟨(w.core.reg.data id).tsk, Option.bind_eq_some_iff.mpr ⟨id, ?_, hfiles⟩⟩
    exact live_eq_some.mpr ⟨getTaskData_of_mem h.coherent hid, hmade⟩
  · rintro ⟨t, hn⟩
    obtain ⟨id, hlive, hfiles⟩ := copyOf_eq_some hn
    exact ⟨id, (getTaskData_spec (live_eq_some.mp hlive).1).1, hfiles⟩

theorem World.Counted.count_eq (h : w.Counted) (hn : n < w.fs.fresh) :
    (w.fs.filesStruct n).count = (w.users n).card + if w.Held n then 1 else 0 := h.count n hn

theorem World.Counted.same (h : w.Counted) (hk : w.Kept) (hk' : w'.Kept) (hs : w.SameRefs w') : w'.Counted := by
  refine ⟨fun n hn => ?_, fun t n hn => ?_, fun t u n ht hu => h.own t u n ?_ ?_⟩
  · have hheld : w'.Held n ↔ w.Held n := by rw [held_iff hk', held_iff hk]; simp only [hs.copies]
    rw [hs.count, hs.tasks.users hs.files, h.count n (hs.fresh ▸ hn)]
    simp only [hheld]
  · rw [hs.fresh]
    exact h.copies t n (hs.copies t ▸ hn)
  · exact hs.copies t ▸ ht
  · exact hs.copies u ▸ hu

theorem World.Grouped.same (h : w.Grouped) (htasks : w.SameTasks w') (hthreads : w'.threads = w.threads)
    (hleader : ∀ u, (w'.task u).groupLeader = (w.task u).groupLeader)
    (hgone : ∀ u v, w.Running v → ¬w.Running u → (w.task u).files ≠ (w.task v).files → (w'.task u).files ≠ (w'.task v).files) :
    w'.Grouped where
  listed t ht := by
    rw [hthreads, hleader]
    exact h.listed t ((htasks.running t).mp ht)
  once t ht := by
    rw [hthreads, hleader]
    exact h.once t ((htasks.running t).mp ht)
  gone t ht u hu hgu v hv := by
    rw [hthreads, hleader] at hu
    rw [htasks.running] at ht hgu hv
    exact hgone u v hv hgu (h.gone t ht u hu hgu v hv)
  below t ht := by
    rw [hthreads, hleader, htasks.freshTask]
    exact h.below t ((htasks.running t).mp ht)

theorem World.SameRefs.grouped (hs : w.SameRefs w') (h : w.Grouped) : w'.Grouped :=
  h.same hs.tasks hs.threads hs.groupLeader fun u v _ _ hne => by rwa [hs.files, hs.files]

variable (env t id) in
theorem beforeFiles_refs (h : w.Kept) : w.SameRefs (w.beforeFiles env t id) := by
  obtain ⟨hsteady, hsame⟩ := beforeFiles_spec env t id h
  exact ⟨fun n => by rw [hsame.fs], by rw [hsame.fs], hsame.files, hsame.groupLeader, hsame.threads,
    beforeFiles_tasks env w t id, hsteady.copyOf⟩

/-- The new table of `dup_fd` has one reference. -/
theorem count_dupFd (hdup : fs.dupFd env n = (fs', some restored)) : restored = fs.fresh ∧ fs'.fresh = fs.fresh + 1 ∧
    ∀ i, (fs'.filesStruct i).count = if i = fs.fresh then 1 else (fs.filesStruct i).count := by
  unfold Files.dupFd at hdup
  split at hdup
  · obtain ⟨rfl, hr⟩ := Prod.mk.inj hdup
    refine ⟨(Option.some.inj hr).symm, rfl, fun i => ?_⟩
    show (Function.update fs.filesStruct fs.fresh _ i).count = _
    by_cases hi : i = fs.fresh
    · rw [if_pos hi, hi, Function.update_self]
    · rw [if_neg hi, Function.update_of_ne hi]
  · cases hdup

/-- A table that was made and counted, and has no users yet. -/
theorem World.Balanced.made (h : w.Balanced e) (htables : ∀ u, (w.task u).files < w.fs.fresh) (k : Nat)
    (hfresh : fs.fresh = w.fs.fresh + 1)
    (hcount : ∀ i, (fs.filesStruct i).count = if i = w.fs.fresh then k else (w.fs.filesStruct i).count) :
    World.Balanced { w with fs } (Function.update e w.fs.fresh k) := by
  intro n hn
  show (fs.filesStruct n).count = (w.users n).card + _
  have hn : n < w.fs.fresh + 1 := lt_of_lt_of_eq hn hfresh
  rw [hcount]
  by_cases hnew : n = w.fs.fresh
  · rw [if_pos hnew, hnew, Function.update_self, users_fresh htables le_rfl]
    simp
  · rw [if_neg hnew, Function.update_of_ne hnew]
    exact h n (by omega)

/-- However `recover_files_snapshot` ends, each table is counted right. -/
theorem recoverFiles_balanced (h : w.Balanced e) (hg : w.Grouped) (htables : ∀ u, (w.task u).files < w.fs.fresh)
    (he : e w.fs.fresh = 0) (ht : w.Running t) : (w.recoverFilesSnapshot env t id).1.Balanced e := by
  have hback : ∀ k, Function.update (Function.update e w.fs.fresh k) w.fs.fresh 0 = e := fun k => by
    rw [Function.update_idem, ← he, Function.update_eq_self]
  unfold World.recoverFilesSnapshot
  dsimp only
  split
  swap
  · exact h
  split
  swap
  · exact h
  rename_i copy offsets hss
  split
  · rename_i fs hdup
    rcases dupFd_eq env w.fs copy with hno | ⟨fs', hsome, -⟩
    · rw [hno] at hdup
      obtain ⟨rfl, -⟩ := Prod.mk.inj hdup
      exact h
    · rw [hsome] at hdup
      cases hdup
  rename_i fs restored hdup
  obtain ⟨rfl, hfresh, hcount⟩ := count_dupFd hdup
  have hsought := iterate_sought env offsets (fs.filesStruct w.fs.fresh).fds 0 fs
  generalize iterateFd (Files.restoreFileOffset env offsets) (fs.filesStruct w.fs.fresh).fds 0 fs = r at hsought ⊢
  have hcount' : ∀ i, (r.1.filesStruct i).count = if i = w.fs.fresh then 1 else (w.fs.filesStruct i).count := fun i => by
    rw [hsought.filesStruct, hcount]
  have hfresh' := hsought.fresh.trans hfresh
  have hne : w.fs.fresh ≠ (w.task t).files := (htables t).ne'
  split
  · have hmade := h.made htables 1 hfresh' hcount'
    have hrun : ∀ u ∈ w.threads (w.task t).groupLeader, (w.task u).files = (w.task t).files → w.Running u := by
      intro u hu hsame
      by_contra hgone
      exact hg.gone t ht u hu hgone t ht hsame
    have hall := hmade.replaceAll (t := t) (hg.listed t ht) (hg.once t ht) hne hrun rfl
      (by rw [Function.update_self]; exact Nat.one_pos)
    rwa [Function.update_self, hback] at hall
  · have hput : ∀ i, ((r.1.putFilesStruct w.fs.fresh).filesStruct i).count =
        if i = w.fs.fresh then 0 else (w.fs.filesStruct i).count := fun i => by
      unfold Files.putFilesStruct
      rw [count_addCount]
      by_cases hi : i = w.fs.fresh
      · rw [if_pos hi, if_pos hi, hcount', if_pos rfl]
        rfl
      · rw [if_neg hi, if_neg hi, hcount', if_neg hi]
    have hmade : World.Balanced { w with fs := r.1.putFilesStruct w.fs.fresh } _ := h.made htables 0 hfresh' hput
    rwa [← he, Function.update_eq_self] at hmade

/-- `recover_files_snapshot` has a table to recover, and goes through. -/
def World.FilesRecover (env : Env) (t id : Nat) (w : World) : Prop :=
  hasFlag (w.core.reg.data id).config aflSnapshotFds = true ∧ (w.recoverFilesSnapshot env t id).2 = 0

/-- The threads of the caller that share its table get the new one. -/
theorem recoverFiles_replaces (htables : ∀ u, (w.task u).files < w.fs.fresh) (h : w.FilesRecover env t id) (u : Nat) :
    ((w.recoverFilesSnapshot env t id).1.task u).files =
      if u ∈ w.threads (w.task t).groupLeader ∧ (w.task u).files = (w.task t).files then w.fs.fresh
      else (w.task u).files := by
  obtain ⟨hcfg, hres⟩ := h
  unfold World.recoverFilesSnapshot at hres ⊢
  dsimp only at hres ⊢
  rw [if_pos hcfg] at hres ⊢
  split at hres
  swap
  · exact absurd (show (-22 : Int) = 0 from hres) (by decide)
  rename_i copy offsets hss
  rcases dupFd_eq env w.fs copy with hdup | ⟨fs, hdup, -⟩ <;> rw [hdup] at hres ⊢ <;> dsimp only at hres ⊢
  · exact absurd (show (-12 : Int) = 0 from hres) (by decide)
  generalize iterateFd (Files.restoreFileOffset env offsets) (fs.filesStruct w.fs.fresh).fds 0 fs = r at hres ⊢
  by_cases hzero : r.2 = 0
  swap
  · rw [if_neg hzero] at hres
    exact absurd hres hzero
  rw [if_pos hzero]
  exact (replaceFiles_fold t (htables t).ne' (w.threads (w.task t).groupLeader) { w with fs := r.1 }).files u

/-- Where it fails all tasks keep their tables. -/
theorem recoverFiles_keeps (h : ¬w.FilesRecover env t id) : (w.recoverFilesSnapshot env t id).1.task = w.task := by
  unfold World.FilesRecover at h
  unfold World.recoverFilesSnapshot at h ⊢
  dsimp only at h ⊢
  split
  swap
  · rfl
  rename_i hcfg
  rw [if_pos hcfg] at h
  split
  swap
  · rfl
  rename_i copy offsets hss
  rw [hss] at h
  dsimp only at h
  rcases dupFd_eq env w.fs copy with hdup | ⟨fs, hdup, -⟩ <;> rw [hdup] at h ⊢
  dsimp only at h ⊢
  split
  · rename_i hzero
    rw [if_pos hzero] at h
    exact absurd ⟨hcfg, rfl⟩ h
  · rfl

theorem World.Grouped.restore (h : w.Grouped) (hk : w.Kept) (ht : w.Running t) : (w.restoreSnapshot env t id).Grouped := by
  have hrefs := beforeFiles_refs env t id hk
  have hb := hrefs.grouped h
  have htables : ∀ u, ((w.beforeFiles env t id).task u).files < (w.beforeFiles env t id).fs.fresh := fun u => by
    rw [hrefs.files, hrefs.fresh]
    exact hk.tables u
  have hrun := (hrefs.tasks.running t).mpr ht
  have hrec := recoverFiles_recovered env t id htables
  have htasks := recoverFiles_tasks env (w.beforeFiles env t id) t id
  rw [restoreSnapshot_eq]
  generalize w.beforeFiles env t id = w₁ at hb htables hrun hrec htasks ⊢
  refine hb.same htasks hrec.threads hrec.groupLeader fun u v hv hgone hne => ?_
  by_cases hback : w₁.FilesRecover env t id
  swap
  · rwa [recoverFiles_keeps hback]
  -- A thread that is gone does not share the caller's table.
  have hu : ¬(u ∈ w₁.threads (w₁.task t).groupLeader ∧ (w₁.task u).files = (w₁.task t).files) := fun hu =>
    hb.gone t hrun u hu.1 hgone t hrun hu.2
  rw [recoverFiles_replaces htables hback u, recoverFiles_replaces htables hback v, if_neg hu]
  split
  · exact (htables u).ne
  · exact hne

theorem World.Counted.restore (h : w.Counted) (hk : w.Kept) (hg : w.Grouped) (ht : w.Running t) :
    (w.restoreSnapshot env t id).Counted := by
  have hr := hk.restoreSnapshot env t id
  have hrefs := beforeFiles_refs env t id hk
  have hkb : (w.beforeFiles env t id).Kept := hk.of_steady (beforeFiles_spec env t id hk).1 fun u => by
    rw [hrefs.files, hrefs.fresh]
    exact hk.tables u
  have hb := h.same hk hkb hrefs
  have hgb := hrefs.grouped hg
  have hrun := (hrefs.tasks.running t).mpr ht
  have hcopy : ∀ u, (w.restoreSnapshot env t id).copyOf u = (w.beforeFiles env t id).copyOf u := fun u =>
    (hr.steady.copyOf u).trans (hrefs.copies u).symm
  have hfresh := (recoverFiles_recovered env t id hkb.tables).fresh
  have hheld : ∀ n, (w.restoreSnapshot env t id).Held n ↔ (w.beforeFiles env t id).Held n := fun n => by
    rw [held_iff hr.kept, held_iff hkb]
    simp only [hcopy]
  have hnone : ¬(w.beforeFiles env t id).Held (w.beforeFiles env t id).fs.fresh := fun hn => by
    obtain ⟨u, hu⟩ := (held_iff hkb).mp hn
    exact lt_irrefl _ (hb.copies u _ hu)
  refine ⟨?_, fun u n hn => ?_, fun u v n hu hv => ?_⟩
  · simp only [hheld]
    rw [restoreSnapshot_eq]
    exact recoverFiles_balanced hb.count hgb hkb.tables (if_neg hnone) hrun
  · rw [restoreSnapshot_eq]
    exact lt_of_lt_of_le (hb.copies u n (hcopy u ▸ hn)) hfresh
  · exact hb.own u v n (hcopy u ▸ hu) (hcopy v ▸ hv)

/-! ### Take and clean -/

/-- The snapshot of one task changes its table, to a new one if any. -/
theorem World.Counted.recopied {c : Option Nat} (h : w.Counted) (hk : w.Kept) (hk' : w'.Kept)
    (husers : ∀ n, w'.users n = w.users n) (hfresh : w.fs.fresh ≤ w'.fs.fresh)
    (hcopies : ∀ u, w'.copyOf u = if u = t then c else w.copyOf u) (hnew : ∀ n, c = some n → w.fs.fresh ≤ n ∧ n < w'.fs.fresh)
    (hcount : ∀ n < w'.fs.fresh, (w'.fs.filesStruct n).count + (if w.copyOf t = some n then 1 else 0) =
      (if n < w.fs.fresh then (w.fs.filesStruct n).count else 0) + if c = some n then 1 else 0) : w'.Counted := by
  have hself : w'.copyOf t = c := by rw [hcopies, if_pos rfl]
  have hother : ∀ u, u ≠ t → w'.copyOf u = w.copyOf u := fun u hu => by rw [hcopies, if_neg hu]
  have hheld : ∀ n, w'.Held n ↔ c = some n ∨ w.Held n ∧ w.copyOf t ≠ some n := fun n => by
    rw [held_iff hk', held_iff hk]
    constructor
    · rintro ⟨u, hu⟩
      by_cases hut : u = t
      · exact Or.inl (by rw [← hself, ← hut, hu])
      · rw [hother u hut] at hu
        exact Or.inr ⟨⟨u, hu⟩, fun ht => hut (h.own u t n hu ht)⟩
    · rintro (hc | ⟨⟨u, hu⟩, hne⟩)
      · exact ⟨t, hself.trans hc⟩
      · exact ⟨u, (hother u fun hut => hne (hut ▸ hu)).trans hu⟩
  refine ⟨fun n hn => ?_, fun u n hu => ?_, fun u v n hu hv => ?_⟩
  · have hn' := hcount n hn
    rw [husers]
    simp only [hheld]
    by_cases hold : n < w.fs.fresh
    · have hc : c ≠ some n := fun hc => absurd (hnew n hc).1 (Nat.not_le.mpr hold)
      have hbal := h.count_eq hold
      rw [if_pos hold, if_neg hc] at hn'
      by_cases hcopy : w.copyOf t = some n
      · rw [if_pos hcopy] at hn'
        rw [if_pos ((held_iff hk).mpr ⟨t, hcopy⟩)] at hbal
        rw [if_neg fun hor => hor.elim hc fun hand => hand.2 hcopy]
        omega
      · rw [if_neg hcopy] at hn'
        simp only [hc, hcopy, ne_eq, not_false_eq_true, and_true, false_or]
        omega
    · have hunheld : ∀ u, w.copyOf u ≠ some n := fun u hu => hold (h.copies u n hu)
      have hnone : ¬w.Held n := fun hn => by
        obtain ⟨u, hu⟩ := (held_iff hk).mp hn
        exact hunheld u hu
      rw [if_neg hold, if_neg (hunheld t)] at hn'
      rw [users_fresh hk.tables (Nat.le_of_not_lt hold)]
      simp only [hnone, false_and, or_false, Finset.card_empty]
      omega
  · rw [hcopies u] at hu
    split at hu
    · exact (hnew n hu).2
    · exact lt_of_lt_of_le (h.copies u n hu) hfresh
  · by_cases hut : u = t <;> by_cases hvt : v = t
    · exact hut.trans hvt.symm
    · rw [hut, hself] at hu
      rw [hother v hvt] at hv
      exact absurd (hnew n hu).1 (Nat.not_le.mpr (h.copies v n hv))
    · rw [hother u hut] at hu
      rw [hvt, hself] at hv
      exact absurd (hnew n hv).1 (Nat.not_le.mpr (h.copies u n hu))
    · rw [hother u hut] at hu
      rw [hother v hvt] at hv
      exact h.own u v n hu hv

/-- The table that the take of the files makes is held, or is freed again. -/
theorem takeFiles_counts (env : Env) (fs : Files) (n : Nat) (hnone : d.ss.ssFiles = ⟨none, none⟩) :
    (∀ i, (fs.takeFilesSnapshot env n d).1.2.files = some i →
      fs.fresh ≤ i ∧ i < (fs.takeFilesSnapshot env n d).1.1.fresh) ∧
    ∀ i < (fs.takeFilesSnapshot env n d).1.1.fresh, ((fs.takeFilesSnapshot env n d).1.1.filesStruct i).count =
      (if i < fs.fresh then (fs.filesStruct i).count else 0) +
        if (fs.takeFilesSnapshot env n d).1.2.files = some i then 1 else 0 := by
  have hidle : ∀ copy : Option Nat, copy = none → (∀ i, copy = some i → fs.fresh ≤ i ∧ i < fs.fresh) ∧
      ∀ i < fs.fresh, (fs.filesStruct i).count =
        (if i < fs.fresh then (fs.filesStruct i).count else 0) + if copy = some i then 1 else 0 := by
    rintro copy rfl
    refine ⟨fun i hi => ?_, fun i hi => ?_⟩
    · cases hi
    · rw [if_pos hi]
      rfl
  have hfreed : d.ss.ssFiles.files = none := congrArg OpenFilesSnapshot.files hnone
  unfold Files.takeFilesSnapshot
  split
  swap
  · exact hidle none rfl
  split
  · rename_i fs' hdup
    rcases dupFd_eq env fs n with hno | ⟨fs₁, hsome, -⟩
    · rw [hno] at hdup
      obtain ⟨rfl, -⟩ := Prod.mk.inj hdup
      exact hidle _ hfreed
    · rw [hsome] at hdup
      cases hdup
  rename_i fs' copy hdup
  obtain ⟨rfl, hfresh, hcount⟩ := count_dupFd hdup
  have hmade : ∀ (fs₁ : Files) (k : Nat) (copy : Option Nat), fs₁.fresh = fs'.fresh →
      (∀ i, (fs₁.filesStruct i).count = if i = fs.fresh then k else (fs.filesStruct i).count) →
      (copy = none ∧ k = 0 ∨ copy = some fs.fresh ∧ k = 1) → (∀ i, copy = some i → fs.fresh ≤ i ∧ i < fs₁.fresh) ∧
      ∀ i < fs₁.fresh, (fs₁.filesStruct i).count =
        (if i < fs.fresh then (fs.filesStruct i).count else 0) + if copy = some i then 1 else 0 := by
    intro fs₁ k copy hsame hcount hcopy
    refine ⟨fun i hi => ?_, fun i hi => ?_⟩
    · rcases hcopy with ⟨rfl, -⟩ | ⟨rfl, -⟩
      · cases hi
      · have := Option.some.inj hi
        omega
    · rw [hcount]
      by_cases hnew : i = fs.fresh
      · subst hnew
        rcases hcopy with ⟨rfl, rfl⟩ | ⟨rfl, rfl⟩ <;> simp
      · have hlt : i < fs.fresh := by omega
        rcases hcopy with ⟨rfl, rfl⟩ | ⟨rfl, rfl⟩ <;> simp [hnew, hlt, Ne.symm hnew]
  have hput : ∀ i, ((fs'.putFilesStruct fs.fresh).filesStruct i).count =
      if i = fs.fresh then 0 else (fs.filesStruct i).count := fun i => by
    unfold Files.putFilesStruct
    rw [count_addCount]
    by_cases hi : i = fs.fresh
    · rw [if_pos hi, if_pos hi, hcount, if_pos rfl]
      rfl
    · rw [if_neg hi, if_neg hi, hcount, if_neg hi]
  dsimp only
  split
  · split
    · exact hmade fs' 1 _ rfl hcount (Or.inr ⟨rfl, rfl⟩)
    · exact hmade _ 0 _ rfl hput (Or.inl ⟨hfreed, rfl⟩)
  · exact hmade _ 0 _ rfl hput (Or.inl ⟨hfreed, rfl⟩)

/-- A take changes the copy of its task only. -/
theorem Took.copies {config : Nat} {d₀ : TaskData} (hT : Took env t config w id d₀ w') (u : Nat) : w'.copyOf u =
    if u = t then (w.fs.takeFilesSnapshot env (w.task t).files (w.taking env t config d₀).1.1).1.2.files
    else w.copyOf u := by
  split
  · rename_i hu
    unfold World.copyOf
    rw [hu, hT.live, Option.bind_some, hT.data]
    rfl
  · rename_i hu
    refine copyOf_congr (hT.others u hu) fun i hi => congrArg (·.ss.ssFiles) (hT.records i fun he => hu ?_)
    have hiu := (getTaskData_spec (live_eq_some.mp ((hT.others u hu).trans hi)).1).2
    have hit := (getTaskData_spec (live_eq_some.mp hT.live).1).2
    rw [← hiu, he, hit]

theorem World.Counted.took {config : Nat} {d₀ : TaskData} (h : w.Counted) (hk : w.Kept)
    (hT : Took env t config w id d₀ w') (hlive : w.core.reg.live t = none) : w'.Counted := by
  have hidle : w.copyOf t = none := by
    unfold World.copyOf
    rw [hlive]
    rfl
  have htasks : w.SameTasks w' := .of_task hT.freshTask hT.task
  obtain ⟨hnew, hcount⟩ := takeFiles_counts env w.fs (w.task t).files (hT.taking_noFiles hk)
  rw [← hT.fs] at hnew hcount
  refine h.recopied hk (hT.kept hk) (htasks.users fun u => by rw [hT.task]) ?_ hT.copies hnew fun n hn => ?_
  · rw [hT.fs]
    exact fresh_takeFiles ..
  · rw [hidle, hcount n hn]
    rfl

theorem World.Counted.take (h : w.Counted) (hk : w.Kept) (config : Nat) : (w.takeSnapshot env t config).1.Counted := by
  rcases takeSnapshot_cases env t config hk.coherent (hk.sorted t) with ⟨id, -, heq⟩ | ⟨-, -, heq⟩ | ⟨id, d₀, hlive, hT, -⟩
  · rw [heq]
    exact h
  · rw [heq]
    exact ⟨h.count, h.copies, h.own⟩
  · exact h.took hk hT hlive

/-- A clean puts the table that the snapshot holds. -/
theorem cleanSnapshot_fs (h : w.Kept) : (w.cleanSnapshot t).threads = w.threads ∧ (w.cleanSnapshot t).fs =
    match w.copyOf t with
    | some n => w.fs.putFilesStruct n
    | none => w.fs := by
  unfold World.cleanSnapshot World.copyOf
  cases hget : w.core.reg.getTaskData t with
  | none =>
    rw [live_of_getTaskData_none hget]
    exact ⟨rfl, rfl⟩
  | some id =>
    refine ⟨rfl, ?_⟩
    have hfiles : ((w.mapCore (·.cleanMemorySnapshot id)).core.reg.data id).ss.ssFiles = (w.core.reg.data id).ss.ssFiles := by
      simp only [World.mapCore, Core.cleanMemorySnapshot, Core.modifyData, setData_same]
      rfl
    dsimp only [World.mapCore] at hfiles ⊢
    unfold Files.cleanFilesSnapshot
    rw [hfiles]
    cases hmade : (w.core.reg.data id).haveSnapshot with
    | true =>
      rw [live_eq_some.mpr ⟨hget, hmade⟩, Option.bind_some]
      cases (w.core.reg.data id).ss.ssFiles.files <;> rfl
    | false =>
      have hnone : w.core.reg.live t = none := by
        unfold Registry.live Registry.ifLive
        rw [hget]
        simp [hmade]
      rw [hnone, (h.records id).noFiles hmade]
      rfl

theorem World.Counted.clean (h : w.Counted) (hk : w.Kept) : (w.cleanSnapshot t).Counted := by
  have hcleaned := cleanSnapshot_cleaned hk.coherent t
  have htasks := cleanSnapshot_tasks w t
  obtain ⟨-, hfs⟩ := cleanSnapshot_fs (t := t) hk
  have hfresh : (w.cleanSnapshot t).fs.fresh = w.fs.fresh := by
    rw [hfs]
    split <;> rfl
  have hcopies : ∀ u, (w.cleanSnapshot t).copyOf u = if u = t then none else w.copyOf u := fun u => by
    split
    · rename_i hu
      unfold World.copyOf
      rw [hu, live_of_getTaskData_none hcleaned.none]
      rfl
    · rename_i hu
      refine copyOf_congr (hcleaned.others u hu) fun i hi => congrArg (·.ss.ssFiles) (hcleaned.data i fun he => hu ?_)
      exact (getTaskData_spec (live_eq_some.mp hi).1).2.symm.trans he
  refine h.recopied hk (hk.clean t) (htasks.users fun u => by rw [hcleaned.task]) hfresh.ge hcopies
    (fun n hn => by cases hn) fun n hn => ?_
  rw [hfresh] at hn
  have hnone : (if (none : Option Nat) = some n then 1 else 0) = 0 := rfl
  rw [if_pos hn, hnone, Nat.add_zero, hfs]
  cases hcopy : w.copyOf t with
  | none => rfl
  | some i =>
    dsimp only
    unfold Files.putFilesStruct
    rw [count_addCount]
    by_cases hi : n = i
    · subst hi
      have hbal := h.count_eq hn
      rw [if_pos ((held_iff hk).mpr ⟨t, hcopy⟩)] at hbal
      rw [if_pos rfl, if_pos rfl]
      omega
    · rw [if_neg hi, if_neg fun he => hi (Option.some.inj he).symm]
      rfl

/-! ### New tasks -/

/-- The memory of the child is not that of a task that a group still has. -/
def World.Unlisted (w : World) (child : Nat) : Prop :=
  ∀ u, w.Running u → (w.task u).groupLeader ≠ child ∧ child ∉ w.threads (w.task u).groupLeader

theorem World.Grouped.unlisted (h : w.Grouped) : w.Unlisted w.freshTask := fun u hu =>
  ⟨(h.below u hu).1.ne, fun hin => lt_irrefl _ ((h.below u hu).2 _ hin)⟩

/-- A new task with the table `r`. -/
structure Joins (w w' : World) (child r : Nat) : Prop where
  new : ¬w.Running child
  running : ∀ u, w'.Running u ↔ u = child ∨ w.Running u
  files : (w'.task child).files = r
  task : ∀ u, u ≠ child → w'.task u = w.task u

theorem joins_of (hchild : child ≤ w.freshTask) (hnew : ¬w.Running child) (hfresh : w'.freshTask = max w.freshTask (child + 1))
    (halive : (w'.task child).alive = true) (htask : ∀ u, u ≠ child → w'.task u = w.task u) :
    Joins w w' child (w'.task child).files := by
  refine ⟨hnew, fun u => ?_, rfl, htask⟩
  unfold World.Running
  rw [hfresh]
  by_cases hu : u = child
  · subst hu
    exact iff_of_true ⟨lt_of_lt_of_le (Nat.lt_succ_self u) (le_max_right _ _), halive⟩ (Or.inl rfl)
  · rw [htask u hu, or_iff_right hu]
    refine and_congr_left fun _ => ?_
    rw [lt_max_iff]
    omega

theorem Joins.users (h : Joins w w' child r) :
    (w'.users r).card = (w.users r).card + 1 ∧ ∀ n, n ≠ r → w'.users n = w.users n := by
  have hmem : ∀ u n, u ∈ w'.users n ↔ if u = child then r = n else u ∈ w.users n := fun u n => by
    rw [mem_users, h.running]
    by_cases hu : u = child
    · rw [if_pos hu, hu, h.files, and_iff_right (Or.inl rfl)]
    · rw [if_neg hu, or_iff_right hu, h.task u hu, mem_users]
  have hout : ∀ n, child ∉ w.users n := fun n hin => h.new (mem_users.mp hin).1
  refine ⟨?_, fun n hn => ?_⟩
  · rw [← Finset.card_insert_of_notMem (hout r)]
    congr 1
    ext u
    rw [hmem, Finset.mem_insert]
    by_cases hu : u = child <;> simp [hu]
  · ext u
    rw [hmem]
    by_cases hu : u = child
    · rw [if_pos hu, hu]
      exact iff_of_false hn.symm (hout n)
    · rw [if_neg hu]

/-- The lists of groups are as before, or have the child at their end; its own list may be new. -/
theorem World.Grouped.joins (h : w.Grouped) (hj : Joins w w' child r) (hchild : w.Unlisted child)
    (hfresh : w.freshTask ≤ w'.freshTask) (htable : ∀ u, (∃ v, w.Running v ∧ u ∈ w.threads (w.task v).groupLeader) →
      ¬w.Running u → (w.task u).files ≠ r)
    (hlists : ∀ t, w'.Running t → (w'.task t).groupLeader < w'.freshTask ∧ t ∈ w'.threads (w'.task t).groupLeader ∧
      ∃ l, (l = [] ∨ ∃ v, w.Running v ∧ l = w.threads (w.task v).groupLeader) ∧
        (w'.threads (w'.task t).groupLeader = l ∨ w'.threads (w'.task t).groupLeader = l ++ [child])) : w'.Grouped := by
  have hmem : ∀ t, w'.Running t → ∀ u ∈ w'.threads (w'.task t).groupLeader,
      u = child ∨ ∃ v, w.Running v ∧ u ∈ w.threads (w.task v).groupLeader := by
    intro t ht u hu
    obtain ⟨-, -, l, hl, hlist⟩ := hlists t ht
    have hin : u ∈ l ++ [child] := by
      rcases hlist with heq | heq <;> rw [heq] at hu
      · exact List.mem_append_left _ hu
      · exact hu
    rcases List.mem_append.mp hin with hul | hul
    · rcases hl with rfl | ⟨v, hv, rfl⟩
      · cases hul
      · exact Or.inr ⟨v, hv, hul⟩
    · exact Or.inl (List.mem_singleton.mp hul)
  have hold : ∀ u, w.Running u → u ≠ child := fun u hu he => hj.new (he ▸ hu)
  refine ⟨fun t ht => (hlists t ht).2.1, fun t ht => ?_, fun t ht u hu hgone v hv => ?_, fun t ht =>
    ⟨(hlists t ht).1, fun u hu => ?_⟩⟩
  · obtain ⟨-, -, l, hl, hlist⟩ := hlists t ht
    have hnodup : l.Nodup ∧ child ∉ l := by
      rcases hl with rfl | ⟨v, hv, rfl⟩
      · exact ⟨List.nodup_nil, List.not_mem_nil⟩
      · exact ⟨h.once v hv, (hchild v hv).2⟩
    rcases hlist with heq | heq <;> rw [heq]
    · exact hnodup.1
    · exact List.nodup_append'.mpr ⟨hnodup.1, List.nodup_singleton _, fun x hx hx' =>
        hnodup.2 (List.mem_singleton.mp hx' ▸ hx)⟩
  · rw [hj.running, not_or] at hgone
    obtain ⟨v₀, hv₀, hin⟩ := (hmem t ht u hu).resolve_left hgone.1
    rw [hj.task u hgone.1]
    rcases (hj.running v).mp hv with rfl | hv
    · rw [hj.files]
      exact htable u ⟨v₀, hv₀, hin⟩ hgone.2
    · rw [hj.task v (hold v hv)]
      exact h.gone v₀ hv₀ u hin hgone.2 v hv
  · rcases hmem t ht u hu with rfl | ⟨v, hv, hin⟩
    · exact ((hj.running u).mpr (Or.inl rfl)).1
    · exact lt_of_lt_of_le ((h.below v hv).2 u hin) hfresh

theorem forkAt_child : (w.forkAt parent child).task child = { w.task parent with
    mm := w.core.mem.freshMm, files := w.fs.fresh, groupLeader := child, sigkill := false } := Function.update_self ..

theorem forkAt_joins (hchild : child ≤ w.freshTask) (hnew : ¬w.Running child) (hparent : w.Running parent) :
    Joins w (w.forkAt parent child) child w.fs.fresh := by
  have hj : Joins w (w.forkAt parent child) child _ := joins_of hchild hnew rfl (by rw [forkAt_child]; exact hparent.2)
    fun u hu => Function.update_of_ne hu ..
  rwa [forkAt_child] at hj

theorem cloneAt_child : (w.cloneAt parent child).task child = { w.task parent with sigkill := false } :=
  Function.update_self ..

theorem cloneAt_joins (hchild : child ≤ w.freshTask) (hnew : ¬w.Running child) (hparent : w.Running parent) :
    Joins w (w.cloneAt parent child) child (w.task parent).files := by
  have hj : Joins w (w.cloneAt parent child) child _ := joins_of hchild hnew rfl (by rw [cloneAt_child]; exact hparent.2)
    fun u hu => Function.update_of_ne hu ..
  rwa [cloneAt_child] at hj

theorem World.Grouped.forkAt (h : w.Grouped) (hk : w.Kept) (hj : Joins w (w.forkAt parent child) child w.fs.fresh)
    (hunlisted : w.Unlisted child) : (w.forkAt parent child).Grouped := by
  refine h.joins hj hunlisted (le_max_left _ _) (fun u _ _ => (hk.tables u).ne) fun t ht => ?_
  have hthreads : ∀ g, (w.forkAt parent child).threads g = if g = child then [child] else w.threads g := fun g =>
    Function.update_apply ..
  rcases (hj.running t).mp ht with rfl | hold
  · rw [forkAt_child, hthreads, if_pos rfl]
    exact ⟨ht.1, List.mem_singleton.mpr rfl, [], Or.inl rfl, Or.inr rfl⟩
  · rw [hj.task t fun he => hj.new (he ▸ hold), hthreads, if_neg (hunlisted t hold).1]
    exact ⟨lt_of_lt_of_le (h.below t hold).1 (le_max_left _ _), h.listed t hold, _, Or.inr ⟨t, hold, rfl⟩, Or.inl rfl⟩

theorem World.Grouped.cloneAt (h : w.Grouped) (hparent : w.Running parent)
    (hj : Joins w (w.cloneAt parent child) child (w.task parent).files) (hunlisted : w.Unlisted child) :
    (w.cloneAt parent child).Grouped := by
  refine h.joins hj hunlisted (le_max_left _ _) (fun u ⟨v, hv, hin⟩ hgone => h.gone v hv u hin hgone parent hparent)
    fun t ht => ?_
  have hthreads : ∀ g, (w.cloneAt parent child).threads g = if g = (w.task parent).groupLeader then
      w.threads (w.task parent).groupLeader ++ [child] else w.threads g := fun g => Function.update_apply ..
  rcases (hj.running t).mp ht with rfl | hold
  · rw [cloneAt_child, hthreads, if_pos rfl]
    exact ⟨lt_of_lt_of_le (h.below parent hparent).1 (le_max_left _ _), List.mem_append_right _ (List.mem_singleton.mpr rfl),
      _, Or.inr ⟨parent, hparent, rfl⟩, Or.inr rfl⟩
  · rw [hj.task t fun he => hj.new (he ▸ hold), hthreads]
    refine ⟨lt_of_lt_of_le (h.below t hold).1 (le_max_left _ _), ?_⟩
    split
    · rename_i hg
      rw [← hg]
      exact ⟨List.mem_append_left _ (h.listed t hold), _, Or.inr ⟨t, hold, rfl⟩, Or.inr rfl⟩
    · exact ⟨h.listed t hold, _, Or.inr ⟨t, hold, rfl⟩, Or.inl rfl⟩

/-- A new task takes a reference to its table, be it a new one or not. -/
theorem World.Counted.joins (h : w.Counted) (hk : w.Kept) (hk' : w'.Kept) (hj : Joins w w' child r)
    (hcopies : ∀ u, w'.copyOf u = w.copyOf u) (hfresh : w.fs.fresh ≤ w'.fs.fresh)
    (hcount : ∀ n < w'.fs.fresh, (w'.fs.filesStruct n).count =
      (if n < w.fs.fresh then (w.fs.filesStruct n).count else 0) + if n = r then 1 else 0) : w'.Counted := by
  obtain ⟨hself, hothers⟩ := hj.users
  have hheld : ∀ n, w'.Held n ↔ w.Held n := fun n => by
    rw [held_iff hk', held_iff hk]
    simp only [hcopies]
  refine ⟨fun n hn => ?_, fun u n hu => ?_, fun u v n hu hv => h.own u v n (hcopies u ▸ hu) (hcopies v ▸ hv)⟩
  · have hbefore : (if n < w.fs.fresh then (w.fs.filesStruct n).count else 0) =
        (w.users n).card + if w.Held n then 1 else 0 := by
      split
      · rename_i hold
        exact h.count_eq hold
      · rename_i hnew
        have hnone : ¬w.Held n := fun hn => by
          obtain ⟨u, hu⟩ := (held_iff hk).mp hn
          exact hnew (h.copies u n hu)
        rw [users_fresh hk.tables (Nat.le_of_not_lt hnew), if_neg hnone]
        rfl
    rw [hcount n hn, hbefore]
    simp only [hheld]
    by_cases hnr : n = r
    · rw [if_pos hnr, hnr, hself]
      omega
    · rw [if_neg hnr, hothers n hnr]
      rfl
  · exact lt_of_lt_of_le (h.copies u n (hcopies u ▸ hu)) hfresh

/-! ### All steps -/

/-- Threads are listed, and tables are counted, as they are to be. -/
structure World.Accounted (w : World) : Prop extends World.Kept w, World.Grouped w, World.Counted w

theorem World.Accounted.same (h : w.Accounted) (hk : w'.Kept) (hs : w.SameRefs w') : w'.Accounted :=
  ⟨hk, hs.grouped h.toGrouped, h.toCounted.same h.toKept hk hs⟩

theorem World.Accounted.restore (h : w.Accounted) (ht : w.Running t) : (w.restoreSnapshot env t id).Accounted :=
  ⟨(h.toKept.restoreSnapshot env t id).kept, h.toGrouped.restore h.toKept ht,
    h.toCounted.restore h.toKept h.toGrouped ht⟩

theorem World.Accounted.take (h : w.Accounted) (config : Nat) : (w.takeSnapshot env t config).1.Accounted := by
  refine ⟨h.toKept.take env t config, ?_, h.toCounted.take h.toKept config⟩
  rcases takeSnapshot_cases env t config h.coherent (h.sorted t) with ⟨id, -, heq⟩ | ⟨-, -, heq⟩ | ⟨id, d₀, -, hT, -⟩
  · rw [heq]
    exact h.toGrouped
  · rw [heq]
    exact h.toGrouped.same (.of_task rfl rfl) rfl (fun _ => rfl) fun _ _ _ _ hne => hne
  · exact h.toGrouped.same (.of_task hT.freshTask hT.task) hT.threads (fun u => by rw [hT.task]) fun u v _ _ hne => by
      rwa [hT.task]

theorem World.Accounted.clean (h : w.Accounted) (t : Nat) : (w.cleanSnapshot t).Accounted := by
  have hcleaned := cleanSnapshot_cleaned h.coherent t
  refine ⟨h.toKept.clean t, ?_, h.toCounted.clean h.toKept⟩
  exact h.toGrouped.same (cleanSnapshot_tasks w t) (cleanSnapshot_fs h.toKept).1 (fun u => by rw [hcleaned.task])
    fun u v _ _ hne => by rwa [hcleaned.task]

variable (env t w) in
theorem addVmrange_fs (f : RangeLists → RangeLists) :
    (w.addVmrange env t f).fs = w.fs ∧ (w.addVmrange env t f).threads = w.threads := by
  unfold World.addVmrange World.ensureTaskData
  generalize w.core.reg.ensureTaskData t env.kzallocTaskData = r
  obtain ⟨reg, o⟩ := r
  cases o <;> dsimp only <;> split <;> exact ⟨rfl, rfl⟩

theorem World.Accounted.addVmrange (h : w.Accounted) (f : RangeLists → RangeLists) :
    (w.addVmrange env t f).Accounted := by
  have hgiven := addVmrange_given env t h.coherent f
  obtain ⟨hfs, hthreads⟩ := addVmrange_fs env t w f
  refine h.same (h.toKept.addVmrange env t f) ⟨fun n => by rw [hfs], by rw [hfs], fun u => by rw [hgiven.task],
    fun u => by rw [hgiven.task], hthreads, .of_task hgiven.freshTask hgiven.task, fun u => ?_⟩
  refine copyOf_congr (hgiven.live u) fun i hi => ?_
  obtain ⟨ranges, hranges⟩ := (hgiven.data u i hi).1
  rw [hranges]

theorem count_call (fs : Files) (n : Nat) (op : FileOp) (i : Nat) :
    ((fs.call n op).filesStruct i).count = (fs.filesStruct i).count := by
  have hinstall : ∀ fd file, ((fs.install n fd file).filesStruct i).count = (fs.filesStruct i).count := fun fd file => by
    show (Function.update fs.filesStruct n _ i).count = _
    by_cases hi : i = n
    · rw [hi, Function.update_self]
    · rw [Function.update_of_ne hi]
  by_cases hi : i = n
  swap
  · rw [fds_call fs n op hi]
  have hseek : ∀ fd pos, (fs.seek n fd pos).filesStruct i = fs.filesStruct i := fun fd pos => by
    unfold Files.seek
    split
    · split <;> rfl
    · rfl
  cases op with
  | open_ file => exact hinstall _ _
  | close fd => exact hinstall _ _
  | dup fd =>
    unfold Files.call
    dsimp only
    split
    · exact hinstall _ _
    · rfl
  | dup2 fd new =>
    unfold Files.call
    dsimp only
    split
    · exact hinstall _ _
    · rfl
  | read fd pos => rw [show fs.call n (.read fd pos) = fs.seek n fd pos from rfl, hseek]
  | write fd pos => rw [show fs.call n (.write fd pos) = fs.seek n fd pos from rfl, hseek]
  | lseek fd pos => rw [show fs.call n (.lseek fd pos) = fs.seek n fd pos from rfl, hseek]

theorem World.Accounted.call (h : w.Accounted) (op : FileOp) : (w.step env t (.file op)).Accounted :=
  h.same (h.toKept.step env t (.file op)).1
    ⟨count_call _ _ op, fresh_call .., fun _ => rfl, fun _ => rfl, rfl, .of_task rfl rfl, fun _ => rfl⟩

/-- A step of the core alone. -/
theorem World.Accounted.setCore (h : w.Accounted) (heq : w' = { w with core := w'.core }) (hs : w.core.Steady env w'.core) :
    w'.Accounted := by
  refine h.same (h.toKept.of_steady hs fun u => ?_) ⟨fun n => ?_, ?_, fun u => ?_, fun u => ?_, ?_, .of_task ?_ ?_, hs.copyOf⟩ <;>
    rw [heq]
  exact h.tables u

theorem World.Accounted.forkAt (h : w.Accounted) (hparent : w.Running parent) (hchild : child ≤ w.freshTask)
    (hnew : ¬w.Running child) (hunlisted : w.Unlisted child) : (w.forkAt parent child).Accounted := by
  have hj := forkAt_joins hchild hnew hparent
  have hk := h.toKept.forkAt parent child
  refine ⟨hk, h.toGrouped.forkAt h.toKept hj hunlisted, h.toCounted.joins h.toKept hk hj (fun _ => rfl)
    (Nat.le_succ _) fun n hn => ?_⟩
  have hn : n < w.fs.fresh + 1 := hn
  show (Function.update w.fs.filesStruct w.fs.fresh _ n).count = _
  by_cases he : n = w.fs.fresh
  · rw [he, Function.update_self, if_neg (lt_irrefl _), if_pos rfl]
  · rw [Function.update_of_ne he, if_pos (by omega), if_neg he]
    rfl

theorem World.Accounted.cloneAt (h : w.Accounted) (hparent : w.Running parent) (hchild : child ≤ w.freshTask)
    (hnew : ¬w.Running child) (hunlisted : w.Unlisted child) : (w.cloneAt parent child).Accounted := by
  have hj := cloneAt_joins hchild hnew hparent
  have hk := h.toKept.cloneAt parent child
  refine ⟨hk, h.toGrouped.cloneAt hparent hj hunlisted, h.toCounted.joins h.toKept hk hj (fun _ => rfl) le_rfl
    fun n hn => ?_⟩
  show ((w.fs.addCount (w.task parent).files 1).filesStruct n).count = _
  rw [count_addCount, if_pos (show n < w.fs.fresh from hn)]
  by_cases he : n = (w.task parent).files
  · rw [if_pos he, if_pos he, he]
    omega
  · rw [if_neg he, if_neg he]
    rfl

theorem forkAt_fresh (w : World) (parent : Nat) : w.forkAt parent w.freshTask = w.fork parent := by
  unfold World.forkAt
  rw [max_eq_right (Nat.le_succ _)]
  rfl

theorem World.Accounted.step (h : w.Accounted) (ht : w.Running t) {op : Op} (hop : ¬op.Departs (w.standing t)) :
    (w.step env t op).Accounted := by
  have hrange : ∀ f, (if env.copyFromUser then (w.addVmrange env t f, (0 : Int)) else (w, -22)).1.Accounted := fun f => by
    split
    · exact h.addVmrange f
    · exact h
  cases op with
  | file op => exact h.call op
  | fork =>
    show (w.fork t).Accounted
    rw [← forkAt_fresh]
    exact h.forkAt ht le_rfl (fun hrun => lt_irrefl _ hrun.1) h.toGrouped.unlisted
  | ioctl cmd =>
    cases cmd with
    | excludeVmrange start end_ => exact hrange _
    | includeVmrange start end_ => exact hrange _
    | take config => exact h.take config
    | do_ => exact h.take _
    | restore =>
      show (w.recoverSnapshot env t).1.Accounted
      unfold World.recoverSnapshot
      split
      · exact h
      · exact h.restore ht
    | clean => exact h.clean t
  | exit => exact absurd trivial hop
  | exitGroup =>
    obtain ⟨id, heq⟩ := sysExitGroupHook_stays env (not_not.mp hop)
    show (w.sysExitGroupHook env t).Accounted
    rw [heq]
    exact h.restore ht
  | read _ | write _ _ | discard _ | munmap _ _ | brk _ | mprotect _ _ _ | mmap _ _ _ _ _ | movePages _ _ _
  | swapIn _ _ _ => exact h.setCore rfl (steady_quiet h.coherent trivial)

theorem World.Accounted.lookup (h : w.Accounted) (cpu tsk : Nat) : (w.lookup cpu tsk).Accounted := by
  refine h.same (h.toKept.lookup cpu tsk) ⟨fun _ => rfl, rfl, fun _ => rfl, fun _ => rfl, rfl, .of_task rfl rfl, fun u => ?_⟩
  obtain ⟨hsame, -, -⟩ := withCache_spec h.coherent cpu tsk
  have hlookup : w.core.reg.SameButCaches (w.lookup cpu tsk).core.reg := hsame
  unfold World.copyOf
  rw [hlookup]
  rfl

/-- No task exits, and none gets the memory of a task that a group still has. -/
def World.Stays (w : World) : Deed → Prop
  | .move _ t op => ¬op.Departs (w.standing t)
  | .fork _ child | .clone _ child => w.Unlisted child
  | .lookup _ _ => True

theorem World.Accounted.happen (h : w.Accounted) {a : Deed} (ha : w.Stays a) : (w.happen a).Accounted := by
  cases a with
  | move env tsk op =>
    unfold World.happen
    dsimp only
    split
    · rename_i hrun
      exact h.step hrun ha
    · exact h
  | fork parent child =>
    unfold World.happen
    dsimp only
    split
    · rename_i hnew
      exact h.forkAt hnew.1 hnew.2.1 hnew.2.2 ha
    · exact h
  | clone parent child =>
    unfold World.happen
    dsimp only
    split
    · rename_i hnew
      exact h.cloneAt hnew.1 hnew.2.1 hnew.2.2 ha
    · exact h
  | lookup cpu tsk => exact h.lookup cpu tsk

/-- In every state that is reached the count of a table is the number of tasks that have it, and one more if it is held
    as the snapshot; it is freed if and only if none has it and it is not held. A restore whose files go through gives
    the caller a new table, which exactly the threads share that shared the caller's table. -/
theorem references_counted (h₀ : w₀.Accounted) (hrun : Run World.happen World.Stays w₀ w) :
    (∀ n < w.fs.fresh, (w.fs.filesStruct n).count = (w.users n).card + (if w.Held n then 1 else 0) ∧
      ((w.fs.filesStruct n).count = 0 ↔ (∀ t, w.Running t → (w.task t).files ≠ n) ∧ ¬w.Held n)) ∧
    ∀ env t d, w.Running t → w.recordOf t = some d → hasFlag d.config aflSnapshotFds = true → w.FilesBack env t →
      ((w.step env t (.ioctl .restore)).task t).files = w.fs.fresh ∧
      ∀ u, ((w.step env t (.ioctl .restore)).task u).files = ((w.step env t (.ioctl .restore)).task t).files ↔
        u ∈ w.threads (w.task t).groupLeader ∧ (w.task u).files = (w.task t).files := by
  have h : w.Accounted := hrun.invariant h₀ fun w a hw ha => hw.happen ha
  refine ⟨fun n hn => ⟨h.count_eq hn, ?_⟩, fun env t d ht hd hcfg hback => ?_⟩
  · rw [h.count_eq hn, Nat.add_eq_zero_iff, Finset.card_eq_zero, Finset.eq_empty_iff_forall_notMem]
    simp only [mem_users, not_and, ite_eq_right_iff, one_ne_zero, imp_false, ne_eq]
  · obtain ⟨id, hget, hres⟩ := hback
    obtain rfl := Option.some.inj ((recordOf_eq hget).symm.trans hd)
    have hrefs := beforeFiles_refs env t id h.toKept
    have hdata := (beforeFiles_spec env t id h.toKept).1.data id
    have htables : ∀ u, ((w.beforeFiles env t id).task u).files < (w.beforeFiles env t id).fs.fresh := fun u => by
      rw [hrefs.files, hrefs.fresh]
      exact h.tables u
    have hrec : (w.beforeFiles env t id).FilesRecover env t id := ⟨by rw [hdata]; exact hcfg, hres⟩
    have hfiles : ∀ u, ((w.step env t (.ioctl .restore)).task u).files =
        if u ∈ w.threads (w.task t).groupLeader ∧ (w.task u).files = (w.task t).files then w.fs.fresh
        else (w.task u).files := fun u => by
      rw [step_restore hget, restoreSnapshot_eq, recoverFiles_replaces htables hrec u, hrefs.threads, hrefs.groupLeader,
        hrefs.files, hrefs.files, hrefs.fresh]
    have hself : ((w.step env t (.ioctl .restore)).task t).files = w.fs.fresh := by
      rw [hfiles, if_pos ⟨h.listed t ht, rfl⟩]
    refine ⟨hself, fun u => ?_⟩
    rw [hself, hfiles]
    split
    · rename_i hu
      exact iff_of_true rfl hu
    · rename_i hu
      exact iff_of_false (h.tables u).ne hu

/-- Two threads and another process that share a table. -/
def sharing : World :=
  { World.boot heapMm [1, 2, 3] with
    fs := ⟨fun _ => ⟨3, []⟩, 1, fun _ => ⟨0, true⟩, 0⟩
    task := fun t => ⟨0, 0, if t = 3 then 3 else 1, fun _ => 0, t != 0, false⟩
    threads := fun g => if g = 3 then [3] else [1, 2] }

theorem sharing_accounted : sharing.Accounted := by
  have hkept := heapMm_kept [1, 2, 3]
  have hcopy : ∀ t, sharing.copyOf t = none := fun _ => rfl
  have hgroups : ∀ t < 4, (sharing.task t).alive = true → t ∈ sharing.threads (sharing.task t).groupLeader ∧
      (sharing.threads (sharing.task t).groupLeader).Nodup ∧ (sharing.task t).groupLeader < 4 ∧
      ∀ u ∈ sharing.threads (sharing.task t).groupLeader, u < 4 ∧ (sharing.task u).alive = true := by decide
  refine ⟨⟨hkept.coherent, hkept.mapped, hkept.records, fun _ => Nat.one_pos⟩,
    ⟨fun t ht => (hgroups t ht.1 ht.2).1, fun t ht => (hgroups t ht.1 ht.2).2.1, fun t ht u hu hgone => ?_,
      fun t ht => ⟨(hgroups t ht.1 ht.2).2.2.1, fun u hu => ((hgroups t ht.1 ht.2).2.2.2 u hu).1⟩⟩,
    ⟨fun n hn => ?_, fun t n hn => ?_, fun t u n hn => ?_⟩⟩
  · exact absurd ((hgroups t ht.1 ht.2).2.2.2 u hu) hgone
  · obtain rfl : n = 0 := Nat.lt_one_iff.mp hn
    decide
  · rw [hcopy] at hn
    cases hn
  · rw [hcopy] at hn
    cases hn

def sharingTaken : World := sharing.happen (.move .calm 1 (.ioctl (.take aflSnapshotFds)))

theorem references_counted_shared : ((sharingTaken.fs.filesStruct 0).count = 3 ∧ (sharingTaken.fs.filesStruct 1).count = 1) ∧
    ∀ u, ((sharingTaken.step .calm 1 (.ioctl .restore)).task u).files =
        ((sharingTaken.step .calm 1 (.ioctl .restore)).task 1).files ↔ u ∈ [1, 2] ∧ (sharingTaken.task u).files = 0 := by
  have hrun : Run World.happen World.Stays sharing sharingTaken := .step .start id
  obtain ⟨hcount, hshare⟩ := references_counted sharing_accounted hrun
  refine ⟨⟨?_, ?_⟩, (hshare .calm 1 _ (by decide) rfl (by decide) ⟨0, by decide, by decide⟩).2⟩
  · rw [(hcount 0 (by decide)).1]
    decide
  · rw [(hcount 1 (by decide)).1]
    decide

end
end AflSnapshot
