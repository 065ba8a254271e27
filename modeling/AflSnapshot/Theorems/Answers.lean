import AflSnapshot.Theorems.Histories

/-! # What the commands answer

A restore is refused only where the task has no record at all, and `exclude_vmrange` and `include_vmrange` make records
too. Where it is not refused its answer is 0, whatever fails on the way; only the functions below it tell. -/

namespace AflSnapshot
open Runs

/-- A restore that is refused: it answers so, and leaves memory, files and tasks as they are. -/
structure World.Refuses (env : Env) (t : Nat) (w : World) : Prop where
  answer : (w.recoverSnapshot env t).2 ≠ 0
  mem : (w.recoverSnapshot env t).1.core.mem = w.core.mem
  fs : (w.recoverSnapshot env t).1.fs = w.fs
  task : (w.recoverSnapshot env t).1.task = w.task
  threads : (w.recoverSnapshot env t).1.threads = w.threads

/-- The task names ranges only while it has a live snapshot. -/
def RangesLive (t : Nat) (w : World) (a : Move) : Prop :=
  a.tsk = t → (∃ start end_, a.op = .ioctl (.excludeVmrange start end_) ∨ a.op = .ioctl (.includeVmrange start end_)) →
    w.core.reg.live t ≠ none

/-- The task has no record without a live snapshot. -/
def World.Settled (t : Nat) (w : World) : Prop := ∀ d, w.recordOf t = some d → d.haveSnapshot = true

section
variable {env : Env} {t u id config : Nat} {w w' : World}

theorem refuses_iff : w.Refuses env t ↔ w.recordOf t = none := by
  unfold World.recordOf
  cases hget : w.core.reg.getTaskData t with
  | none =>
    have hrefused : w.recoverSnapshot env t = (w, 1) := by
      unfold World.recoverSnapshot
      rw [hget]
    refine iff_of_true ⟨?_, ?_, ?_, ?_, ?_⟩ rfl <;> rw [hrefused]
    exact Int.one_ne_zero
  | some id =>
    refine iff_of_false (fun h => h.answer ?_) (by simp)
    unfold World.recoverSnapshot
    rw [hget]

/-! ### Records without a snapshot -/

theorem World.Settled.recordless (h : w.Settled t) (hlive : w.core.reg.live t = none) : w.recordOf t = none := by
  cases hget : w.core.reg.getTaskData t with
  | none =>
    rw [World.recordOf, hget]
    rfl
  | some id =>
    have := live_eq_some.mpr ⟨hget, h _ (recordOf_eq hget)⟩
    rw [hlive] at this
    cases this

theorem World.Settled.of_none (h : w.core.reg.getTaskData t = none) : w.Settled t := fun d hd => by
  rw [World.recordOf, h] at hd
  cases hd

theorem World.Settled.of_live (h : w.core.reg.live t = some id) : w.Settled t := fun d hd => by
  obtain ⟨hget, hmade⟩ := live_eq_some.mp h
  obtain rfl := Option.some.inj ((recordOf_eq hget).symm.trans hd)
  exact hmade

theorem World.Settled.same (h : w.Settled t) (hs : w.core.reg.SameRecord t w'.core.reg) : w'.Settled t := fun d hd => by
  obtain ⟨d₀, hd₀, hsame⟩ := hs.recordOf hd
  rw [hsame]
  exact h d₀ hd₀

theorem settled_take (h : w.Kept) (hs : w.Settled t) : (w.takeSnapshot env t config).1.Settled t := by
  rcases takeSnapshot_cases env t config h.coherent (h.sorted t) with ⟨id, -, heq⟩ | ⟨-, -, heq⟩ | ⟨id, d₀, -, hT, -⟩
  · rw [heq]
    exact hs
  · rw [heq]
    exact hs
  · exact .of_live hT.live

theorem settled_addVmrange (hs : w.Settled t) (hlive : w.core.reg.live t ≠ none) (f : RangeLists → RangeLists) :
    (w.addVmrange env t f).Settled t := by
  obtain ⟨id, hid⟩ := Option.ne_none_iff_exists'.mp hlive
  obtain ⟨hget, hmade⟩ := live_eq_some.mp hid
  have hens : w.ensureTaskData env t = (w, some id) := by
    unfold World.ensureTaskData Registry.ensureTaskData
    rw [hget]
    rfl
  unfold World.addVmrange
  rw [hens]
  dsimp only
  split
  · have hkeep : ∀ d : TaskData, d.tsk = (w.core.reg.data id).tsk → d.haveSnapshot = (w.core.reg.data id).haveSnapshot →
        (w.core.reg.setData id d).live t = some id := fun d htsk hmade => ((setData_live htsk hmade).2 t).trans hid
    exact World.Settled.of_live (hkeep { w.core.reg.data id with ranges := f (w.core.reg.data id).ranges } rfl rfl)
  · exact hs

theorem settled_clean (h : w.Kept) : (w.cleanSnapshot t).Settled t :=
  .of_none (cleanSnapshot_cleaned h.coherent t).none

theorem settled_exit (h : w.Kept) (hs : w.Settled t) : (w.doExitHook t).Settled t := by
  rcases doExitHook_cases w t with heq | heq <;> rw [heq]
  · exact hs
  · exact settled_clean h

theorem settled_exitGroup (h : w.Kept) (hs : w.Settled t) : (w.sysExitGroupHook env t).Settled t := by
  have hexit : ∀ w : World, w.Kept → w.Settled t → ((w.recoverThreadsSnapshot t).doExitHook t).Settled t :=
    fun w h hs => settled_exit (h.recoverThreads t) (hs.same (by rw [(recoverThreads_same w t).core]; exact .refl t _))
  rcases sysExitGroupHook_cases env w t with ⟨id, -, -, -, heq⟩ | heq | heq <;> rw [heq]
  · exact hs.same ((h.restoreSnapshot env t id).steady.sameRecord t)
  · exact hexit _ (h.clean t) (settled_clean h)
  · exact hexit w h hs

variable (env u) in
theorem settled_step (h : w.Kept) (hs : w.Settled t) (op : Op) (hop : RangesLive t w ⟨env, u, op⟩) :
    (w.step env u op).Settled t := by
  by_cases hquiet : u = t → ¬op.Commands
  · exact hs.same (sameRecord_step env t u h op hquiet)
  rw [Classical.not_imp, not_not] at hquiet
  obtain ⟨rfl, hcommand⟩ := hquiet
  have hrange : ∀ f, w.core.reg.live u ≠ none →
      (if env.copyFromUser then (w.addVmrange env u f, (0 : Int)) else (w, -22)).1.Settled u := fun f hlive => by
    split
    · exact settled_addVmrange hs hlive f
    · exact hs
  cases op with
  | ioctl cmd =>
    cases cmd with
    | excludeVmrange start end_ => exact hrange _ (hop rfl ⟨start, end_, Or.inl rfl⟩)
    | includeVmrange start end_ => exact hrange _ (hop rfl ⟨start, end_, Or.inr rfl⟩)
    | take config => exact settled_take h hs
    | do_ => exact settled_take h hs
    | restore => exact hcommand.elim
    | clean => exact settled_clean h
  | exit => exact settled_exit h hs
  | exitGroup => exact settled_exitGroup h hs
  | read _ | write _ _ | discard _ | munmap _ _ | brk _ | mprotect _ _ _ | mmap _ _ _ _ _ | movePages _ _ _
  | swapIn _ _ _ | file _ | fork => exact hcommand.elim

end

/-! ### Refused restores -/

section
variable {t : Nat} {w w₀ : World} {allow : World → Move → Prop}

/-- Whatever was done before, a task without a live snapshot is refused a restore if and only if it has no record; it has
    none if it named ranges only while it had a live snapshot. -/
theorem restore_refused_iff (h₀ : w₀.Kept) (hnone : w₀.recordOf t = none) (hrun : Run World.move allow w₀ w)
    (hlive : w.core.reg.live t = none) :
    (∀ env, w.Refuses env t ↔ w.recordOf t = none) ∧
      ((∀ w a, allow w a → RangesLive t w a) → ∀ env, w.Refuses env t) := by
  refine ⟨fun env => refuses_iff, fun hallow env => refuses_iff.mpr ?_⟩
  have hsettled : w.Kept ∧ w.Settled t := by
    refine hrun.invariant (I := fun w => w.Kept ∧ w.Settled t)
      ⟨h₀, .of_none (by simpa [World.recordOf] using hnone)⟩ fun w a hw ha => ?_
    exact ⟨(hw.1.step a.env a.tsk a.op).1, settled_step a.env a.tsk hw.1 hw.2 a.op (hallow w a ha)⟩
  exact hsettled.2.recordless hlive

/-- A snapshot is taken, ranges are named, and the snapshot is cleaned. -/
def cleanedRun : World :=
  (((World.boot heapMm [1]).move ⟨.calm, 1, .ioctl (.take 0)⟩).move ⟨.calm, 1, .ioctl (.excludeVmrange 4096 8192)⟩).move
    ⟨.calm, 1, .ioctl .clean⟩

theorem restore_refused_cleaned : cleanedRun.core.reg.live 1 = none ∧ ∀ env, cleanedRun.Refuses env 1 := by
  have hrun : Run World.move (RangesLive 1) (World.boot heapMm [1]) cleanedRun := by
    refine .step (.step (.step .start ?_) ?_) ?_
    · rintro - ⟨start, end_, h | h⟩ <;> cases h
    · exact fun _ _ => by decide
    · rintro - ⟨start, end_, h | h⟩ <;> cases h
  exact ⟨by decide, (restore_refused_iff (heapMm_kept [1]) rfl hrun (by decide)).2 fun _ _ h => h⟩

/-- The heap with a program break at its end, one page of it written. -/
def brokenHeap : World := (World.boot { heapMm with brk := 12288 } [1]).step .calm 1 (.write 4096 7)

/-- A task that only named a range, which its heap is not in, gets the answer 0 to a restore, and loses its heap. -/
theorem restore_refused_fails :
    let w := brokenHeap.step .calm 1 (.ioctl (.excludeVmrange 0 4096))
    w.core.reg.live 1 = none ∧ (w.recoverSnapshot .calm 1).2 = 0 ∧ (w.mmOf 1).vmaAt 4096 = some heapVma ∧
      ((w.recoverSnapshot .calm 1).1.mmOf 1).vmaAt 4096 = none ∧ ¬w.Refuses .calm 1 := by
  refine ⟨by decide, by decide, by decide, by decide, fun h => ?_⟩
  exact absurd (refuses_iff.mp h) (Option.some_ne_none _)

end

/-! ### Restores where something fails -/

section
variable {env : Env} {t id brk m : Nat} {w : World} {c : Core}

/-- `restore_brk` answers 0 only where it has set the break. -/
theorem restoreBrk_told (hres : (c.restoreBrk env m brk).2 = 0) : ((c.restoreBrk env m brk).1.mem.mm m).brk = brk := by
  have hset : ∀ c : Core, ((c.setBrk m brk).mem.mm m).brk = brk := fun c => by
    show ((c.mem.setMm m { c.mem.mm m with brk }).mm m).brk = brk
    rw [mm_setMm_self]
  have hgrow : (Core.restoreBrk.growBrk env m brk (c.mem.mm m).brk c).2 = 0 →
      ((Core.restoreBrk.growBrk env m brk (c.mem.mm m).brk c).1.mem.mm m).brk = brk := by
    intro hres
    unfold Core.restoreBrk.growBrk at hres ⊢
    dsimp only at hres ⊢
    split at hres
    · cases hres
    · rename_i hneg
      rw [if_neg hneg]
      exact hset _
  unfold Core.restoreBrk at hres ⊢
  dsimp only at hres ⊢
  split at hres
  · rename_i heq
    rw [if_pos heq]
    exact hset c
  rename_i hne
  rw [if_neg hne]
  split at hres
  · rename_i hle
    rw [if_pos hle]
    split at hres
    · cases hres
    · rename_i hneg
      rw [if_neg hneg]
      exact hset _
  · rename_i hgt
    rw [if_neg hgt]
    split at hres
    · split at hres
      · cases hres
      · rename_i hroom
        rw [if_neg hroom]
        exact hgrow hres
    · exact hgrow hres

/-- The descriptors of the snapshot's table are those of the task's threads, and its files are at their offsets. -/
def World.FilesAgree (w w' : World) (t copy : Nat) (offsets : List Int) : Prop :=
  (∀ u ∈ w.threads (w.task t).groupLeader, (w.task u).files = (w.task t).files → ∀ fd,
    w'.fs.fileAt (w'.task u).files fd = w.fs.fileAt copy fd) ∧
  ∀ off : Nat → Int, (∀ fd f, w.fs.fileAt copy fd = some f → offsets.getD fd (-1) = off f) →
    ∀ fd f, w.fs.fileAt copy fd = some f → 0 ≤ off f → (w'.fs.file f).pos = off f

/-- A restore answers 0 if and only if the task has a record. In a restore `restore_brk` answers 0 only where the break is
    that of the snapshot, and `recover_files_snapshot` only where descriptors and offsets are. -/
theorem recover_answers (h : w.Kept) :
    (w.recoverSnapshot env t).2 = (if (w.recordOf t).isSome then 0 else 1) ∧
    ∀ id, w.core.reg.getTaskData t = some id →
      ((w.core.restoreBrk env (w.task t).mm (w.core.reg.data id).ss.oldbrk).2 = 0 →
        (((w.recoverThreadsSnapshot t).recoverState env t id).core.mem.mm (w.task t).mm).brk = (w.core.reg.data id).ss.oldbrk) ∧
      (hasFlag (w.core.reg.data id).config aflSnapshotFds = true →
        ((w.beforeFiles env t id).recoverFilesSnapshot env t id).2 = 0 →
        ∃ copy offsets, (w.core.reg.data id).ss.ssFiles = ⟨some copy, some offsets⟩ ∧
          w.FilesAgree (w.recoverSnapshot env t).1 t copy offsets) := by
  refine ⟨?_, fun id hget => ⟨fun hres => ?_, fun hflag hres => ?_⟩⟩
  · unfold World.recoverSnapshot World.recordOf
    cases hget : w.core.reg.getTaskData t with
    | none => rfl
    | some id => rfl
  · rw [(recoverState_core env id (recoverThreads_same w t) t).1]
    exact restoreBrk_told hres
  · obtain ⟨hsteady, hsame⟩ := beforeFiles_spec env t id h
    have hdata := hsteady.data id
    have htables : ∀ u, ((w.beforeFiles env t id).task u).files < (w.beforeFiles env t id).fs.fresh := fun u => by
      rw [hsame.files, hsame.fs]
      exact h.tables u
    obtain ⟨copy, offsets, hcopy, htable, hpos⟩ := recoverFiles_success htables (by rw [hdata]; exact hflag) hres
    rw [hdata] at hcopy
    rw [hsame.threads, hsame.groupLeader, hsame.fs] at htable
    rw [hsame.fs] at hpos
    have hrecover : (w.recoverSnapshot env t).1 = w.restoreSnapshot env t id := by
      unfold World.recoverSnapshot
      rw [hget]
    refine ⟨copy, offsets, hcopy, ?_⟩
    rw [hrecover, restoreSnapshot_eq]
    exact ⟨fun u hu hshared => htable u hu (by rw [hsame.files, hsame.files]; exact hshared), hpos⟩

/-- A process that lowered its break after a take. -/
def loweredHeap : World :=
  ((World.boot { heapMm with brk := 12288 } [1]).move ⟨.calm, 1, .ioctl (.take 0)⟩).move ⟨.calm, 1, .brk 8192⟩

/-- `vm_brk` fails. -/
def Env.noBrk : Env := { Env.calm with vmBrk := fun _ _ => false }

theorem recover_answers_zero : (loweredHeap.recoverSnapshot .noBrk 1).2 = 0 := by
  have hboot : (World.boot { heapMm with brk := 12288 } [1]).Kept := boot_kept [1] heapMm_vmas (by decide)
  have hkept : loweredHeap.Kept := ((hboot.step .calm 1 (.ioctl (.take 0))).1.step .calm 1 (.brk 8192)).1
  have hanswer : (loweredHeap.recoverSnapshot .noBrk 1).2 = _ := (recover_answers hkept).1
  rwa [if_pos (by decide)] at hanswer

theorem recover_answers_fails : loweredHeap.core.reg.live 1 = some 0 ∧ (loweredHeap.core.reg.data 0).ss.oldbrk = 12288 ∧
    (loweredHeap.recoverSnapshot .noBrk 1).2 = 0 ∧ ((loweredHeap.recoverSnapshot .noBrk 1).1.mmOf 1).brk = 8192 := by
  decide

end
end AflSnapshot
