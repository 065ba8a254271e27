import AflSnapshot.Theorems.Descriptors
import AflSnapshot.Theorems.Protections

/-! # What holds in every state

Whatever the tasks do and whatever fails on the way, the registry stays `Coherent`, address spaces and recorded VMAs
stay well formed, and no record without a snapshot holds on to files (`World.Kept`). -/

namespace AflSnapshot
open Runs

structure TaskData.Kept (d : TaskData) : Prop where
  allVmas : SnapshotVmasOk d.ss.allVmas
  oldbrk : pageAlign d.ss.oldbrk < ulongMax
  noFiles : d.haveSnapshot = false → d.ss.ssFiles = ⟨none, none⟩

structure World.Kept (w : World) : Prop where
  coherent : w.core.reg.Coherent
  mapped : w.core.mem.Mapped
  records : ∀ id, (w.core.reg.data id).Kept
  tables : ∀ u, (w.task u).files < w.fs.fresh

/-! ### Kernel calls -/

section
variable {env : Env} {m : Nat} {c : Core}

theorem steady_brkShrink (h : c.reg.Coherent) {brk : Nat} : c.Steady env (c.brkShrink env m brk) := by
  unfold Core.brkShrink
  dsimp only
  split
  swap
  · exact .refl h
  rename_i hle
  have hbound : c.mem.Mapped → pageAlign brk < ulongMax := fun hm => lt_of_le_of_lt (pageAlign_mono hle) (hm m).2
  split
  · exact (Core.Steady.refl h).setBrk hbound
  · have hun : c.Steady env (c.doMunmap env m (pageAlign brk) (pageAlign (c.mem.mm m).brk - pageAlign brk)).1 :=
      steady_doMunmap h
    split
    · exact hun.setBrk hbound
    · exact hun

theorem steady_mprotect (h : c.reg.Coherent) {start len prot : Nat} : c.Steady env (c.mprotect env m start len prot) := by
  unfold Core.mprotect
  split
  · exact .refl h
  rename_i hargs
  rw [not_or, not_not] at hargs
  have hs : pageSize ∣ start := Nat.dvd_of_mod_eq_zero hargs.1
  have hle := le_pageAlign len
  exact (Core.Steady.refl h).setMem fun hm =>
    hm.setMm ((hm m).1.protect hs (Nat.dvd_add hs (pageAlign_dvd len)) (by omega)) (hm m).2

theorem steady_mmapFixed (h : c.reg.Coherent) {start len prot : Nat} {object : Option Nat} {shared : Bool} :
    c.Steady env (c.mmapFixed env m start len prot object shared) := by
  have halign : pageAlign (pageAlign len) = pageAlign len := pageAlign_of_dvd (pageAlign_dvd len)
  have hfirst : c.Steady env (if (c.mem.mm m).unmapped start (start + pageAlign len) then (c, (0 : Int))
      else c.doMunmap env m start (pageAlign len)).1 ∧ (c.mem.Mapped →
      (if (c.mem.mm m).unmapped start (start + pageAlign len) then (c, (0 : Int))
        else c.doMunmap env m start (pageAlign len)).2 = 0 →
      ((if (c.mem.mm m).unmapped start (start + pageAlign len) then (c, (0 : Int))
        else c.doMunmap env m start (pageAlign len)).1.mem.mm m).unmapped start (start + pageAlign len) = true) := by
    split
    · rename_i hfree
      exact ⟨.refl h, fun _ _ => hfree⟩
    · refine ⟨steady_doMunmap h, fun hm hres => ?_⟩
      have := doMunmap_unmapped (hm m).1 hres
      rwa [halign] at this
  unfold Core.mmapFixed
  dsimp only
  split
  · exact .refl h
  rename_i hargs
  rw [not_or, not_or, not_not, Nat.not_le] at hargs
  obtain ⟨hs, hlen, htop⟩ := hargs
  have hs : pageSize ∣ start := Nat.dvd_of_mod_eq_zero hs
  have hse : start < start + pageAlign len := by
    have := le_pageAlign len
    omega
  generalize (if (c.mem.mm m).unmapped start (start + pageAlign len) then (c, (0 : Int))
    else c.doMunmap env m start (pageAlign len)) = r at hfirst ⊢
  obtain ⟨hsteady, hfree⟩ := hfirst
  split
  · rename_i hok
    refine { hsteady with mapped := fun hm => ?_ }
    have hm' := hsteady.mapped hm
    exact hm'.setMm ((hm' m).1.insert hs (Nat.dvd_add hs (pageAlign_dvd len)) hse htop rfl
      ((Mm.unmapped_iff (hm' m).1 hse).mp (hfree hm hok.1))) (hm' m).2
  · exact hsteady

theorem steady_movePages (h : c.reg.Coherent) {old new len : Nat} : c.Steady env (c.movePages m old new len) := by
  unfold Core.movePages
  dsimp only
  split
  · exact (Core.Steady.refl h).setMem fun hm => hm.setMm (hm m).1 (hm m).2
  · exact .refl h

theorem steady_swapIn (h : c.reg.Coherent) {page : Nat} {data : Page} {write : Bool} :
    c.Steady env (c.swapIn m page data write) := by
  unfold Core.swapIn
  split
  · split
    · exact .refl h
    · exact (Core.Steady.refl h).setMem fun hm => Memory.Mapped.setPte hm.populate
  · exact .refl h

theorem steady_dupMm (h : c.reg.Coherent) {owner : Nat} : c.Steady env (c.setMem (c.mem.dupMm m owner)) := by
  refine (Core.Steady.refl h).setMem fun hm m' => ?_
  show VmasOk (((c.mem.setMm m _).setMm c.mem.freshMm _).mm m').freshVma
    (((c.mem.setMm m _).setMm c.mem.freshMm _).mm m').mmap ∧
    pageAlign (((c.mem.setMm m _).setMm c.mem.freshMm _).mm m').brk < ulongMax
  rw [mm_setMm, mm_setMm]
  split
  · exact hm m
  · split
    · exact hm m
    · exact hm m'

end

/-! ### Steps that leave the records -/

section
variable {env : Env} {t u id config : Nat} {w w' : World} {d d' : TaskData} {c' : Core}

theorem snapshotVmasOk_nil : SnapshotVmasOk [] := ⟨Spans.Ordered.nil, by simp, by simp⟩

theorem TaskData.Kept.new (tsk : Nat) : (TaskData.new tsk).Kept :=
  ⟨snapshotVmasOk_nil, show pageAlign 0 < ulongMax by decide, fun _ => rfl⟩

theorem TaskData.Kept.congr (h : d.Kept) (hd : SameButPages d d') : d'.Kept := by
  rw [hd]
  exact ⟨h.allVmas, h.oldbrk, h.noFiles⟩

theorem World.Kept.of_steady (h : w.Kept) (hs : w.core.Steady env w'.core) (htables : ∀ u, (w'.task u).files < w'.fs.fresh) :
    w'.Kept where
  coherent := hs.coherent
  mapped := hs.mapped h.mapped
  records id := (h.records id).congr (hs.data id)
  tables := htables

theorem fresh_call (fs : Files) (n : Nat) (op : FileOp) : (fs.call n op).fresh = fs.fresh := by
  have hseek : ∀ fd pos, (fs.seek n fd pos).fresh = fs.fresh := fun fd pos => by
    unfold Files.seek
    split
    · split <;> rfl
    · rfl
  cases op with
  | open_ file => rfl
  | close fd => rfl
  | dup fd =>
    unfold Files.call
    dsimp only
    split <;> rfl
  | dup2 fd new =>
    unfold Files.call
    dsimp only
    split <;> rfl
  | read fd pos => exact hseek fd pos
  | write fd pos => exact hseek fd pos
  | lseek fd pos => exact hseek fd pos

theorem World.Kept.fork (h : w.Kept) (t : Nat) : (w.fork t).Kept := by
  have hs : w.core.Steady .calm (w.fork t).core := steady_dupMm h.coherent
  refine h.of_steady hs fun u => ?_
  show (Function.update w.task w.freshTask _ u).files < w.fs.fresh + 1
  by_cases hu : u = w.freshTask
  · rw [hu, Function.update_self]
    exact Nat.lt_succ_self _
  · rw [Function.update_of_ne hu]
    exact Nat.lt_succ_of_lt (h.tables u)

/-! ### Range lists -/

theorem World.Kept.setReg (h : w.Kept) {reg : Registry} (hc : reg.Coherent) (hrecords : ∀ i, (reg.data i).Kept) :
    (w.mapCore fun c => { c with reg }).Kept := ⟨hc, h.mapped, hrecords, h.tables⟩

theorem kept_setData {reg : Registry} (h : ∀ i, (reg.data i).Kept) (hd : d.Kept) (i : Nat) :
    ((reg.setData id d).data i).Kept := by
  by_cases hi : i = id
  · rw [hi, setData_same]
    exact hd
  · rw [setData_of_ne hi]
    exact h i

variable (env t) in
theorem World.Kept.ensureTaskData (h : w.Kept) : (w.ensureTaskData env t).1.Kept := by
  refine h.setReg ?_ fun i => ?_
  · rcases ensureTaskData_spec h.coherent t env.kzallocTaskData with ⟨-, hc, -⟩ | ⟨-, -, heq⟩
    · exact hc
    · rw [heq]
      exact h.coherent
  · unfold Registry.ensureTaskData
    split
    · exact h.records i
    · split
      · exact kept_setData h.records (TaskData.Kept.new t) i
      · exact h.records i

theorem World.Kept.oops (h : w.Kept) : w.oops.Kept := ⟨h.coherent, h.mapped, h.records, h.tables⟩

variable (env t) in
theorem World.Kept.addVmrange (h : w.Kept) (f : RangeLists → RangeLists) : (w.addVmrange env t f).Kept := by
  have hens := h.ensureTaskData env t
  unfold World.addVmrange
  rcases hr : w.ensureTaskData env t with ⟨w₁, o⟩
  rw [hr] at hens
  cases o with
  | none =>
    dsimp only
    split
    · exact hens.oops
    · exact hens
  | some id =>
    dsimp only
    split
    · have hc : (w₁.core.reg.setData id { w₁.core.reg.data id with ranges := f (w₁.core.reg.data id).ranges }).Coherent :=
        hens.coherent.setData rfl rfl fun _ hb => hb
      refine hens.setReg hc (kept_setData hens.records ?_)
      exact ⟨(hens.records id).allVmas, (hens.records id).oldbrk, (hens.records id).noFiles⟩
    · exact hens

/-! ### Take -/

variable (env t config) in
/-- A take is refused, finds no memory for a record, or takes. -/
theorem takeSnapshot_cases (hc : w.core.reg.Coherent) (hsort : (w.mmOf t).Sorted) :
    (∃ id, w.core.reg.live t = some id ∧ w.takeSnapshot env t config = (w, 0)) ∨
    (w.core.reg.getTaskData t = none ∧ env.kzallocTaskData = false ∧ w.takeSnapshot env t config = (w.oops, 0)) ∨
    ∃ id d₀, w.core.reg.live t = none ∧ Took env t config w id d₀ (w.takeSnapshot env t config).1 ∧
      (w.takeSnapshot env t config).2 = 1 ∧ (w.core.reg.getTaskData t = none → env.kzallocTaskData = true) := by
  cases hlive : w.core.reg.live t with
  | some id => exact Or.inl ⟨id, rfl, takeSnapshot_live config hlive⟩
  | none =>
    refine Or.inr ?_
    by_cases halloc : w.core.reg.getTaskData t = none → env.kzallocTaskData = true
    · obtain ⟨id, d₀, hT, hres⟩ := takeSnapshot_took config hc hsort hlive halloc
      exact Or.inr ⟨id, d₀, rfl, hT, hres, halloc⟩
    · rw [Classical.not_imp] at halloc
      obtain ⟨hnone, hfail⟩ := halloc
      have hfail : env.kzallocTaskData = false := by simpa using hfail
      refine Or.inl ⟨hnone, hfail, ?_⟩
      unfold World.takeSnapshot World.ensureTaskData Registry.ensureTaskData
      rw [hnone, hfail]
      rfl

theorem World.Kept.sorted (h : w.Kept) (t : Nat) : (w.mmOf t).Sorted :=
  ⟨(h.mapped (w.task t).mm).1.ordered, (h.mapped (w.task t).mm).1.aligned⟩

theorem fresh_takeFiles (env : Env) (fs : Files) (n : Nat) (d : TaskData) :
    fs.fresh ≤ (fs.takeFilesSnapshot env n d).1.1.fresh := by
  unfold Files.takeFilesSnapshot
  by_cases hcfg : hasFlag d.config aflSnapshotFds = true
  swap
  · rw [if_neg hcfg]
  rw [if_pos hcfg]
  rcases dupFd_eq env fs n with hdup | ⟨fs', hdup, hfresh, -⟩
  · rw [hdup]
  have hle : fs.fresh ≤ fs'.fresh := hfresh ▸ Nat.le_succ _
  rw [hdup]
  dsimp only
  split
  · split
    · exact hle
    · exact hle
  · exact hle

theorem Took.kept {d₀ : TaskData} (hT : Took env t config w id d₀ w') (h : w.Kept) : w'.Kept := by
  have hblank : (w.initialized t config d₀).Blank := hT.fresh.2.2
  obtain ⟨done, rest, x, s, hd, hs, hres, -⟩ := take_taken env.take (h.sorted t) hblank
  have hres : (w.taking env t config d₀).1 = (s.data, s.mm) := hres
  have hvmas := (h.mapped (w.task t).mm).1
  have hbrk := (h.mapped (w.task t).mm).2
  refine ⟨hT.coherent, ?_, fun i => ?_, fun u => ?_⟩
  · rw [hT.mem, hres]
    dsimp only
    rw [hs.tables]
    exact h.mapped.setMm hvmas hbrk
  · by_cases hi : i = id
    · subst hi
      rw [hT.data, hres]
      refine ⟨?_, ?_, fun hmade => ?_⟩
      · show SnapshotVmasOk s.data.ss.allVmas
        rw [hs.allVmas]
        have hvmas : VmasOk (w.mmOf t).freshVma (done ++ rest) := hd ▸ hvmas
        exact hvmas.snapshotVmas _
      · show pageAlign s.data.ss.oldbrk < ulongMax
        rw [hs.same]
        exact hbrk
      · have hmade : s.data.ss.made = false := hmade
        rw [hs.same] at hmade
        cases hmade
    · rw [hT.records i hi]
      exact h.records i
  · rw [hT.task, hT.fs]
    exact lt_of_lt_of_le (h.tables u) (fresh_takeFiles ..)

variable (env t config) in
theorem World.Kept.take (h : w.Kept) : (w.takeSnapshot env t config).1.Kept := by
  rcases takeSnapshot_cases env t config h.coherent (h.sorted t) with ⟨id, -, heq⟩ | ⟨-, -, heq⟩ | ⟨id, d₀, -, hT, -⟩
  · rw [heq]
    exact h
  · rw [heq]
    exact h.oops
  · exact hT.kept h

/-! ### Restore -/

/-- The system when the files are to be restored. -/
def World.beforeFiles (env : Env) (t id : Nat) (w : World) : World :=
  ((w.recoverThreadsSnapshot t).recoverState env t id).mapCore fun c =>
    (c.recoverMemorySnapshot env (((w.recoverThreadsSnapshot t).recoverState env t id).task t).mm id).1

theorem restoreSnapshot_eq :
    w.restoreSnapshot env t id = ((w.beforeFiles env t id).recoverFilesSnapshot env t id).1 := rfl

/-- Files and descriptor tables are as before. -/
structure World.SameFiles (w w' : World) : Prop where
  fs : w'.fs = w.fs
  threads : w'.threads = w.threads
  files : ∀ u, (w'.task u).files = (w.task u).files
  groupLeader : ∀ u, (w'.task u).groupLeader = (w.task u).groupLeader

variable (env t id) in
theorem beforeFiles_spec (h : w.Kept) : w.core.Steady env (w.beforeFiles env t id).core ∧
    w.SameFiles (w.beforeFiles env t id) := by
  obtain ⟨hcore, hmm⟩ := recoverState_core env id (recoverThreads_same w t) t
  obtain ⟨hfs, hthreads, htask⟩ := recoverThreads_fs w t
  have hstate : ((w.recoverThreadsSnapshot t).recoverState env t id).fs = w.fs ∧
      ((w.recoverThreadsSnapshot t).recoverState env t id).threads = w.threads ∧
      ∀ u, (((w.recoverThreadsSnapshot t).recoverState env t id).task u).files = (w.task u).files ∧
        (((w.recoverThreadsSnapshot t).recoverState env t id).task u).groupLeader = (w.task u).groupLeader := by
    generalize w.recoverThreadsSnapshot t = w₁ at hfs hthreads htask
    rw [← hfs, ← hthreads]
    have hregs : ∀ u (regs : PtRegs), ((w₁.setTask t { w₁.task t with regs }).task u).files = (w.task u).files ∧
        ((w₁.setTask t { w₁.task t with regs }).task u).groupLeader = (w.task u).groupLeader := fun u regs => by
      show (Function.update w₁.task t _ u).files = _ ∧ (Function.update w₁.task t _ u).groupLeader = _
      by_cases hu : u = t
      · rw [hu, Function.update_self]
        exact htask t
      · rw [Function.update_of_ne hu]
        exact htask u
    unfold World.recoverState World.mapCore
    dsimp only
    split
    · exact ⟨rfl, rfl, fun u => hregs u _⟩
    · exact ⟨rfl, rfl, htask⟩
  have hbrk : w.core.Steady env ((w.recoverThreadsSnapshot t).recoverState env t id).core := by
    rw [hcore]
    exact steady_restoreBrk h.coherent (h.records id).oldbrk
  unfold World.beforeFiles
  generalize (w.recoverThreadsSnapshot t).recoverState env t id = w₂ at hstate hbrk
  have hrecord : SnapshotVmasOk (w₂.core.reg.data id).ss.allVmas := ((h.records id).congr (hbrk.data id)).allVmas
  exact ⟨hbrk.trans (steady_recoverMemorySnapshot hbrk.coherent (hbrk.mapped h.mapped) hrecord),
    hstate.1, hstate.2.1, fun u => (hstate.2.2 u).1, fun u => (hstate.2.2 u).2⟩

/-- What a restore leaves, whatever fails in it. -/
structure RestoreLeaves (env : Env) (w w' : World) : Prop where
  steady : w.core.Steady env w'.core
  kept : w'.Kept
  files : FilesRecovered w { w' with core := w.core }

variable (env t id) in
theorem World.Kept.restoreSnapshot (h : w.Kept) : RestoreLeaves env w (w.restoreSnapshot env t id) := by
  obtain ⟨hsteady, hsame⟩ := beforeFiles_spec env t id h
  have htables : ∀ u, ((w.beforeFiles env t id).task u).files < (w.beforeFiles env t id).fs.fresh := fun u => by
    rw [hsame.files, hsame.fs]
    exact h.tables u
  have hrec := recoverFiles_recovered env t id htables
  rw [restoreSnapshot_eq]
  generalize ((w.beforeFiles env t id).recoverFilesSnapshot env t id).1 = w' at hrec
  have hsteady' : w.core.Steady env w'.core := hrec.core ▸ hsteady
  have hfresh := hrec.fresh
  rw [hsame.fs] at hfresh
  refine ⟨hsteady', h.of_steady hsteady' fun u => ?_, rfl, hrec.threads.trans hsame.threads, fun u =>
    (hrec.groupLeader u).trans (hsame.groupLeader u), hfresh, fun n hn => ?_, fun u => ?_⟩
  · rcases hrec.files u with hu | ⟨hu, hlt⟩ <;> rw [hu]
    · rw [hsame.files]
      exact lt_of_lt_of_le (h.tables u) hfresh
    · exact hlt
  · have hfds := hrec.fds n (hsame.fs.symm ▸ hn)
    rw [hsame.fs] at hfds
    exact hfds
  · have hfiles := hrec.files u
    rw [hsame.files, hsame.fs] at hfiles
    exact hfiles

/-! ### Clean and exit -/

theorem World.Kept.clean (h : w.Kept) (t : Nat) : (w.cleanSnapshot t).Kept := by
  have hcleaned := cleanSnapshot_cleaned h.coherent t
  have hfs : (w.cleanSnapshot t).fs.fresh = w.fs.fresh := by
    unfold World.cleanSnapshot
    split
    · rfl
    · dsimp only [World.mapCore]
      unfold Files.cleanFilesSnapshot
      split <;> rfl
  refine ⟨hcleaned.coherent, hcleaned.mem ▸ h.mapped, fun i => ?_, fun u => ?_⟩
  · unfold World.cleanSnapshot
    split
    · exact h.records i
    · rename_i id hget
      have hcleared : ∀ files, (w.fs.cleanFilesSnapshot ((w.mapCore (·.cleanMemorySnapshot id)).core.reg.data id)).2 = files →
          files = ⟨none, none⟩ := fun files hfiles => by
        unfold Files.cleanFilesSnapshot at hfiles
        split at hfiles <;> exact hfiles.symm
      have hdata := hcleared _ rfl
      by_cases hi : i = id
      · subst hi
        have hrecord : ∀ fs files, files = ⟨none, none⟩ → ((World.mapCore { (w.mapCore (·.cleanMemorySnapshot i)) with
            fs := fs } fun c =>
              let c := c.modifyData i fun d => { d with ss := { d.ss with ssFiles := files } }
              let c := c.modifyData i TaskData.clearSnapshot
              { c with reg := c.reg.removeTaskData i }).core.reg.data i).Kept := by
          rintro fs files rfl
          simp only [World.mapCore, Core.cleanMemorySnapshot, Core.modifyData, Registry.removeTaskData, setData_same]
          exact { allVmas := snapshotVmasOk_nil, oldbrk := (h.records i).oldbrk, noFiles := fun _ => rfl }
        exact hrecord _ _ hdata
      · simp only [World.mapCore, Core.modifyData, Registry.removeTaskData, setData_of_ne hi, Core.cleanMemorySnapshot]
        exact h.records i
  · rw [hcleaned.task, hfs]
    exact h.tables u

theorem World.Kept.doExitOrig (h : w.Kept) (t : Nat) : (w.doExitOrig t).Kept := by
  have hs : w.core.Steady .calm (w.doExitOrig t).core := .refl h.coherent
  refine h.of_steady hs fun u => ?_
  show (Function.update w.task t _ u).files < w.fs.fresh
  by_cases hu : u = t
  · rw [hu, Function.update_self]
    exact h.tables t
  · rw [Function.update_of_ne hu]
    exact h.tables u

theorem cleanSnapshot_oops (h : w.Kept) (t : Nat) : (w.cleanSnapshot t).core.oops = w.core.oops :=
  (cleanSnapshot_cleaned h.coherent t).oops

/-- `do_exit` cleans a snapshot that was made, and exits. -/
theorem doExitHook_cases (w : World) (t : Nat) :
    w.doExitHook t = w.doExitOrig t ∨ w.doExitHook t = (w.cleanSnapshot t).doExitOrig t := by
  unfold World.doExitHook
  split
  · exact Or.inl rfl
  · split
    · exact Or.inr rfl
    · exact Or.inl rfl

/-- `exit_group` restores the snapshot; or else it cleans one that was made, kills the other threads and exits. -/
theorem sysExitGroupHook_cases (env : Env) (w : World) (t : Nat) :
    (∃ id, w.core.reg.getTaskData t = some id ∧ hasFlag (w.core.reg.data id).config aflSnapshotExit = true ∧
      (w.core.reg.data id).haveSnapshot = true ∧ w.sysExitGroupHook env t = w.restoreSnapshot env t id) ∨
    w.sysExitGroupHook env t = ((w.cleanSnapshot t).recoverThreadsSnapshot t).doExitHook t ∨
    w.sysExitGroupHook env t = (w.recoverThreadsSnapshot t).doExitHook t := by
  unfold World.sysExitGroupHook World.exitSnapshot
  cases hget : w.core.reg.getTaskData t with
  | none => exact Or.inr (Or.inr rfl)
  | some id =>
    dsimp only
    by_cases hback : (hasFlag (w.core.reg.data id).config aflSnapshotExit && (w.core.reg.data id).haveSnapshot) = true
    · rw [if_pos hback]
      obtain ⟨hflag, hmade⟩ := Bool.and_eq_true_iff.mp hback
      exact Or.inl ⟨id, rfl, hflag, hmade, rfl⟩
    · rw [if_neg hback]
      by_cases hhad : (w.core.reg.data id).hadSnapshot = true
      · rw [if_pos hhad]
        exact Or.inr (Or.inl rfl)
      · rw [if_neg hhad]
        exact Or.inr (Or.inr rfl)

theorem World.Kept.doExitHook (h : w.Kept) (t : Nat) :
    (w.doExitHook t).Kept ∧ (w.doExitHook t).core.oops = w.core.oops := by
  rcases doExitHook_cases w t with heq | heq <;> rw [heq]
  · exact ⟨h.doExitOrig t, rfl⟩
  · exact ⟨(h.clean t).doExitOrig t, cleanSnapshot_oops h t⟩

theorem World.Kept.recoverThreads (h : w.Kept) (t : Nat) : (w.recoverThreadsSnapshot t).Kept := by
  obtain ⟨hfs, -, htask⟩ := recoverThreads_fs w t
  have hs : w.core.Steady .calm (w.recoverThreadsSnapshot t).core := by
    rw [(recoverThreads_same w t).core]
    exact .refl h.coherent
  refine h.of_steady hs fun u => ?_
  · rw [(htask u).1, hfs]
    exact h.tables u

variable (env t) in
theorem World.Kept.exitGroup (h : w.Kept) : (w.sysExitGroupHook env t).Kept ∧
    (env.OnDemand → (w.sysExitGroupHook env t).core.oops = w.core.oops) := by
  have hexit : ∀ w : World, w.Kept → ((w.recoverThreadsSnapshot t).doExitHook t).Kept ∧
      ((w.recoverThreadsSnapshot t).doExitHook t).core.oops = w.core.oops := fun w h => by
    obtain ⟨h1, h2⟩ := (h.recoverThreads t).doExitHook t
    exact ⟨h1, h2.trans (by rw [(recoverThreads_same w t).core])⟩
  rcases sysExitGroupHook_cases env w t with ⟨id, -, -, -, heq⟩ | heq | heq <;> rw [heq]
  · have hr := h.restoreSnapshot env t id
    exact ⟨hr.kept, hr.steady.oops⟩
  · obtain ⟨h1, h2⟩ := hexit _ (h.clean t)
    exact ⟨h1, fun _ => h2.trans (cleanSnapshot_oops h t)⟩
  · obtain ⟨h1, h2⟩ := hexit w h
    exact ⟨h1, fun _ => h2⟩

/-! ### All steps -/

/-- The allocations go through whose results the module does not check: `ensure_task_data` where its callers use the
    record, and an entry that `page_add_new_anon_rmap_hook` makes on demand. -/
def Supplied (env : Env) (t : Nat) (w : World) : Op → Prop
  | .write _ _ | .ioctl .restore | .exitGroup => env.OnDemand
  | .ioctl (.excludeVmrange _ _) | .ioctl (.includeVmrange _ _) => w.core.reg.getTaskData t = none →
    env.copyFromUser = true → env.kmallocVmrange = true → env.kzallocTaskData = true
  | .ioctl (.take _) | .ioctl .do_ => w.core.reg.getTaskData t = none → env.kzallocTaskData = true
  | _ => True

theorem World.Kept.mapCore (h : w.Kept) {f : Core → Core} (hs : w.core.Steady env (f w.core)) : (w.mapCore f).Kept :=
  h.of_steady hs h.tables

theorem addVmrange_oops {f : RangeLists → RangeLists} (hsupplied : w.core.reg.getTaskData t = none →
    env.kmallocVmrange = true → env.kzallocTaskData = true) : (w.addVmrange env t f).core.oops = w.core.oops := by
  unfold World.addVmrange World.ensureTaskData Registry.ensureTaskData
  cases hget : w.core.reg.getTaskData t with
  | some id =>
    dsimp only
    split <;> rfl
  | none =>
    cases halloc : env.kzallocTaskData with
    | true =>
      rw [if_pos rfl]
      dsimp only
      split <;> rfl
    | false =>
      cases hnode : env.kmallocVmrange with
      | true => exact absurd ((hsupplied hget hnode).symm.trans halloc) (by simp)
      | false => rfl

theorem takeSnapshot_oops (h : w.Kept) (hsupplied : w.core.reg.getTaskData t = none → env.kzallocTaskData = true) :
    (w.takeSnapshot env t config).1.core.oops = w.core.oops := by
  rcases takeSnapshot_cases env t config h.coherent (h.sorted t) with ⟨id, -, heq⟩ | ⟨hnone, hfail, -⟩ | ⟨id, d₀, -, hT, -⟩
  · rw [heq]
  · rw [hsupplied hnone] at hfail
    cases hfail
  · exact hT.oops

/-- What does not go through the device, and is no exit. -/
def Op.Quiet : Op → Prop
  | .ioctl _ | .exit | .exitGroup => False
  | _ => True

/-- A step outside the device keeps the records, but for the pages that faults record. -/
theorem steady_quiet (hc : w.core.reg.Coherent) {op : Op} (hop : op.Quiet) : w.core.Steady env (w.step env t op).core := by
  cases op with
  | read addr => exact steady_readByte hc
  | write addr byte => exact steady_writeByte hc
  | discard addr => exact steady_zapPage _ _ hc
  | munmap start len => exact steady_doMunmap hc
  | brk brk => exact steady_brkShrink hc
  | mprotect start len prot => exact steady_mprotect hc
  | mmap start len prot object shared => exact steady_mmapFixed hc
  | movePages old new len => exact steady_movePages hc
  | swapIn addr data write => exact steady_swapIn hc
  | file op => exact .refl hc
  | fork => exact steady_dupMm hc
  | ioctl cmd => exact hop.elim
  | exit => exact hop.elim
  | exitGroup => exact hop.elim

variable (env t) in
/-- Every step keeps the invariant, and comes through where it is supplied with memory. -/
theorem World.Kept.step (h : w.Kept) (op : Op) : (w.step env t op).Kept ∧
    (Supplied env t w op → (w.step env t op).core.oops = w.core.oops) := by
  -- A step that makes no entry on demand is the same step with memory for entries.
  let env' : Env := { env with snapshotPage := fun _ => true }
  have hdemand : env'.OnDemand := fun _ => rfl
  have hsteady : ∀ f : Core → Core, w.core.Steady env' (f w.core) →
      (w.mapCore f).Kept ∧ (True → (w.mapCore f).core.oops = w.core.oops) := fun f hs =>
    ⟨h.mapCore hs, fun _ => hs.oops hdemand⟩
  have hrange : ∀ f, (if env.copyFromUser then (w.addVmrange env t f, (0 : Int)) else (w, -22)).1.Kept ∧
      ((w.core.reg.getTaskData t = none → env.copyFromUser = true → env.kmallocVmrange = true →
        env.kzallocTaskData = true) →
      (if env.copyFromUser then (w.addVmrange env t f, (0 : Int)) else (w, -22)).1.core.oops = w.core.oops) := by
    intro f
    by_cases hcopy : env.copyFromUser = true
    · rw [if_pos hcopy]
      exact ⟨h.addVmrange env t f, fun hs => addVmrange_oops fun hnone => hs hnone hcopy⟩
    · rw [if_neg hcopy]
      exact ⟨h, fun _ => rfl⟩
  have hc := h.coherent
  cases op with
  | read addr => exact hsteady (·.readByte env (w.task t).mm addr) (steady_readByte hc)
  | write addr byte =>
    have hs : w.core.Steady env (w.core.writeByte env (w.task t).mm addr byte) := steady_writeByte hc
    exact ⟨h.mapCore (f := (·.writeByte env (w.task t).mm addr byte)) hs, hs.oops⟩
  | discard addr => exact hsteady (·.zapPage (w.task t).mm (pageBase addr)) (steady_zapPage _ _ hc)
  | munmap start len => exact hsteady (fun c => (c.doMunmap env (w.task t).mm start len).1) (steady_doMunmap hc)
  | brk brk => exact hsteady (·.brkShrink env (w.task t).mm brk) (steady_brkShrink hc)
  | mprotect start len prot =>
    exact hsteady (·.mprotect env (w.task t).mm start len prot) (steady_mprotect hc)
  | mmap start len prot object shared =>
    exact hsteady (·.mmapFixed env (w.task t).mm start len prot object shared) (steady_mmapFixed hc)
  | movePages old new len => exact hsteady (·.movePages (w.task t).mm old new len) (steady_movePages hc)
  | swapIn addr data write =>
    exact hsteady (·.swapIn (w.task t).mm (pageBase addr) data write) (steady_swapIn hc)
  | file op =>
    have hs : w.core.Steady env w.core := .refl hc
    refine ⟨h.of_steady hs fun u => ?_, fun _ => rfl⟩
    exact lt_of_lt_of_eq (h.tables u) (fresh_call ..).symm
  | fork => exact ⟨h.fork t, fun _ => rfl⟩
  | ioctl cmd =>
    cases cmd with
    | excludeVmrange start end_ => exact hrange (·.exclude start end_)
    | includeVmrange start end_ => exact hrange (·.include_ start end_)
    | take config => exact ⟨h.take env t config, takeSnapshot_oops h⟩
    | do_ => exact ⟨h.take env t _, takeSnapshot_oops h⟩
    | restore =>
      show (w.recoverSnapshot env t).1.Kept ∧ (_ → (w.recoverSnapshot env t).1.core.oops = _)
      unfold World.recoverSnapshot
      split
      · exact ⟨h, fun _ => rfl⟩
      · rename_i id hget
        have hr := h.restoreSnapshot env t id
        exact ⟨hr.kept, hr.steady.oops⟩
    | clean => exact ⟨h.clean t, fun _ => cleanSnapshot_oops h t⟩
  | exit => exact ⟨(h.doExitHook t).1, fun _ => (h.doExitHook t).2⟩
  | exitGroup => exact h.exitGroup env t

end

/-! ### Runs -/

def World.move (w : World) (a : Move) : World := w.step a.env a.tsk a.op

section
variable {w₀ w : World} {allow : World → Move → Prop}

/-- Every state is kept so, whatever is done. -/
theorem kept_of_run (h : Run World.move allow w₀ w) (h₀ : w₀.Kept) : w.Kept :=
  h.invariant h₀ fun _ a hw _ => (hw.step a.env a.tsk a.op).1

theorem boot_kept {mm : Mm} (threads : List Nat) (hok : VmasOk mm.freshVma mm.mmap) (hbrk : pageAlign mm.brk < ulongMax) :
    (World.boot mm threads).Kept where
  coherent := boot_coherent mm threads
  mapped m := by
    show VmasOk (if m = 0 then mm else x86_64).freshVma (if m = 0 then mm else x86_64).mmap ∧
      pageAlign (if m = 0 then mm else x86_64).brk < ulongMax
    split
    · exact ⟨hok, hbrk⟩
    · exact ⟨⟨Spans.Ordered.nil, by simp [x86_64], by simp [x86_64], List.Pairwise.nil, by simp [x86_64]⟩, by decide⟩
  records _ := .new 0
  tables _ := Nat.one_pos

theorem heapMm_kept (threads : List Nat) : (World.boot heapMm threads).Kept := boot_kept threads heapMm_vmas (by decide)

/-- Nothing is allocated but records, and entries on demand. -/
def Env.starved : Env :=
  { Env.calm with
    kmallocVmrange := false
    take := ⟨fun _ => true, fun _ => false, fun _ => 0⟩
    pageData := fun _ => false
    kmallocOffsets := false }

/-- A take without memory for pages, a write, and a restore. -/
def starvedRun : World :=
  ((((World.boot heapMm [1]).move ⟨.calm, 1, .write 4096 7⟩).move ⟨.starved, 1, .ioctl (.take aflSnapshotFds)⟩).move
    ⟨.starved, 1, .write 8192 8⟩).move ⟨.starved, 1, .ioctl .restore⟩

end
end AflSnapshot
