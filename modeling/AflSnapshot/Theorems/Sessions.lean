import AflSnapshot.Lib.Runs
import AflSnapshot.Theorems.Commands

/-! # Runs with a snapshot

A session is a run of the system seen by one task that takes snapshots: the state, and with a live snapshot the states
before and after its take. `Tracked` says what holds in every state of it: the task is `Idle`, or it has a `Live`
snapshot of the state before the take. -/

namespace AflSnapshot

/-- A step of the system: what is decided outside the module, the task and what it does. -/
structure Move where
  env : Env
  tsk : Nat
  op : Op

structure Session where
  w : World
  /-- The states before and after the take of the live snapshot. -/
  taken : Option (World × World)

/-- The session of task `t` goes on. -/
def Session.step (t : Nat) (s : Session) (a : Move) : Session :=
  let w := s.w.step a.env a.tsk a.op
  { w
    taken := match a.op with
      | .ioctl (.take _) | .ioctl .do_ => if a.tsk = t ∧ s.w.core.reg.live t = none then some (s.w, w) else s.taken
      | .ioctl .clean => if a.tsk = t then none else s.taken
      | _ => s.taken }

/-- The task owns its address space and has no live snapshot. -/
structure Idle (t : Nat) (w : World) : Prop where
  sane : w.core.mem.Sane
  coherent : w.core.reg.Coherent
  owner : (w.mmOf t).owner = t
  used : (w.task t).mm < w.core.mem.freshMm
  live : w.core.reg.live t = none

/-- The task has a live snapshot, whose take began in `w₀` and ended in `w₁`. -/
structure Live (t : Nat) (w₀ w₁ w : World) (id : Nat) : Prop where
  mm : ∀ u, (w.task u).mm = (w₀.task u).mm
  record : w₁.core.reg.getTaskData t = some id
  ok : (w₀.homeAt w₁ t id).Ok
  restorable : Restorable (w₀.homeAt w₁ t id) w.core

/-- The state of a session; `P` is what is known of the live snapshot besides. -/
def Tracked (P : Home → Core → Prop) (t : Nat) (s : Session) : Prop :=
  match s.taken with
  | none => Idle t s.w
  | some (w₀, w₁) => ∃ id, Live t w₀ w₁ s.w id ∧ P (w₀.homeAt w₁ t id) s.w.core

section
variable {env : Env} {t u id addr : Nat} {w w' w₀ w₁ : World} {c c' : Core} {m : Nat} {byte : UInt8}

theorem Live.owner (h : Live t w₀ w₁ w id) : (w.mmOf t).owner = t ∧ w.core.reg.live t = some id := by
  have hlive := h.restorable.live
  have htsk : (w.core.reg.data id).tsk = t := by
    have hsame := h.restorable.same
    have hrec : (w₁.core.reg.data id).tsk = t := (getTaskData_spec h.record).2
    show (w.core.reg.data (w₀.homeAt w₁ t id).id).tsk = t
    rw [hsame]
    exact hrec
  have howner : (w.core.mem.mm (w₀.task t).mm).owner = t :=
    ((getTaskData_spec (live_eq_some.mp hlive).1).2).symm.trans htsk
  refine ⟨?_, ?_⟩
  · unfold World.mmOf
    rw [h.mm, howner]
  · rw [← howner]
    exact hlive

/-! ### The start -/

/-- The module has just been loaded; the tasks of one group share an address space in which no page is present. -/
def World.boot (mm : Mm) (threads : List Nat) : World where
  core := {
    mem := {
      frame := fun _ => ⟨fun _ => 0, false⟩
      freshPfn := 10
      pageCache := fun f p => 2 + (f + p / pageSize) % 8
      mm := fun m => if m = 0 then mm else x86_64
      freshMm := 1 }
    reg := ⟨[], fun _ => .new 0, 0, fun _ => none, fun _ => none, []⟩
    oops := false }
  fs := ⟨fun _ => ⟨1, []⟩, 1, fun _ => ⟨0, true⟩, 0⟩
  task := fun _ => ⟨0, 0, mm.owner, fun _ => 0, true, false⟩
  freshTask := threads.foldr max 0 + 1
  threads := fun _ => threads

/-- Nothing fails, and the kernel copies where it may. -/
def Env.calm : Env where
  cpu := 0
  kzallocTaskData := true
  kmallocVmrange := true
  take := ⟨fun _ => true, fun _ => true, fun _ => 0⟩
  snapshotPage := fun _ => true
  pageData := fun _ => true
  copyToUser := fun _ => true
  copyFromUser := true
  wpReuse := fun _ _ _ => false
  sharedWrite := fun _ => false
  keepWrite := fun _ => false
  vmMunmap := fun _ _ => true
  vmMmap := fun _ _ => true
  vmBrk := fun _ _ => true
  dupFd := true
  fdtSize := 64
  kmallocOffsets := true
  llseek := fun _ offset => offset

theorem calm_ok : Env.calm.Ok where
  kzallocTaskData := rfl
  kmallocVmrange := rfl
  snapshotVma _ := rfl
  takePage _ := rfl
  snapshotPage _ := rfl
  pageData _ := rfl
  copyToUser _ := rfl
  vmMunmap _ _ := rfl
  vmMmap _ _ := rfl
  vmBrk _ _ := rfl

theorem calm_reuseSound : Env.calm.ReuseSound := fun _ _ _ _ _ _ h => by cases h

theorem boot_sane {mm : Mm} (threads : List Nat) (hok : VmasOk mm.freshVma mm.mmap) (hpte : ∀ p, mm.pte p = .none) :
    (World.boot mm threads).core.mem.Sane := by
  have hmm : ∀ m p, (((World.boot mm threads).core.mem.mm m).pte p) = .none := fun m p => by
    show (if m = 0 then mm else x86_64).pte p = _
    split
    · exact hpte p
    · rfl
  refine ⟨⟨show 1 < 10 by decide, rfl⟩, fun f p => ⟨?_, rfl⟩, fun m => ⟨?_, fun p f w hp => ?_⟩, fun m p f w hp => ?_,
    fun m p f v hp => ?_, fun m hm => ?_⟩
  · show 2 + (f + p / pageSize) % 8 < 10
    omega
  · show VmasOk (if m = 0 then mm else x86_64).freshVma (if m = 0 then mm else x86_64).mmap
    split
    · exact hok
    · exact ⟨⟨by simp [x86_64], List.Pairwise.nil⟩, by simp [x86_64], by simp [x86_64], List.Pairwise.nil, by simp [x86_64]⟩
  · simp [hmm] at hp
  · simp [hmm] at hp
  · simp [hmm] at hp
  · have hm : 1 ≤ m := hm
    show (if m = 0 then mm else x86_64).mmap = []
    rw [if_neg (by omega)]
    rfl

theorem boot_coherent (mm : Mm) (threads : List Nat) : (World.boot mm threads).core.reg.Coherent where
  listed _ hi := by cases hi
  unique := List.Pairwise.nil
  blank _ hi := by cases hi
  cached _ _ _ hc := by cases hc
  answers _ _ hc := by cases hc

theorem boot_idle {mm : Mm} (threads : List Nat) (hok : VmasOk mm.freshVma mm.mmap) (hpte : ∀ p, mm.pte p = .none) :
    Idle mm.owner (World.boot mm threads) where
  sane := boot_sane threads hok hpte
  coherent := boot_coherent mm threads
  owner := rfl
  used := Nat.one_pos
  live := rfl

/-- A process with one private mapping of two pages, which it may write. -/
def heapVma : VmArea := ⟨0, 4096, 12288, vmRead ||| vmWrite, none⟩
def heapMm : Mm := { x86_64 with mmap := [heapVma], freshVma := 1, owner := 1 }

theorem heapMm_vmas : VmasOk heapMm.freshVma heapMm.mmap :=
  ⟨⟨by decide, by decide⟩, by decide, by decide, by decide, by decide⟩

theorem heapMm_vmaAt {a : Nat} (h1 : 4096 ≤ a) (h2 : a < 12288) : heapMm.vmaAt a = some heapVma :=
  (Spans.Ordered.find_eq_some heapMm_vmas.ordered).mpr ⟨List.mem_singleton_self _, h1, h2⟩

theorem heapMm_idle (threads : List Nat) : Idle 1 (World.boot heapMm threads) :=
  boot_idle threads heapMm_vmas fun _ => rfl

/-! ### Without a snapshot -/

/-- The steps of a task without a snapshot keep it such. -/
structure StaysIdle (m : Nat) (c c' : Core) : Prop where
  sane : c'.mem.Sane
  coherent : c'.reg.Coherent
  owner : (c'.mem.mm m).owner = (c.mem.mm m).owner
  freshMm : c'.mem.freshMm = c.mem.freshMm
  live : ∀ t, c'.reg.live t = c.reg.live t

theorem StaysIdle.refl (hs : c.mem.Sane) (hc : c.reg.Coherent) (m : Nat) : StaysIdle m c c :=
  ⟨hs, hc, rfl, rfl, fun _ => rfl⟩

theorem staysIdle_readByte (hs : c.mem.Sane) (hc : c.reg.Coherent) : StaysIdle m c (c.readByte env m addr) := by
  unfold Core.readByte
  cases hf : c.readFault env m (pageBase addr) with
  | none => exact .refl hs hc m
  | some c' =>
    obtain ⟨v, hv, -, hcase⟩ := readFault_cases hf
    have hF := hcase.faulted hs
    have hreg : c'.reg = c.reg := hcase.reg
    exact ⟨hcase.sane hs (pageBase_dvd addr) hv, hreg ▸ hc, hF.owner, hF.freshMm, fun _ => by rw [Option.getD_some, hreg]⟩

theorem staysIdle_writeByte (hs : c.mem.Sane) (hc : c.reg.Coherent) (hreuse : env.ReuseSound)
    (hlive : c.reg.live (c.mem.mm m).owner = none) : StaysIdle m c (c.writeByte env m addr byte) := by
  unfold Core.writeByte
  cases hf : c.writeFault env m (pageBase addr) with
  | none => exact .refl hs hc m
  | some c' =>
    have harmed : c.Armed m (pageBase addr) := fun id sp f w hid => by
      rw [hlive] at hid
      cases hid
    obtain ⟨v, hv, -, hcase⟩ := writeFault_cases hc hreuse (fun _ _ _ => harmed) hf
    have hF := hcase.faulted hs
    have ht := writeFault_touched hc hf
    obtain ⟨f, hpte⟩ := hcase.writable
    dsimp only
    rw [store_eq hpte]
    exact ⟨(hcase.sane hs (pageBase_dvd addr) hv).setFrame rfl, ht.coherent, hF.owner, hF.freshMm, ht.live⟩

theorem Idle.mapCore {f : Core → Core} (h : Idle t w) (hf : StaysIdle (w.task t).mm w.core (f w.core)) :
    Idle t (w.mapCore f) where
  sane := hf.sane
  coherent := hf.coherent
  owner := hf.owner.trans h.owner
  used := hf.freshMm.symm ▸ h.used
  live := (hf.live t).trans h.live

variable (env addr) in
theorem Idle.read (h : Idle t w) (hu : (w.task u).mm = (w.task t).mm) : Idle t (w.step env u (.read addr)) := by
  show Idle t (w.mapCore (·.readByte env (w.task u).mm addr))
  rw [hu]
  exact h.mapCore (staysIdle_readByte h.sane h.coherent)

variable (addr byte) in
theorem Idle.write (h : Idle t w) (hu : (w.task u).mm = (w.task t).mm) (hreuse : env.ReuseSound) :
    Idle t (w.step env u (.write addr byte)) := by
  show Idle t (w.mapCore (·.writeByte env (w.task u).mm addr byte))
  rw [hu]
  refine h.mapCore (staysIdle_writeByte h.sane h.coherent hreuse ?_)
  have howner : (w.core.mem.mm (w.task t).mm).owner = t := h.owner
  rw [howner]
  exact h.live

variable (env u) in
/-- `exclude_vmrange` and `include_vmrange`. -/
theorem Idle.addVmrange (h : Idle t w) (f : RangeLists → RangeLists) : Idle t (w.addVmrange env u f) := by
  have hgiven := addVmrange_given env u h.coherent f
  refine ⟨hgiven.mem ▸ h.sane, hgiven.coherent, ?_, ?_, (hgiven.live t).trans h.live⟩
  · have howner := h.owner
    unfold World.mmOf at howner ⊢
    rwa [hgiven.mem, hgiven.task]
  · rw [hgiven.mem, hgiven.task]
    exact h.used

theorem idle_clean (hs : w.core.mem.Sane) (hc : w.core.reg.Coherent) (howner : (w.mmOf t).owner = t)
    (hused : (w.task t).mm < w.core.mem.freshMm) : Idle t (w.cleanSnapshot t) := by
  have h := cleanSnapshot_cleaned hc t
  refine ⟨h.mem ▸ hs, h.coherent, ?_, ?_, live_of_getTaskData_none h.none⟩
  · unfold World.mmOf at howner ⊢
    rw [h.mem, h.task]
    exact howner
  · rw [h.mem, h.task]
    exact hused

/-! ### Take -/

variable (config : Nat)

/-- A take begins a session with a snapshot; nothing is to be written back yet. -/
theorem Idle.take (h : Idle t w) (henv : env.Allocates) : ∃ id, Live t w (w.takeSnapshot env t config).1
      (w.takeSnapshot env t config).1 id ∧
    DirtyWritable (w.homeAt (w.takeSnapshot env t config).1 t id) (w.takeSnapshot env t config).1.core ∧
    Whole (w.homeAt (w.takeSnapshot env t config).1 t id) (w.takeSnapshot env t config).1.core := by
  obtain ⟨id, d₀, hT, -⟩ :=
    takeSnapshot_took config h.coherent (h.sane.mms (w.task t).mm).sorted h.live fun _ =>
      henv.kzallocTaskData
  obtain ⟨hok, hR⟩ := hT.restorable h.sane henv h.owner h.used
  refine ⟨id, ⟨fun u => by rw [hT.task], (live_eq_some.mp hT.live).1, hok, hR⟩, hT.dirtyWritable h.sane henv,
    hT.whole h.sane henv⟩

theorem takeSnapshot_live (h : w.core.reg.live t = some id) : w.takeSnapshot env t config = (w, 0) := by
  obtain ⟨hget, hmade⟩ := live_eq_some.mp h
  unfold World.takeSnapshot World.ensureTaskData Registry.ensureTaskData
  rw [hget]
  dsimp only
  exact if_pos hmade

/-! ### With a snapshot -/

variable {config : Nat} {h : Home} {q : Nat}

theorem DirtyWritable.readByte (hw : DirtyWritable h c) (hs : c.mem.Sane) : DirtyWritable h (c.readByte env h.m addr) := by
  unfold Core.readByte
  cases hf : c.readFault env h.m (pageBase addr) with
  | none => exact hw
  | some c' =>
    obtain ⟨v, hv, -, hcase⟩ := readFault_cases hf
    intro p sp v' hsp hdirty hv'
    rw [Option.getD_some] at hsp hv'
    rw [hcase.reg] at hsp
    rw [(hcase.faulted hs).vmaAt] at hv'
    exact hw p sp v' hsp hdirty hv'

/-- A page that is written lies in a writable mapping. -/
theorem DirtyWritable.writeByte (hw : DirtyWritable h c) (hR : Restorable h c) (hreuse : env.ReuseSound) :
    DirtyWritable h (c.writeByte env h.m addr byte) := by
  unfold Core.writeByte
  cases hf : c.writeFault env h.m (pageBase addr) with
  | none => exact hw
  | some c' =>
    obtain ⟨v, hv, hwrite, hcase⟩ := writeFault_cases hR.coherent hreuse (fun v hv hs => hR.armed hv hs) hf
    have ht := writeFault_touched hR.coherent hf
    rw [hR.live] at ht
    obtain ⟨f, hpte⟩ := hcase.writable
    dsimp only
    rw [store_eq hpte]
    intro p sp v' hsp hdirty hv'
    have hv' : (c'.mem.mm h.m).vmaAt p = some v' := hv'
    rw [(hcase.faulted hR.sane).vmaAt] at hv'
    by_cases hp : p = pageBase addr
    · subst hp
      exact Option.some.inj (hv.symm.trans hv') ▸ hwrite
    · have hsp : (c'.reg.data h.id).getSnapshotPage p = some sp := hsp
      rw [(ht.data h.id rfl).others p hp] at hsp
      exact hw p sp v' hsp hdirty hv'

theorem Whole.congr (hW : Whole h c) (hmmap : (c'.mem.mm h.m).mmap = (c.mem.mm h.m).mmap)
    (hbrk : (c'.mem.mm h.m).brk = (c.mem.mm h.m).brk) : Whole h c' :=
  ⟨fun a ha => hmmap ▸ hW.mapped a ha, hbrk.trans hW.brk⟩

theorem Whole.readByte (hW : Whole h c) (hs : c.mem.Sane) : Whole h (c.readByte env h.m addr) := by
  unfold Core.readByte
  cases hf : c.readFault env h.m (pageBase addr) with
  | none => exact hW
  | some c' =>
    obtain ⟨v, hv, -, hcase⟩ := readFault_cases hf
    have hF := hcase.faulted hs
    exact hW.congr hF.mmap hF.brk

theorem Whole.writeByte (hW : Whole h c) (hR : Restorable h c) (hreuse : env.ReuseSound) :
    Whole h (c.writeByte env h.m addr byte) := by
  unfold Core.writeByte
  cases hf : c.writeFault env h.m (pageBase addr) with
  | none => exact hW
  | some c' =>
    obtain ⟨v, hv, -, hcase⟩ := writeFault_cases hR.coherent hreuse (fun v hv hs => hR.armed hv hs) hf
    have hF := hcase.faulted hR.sane
    obtain ⟨f, hpte⟩ := hcase.writable
    dsimp only
    rw [store_eq hpte]
    exact hW.congr hF.mmap hF.brk

theorem Live.mapCore {f : Core → Core} (h : Live t w₀ w₁ w id) (hf : Restorable (w₀.homeAt w₁ t id) (f w.core)) :
    Live t w₀ w₁ (w.mapCore f) id := ⟨h.mm, h.record, h.ok, hf⟩

theorem Live.clean (h : Live t w₀ w₁ w id) : Idle t (w.cleanSnapshot t) :=
  idle_clean h.restorable.sane h.restorable.coherent h.owner.1 (by rw [h.mm]; exact h.restorable.used)

/-- What a restore brings about. -/
structure Brought (t : Nat) (w₀ w₁ w w' : World) (id : Nat) : Prop where
  live : Live t w₀ w₁ w' id
  restored : Restored (w₀.homeAt w₁ t id) w'.core
  whole : Whole (w₀.homeAt w₁ t id) w.core → Whole (w₀.homeAt w₁ t id) w'.core

/-- `restore_brk` and the restore of the memory. -/
theorem Restorable.restore (hok : h.Ok) (hR : Restorable h c) (hw : DirtyWritable h c) (henv : env.Allocates)
    (hmaps : Whole h c ∨ env.Ok) (hreuse : env.ReuseSound)
    (hc' : c' = ((c.restoreBrk env h.m h.data.ss.oldbrk).1.recoverMemorySnapshot env h.m h.id).1) :
    Restored h c' ∧ (Whole h c → Whole h c') := by
  subst hc'
  obtain ⟨hR', hw', hmaps'⟩ := hR.restoreBrk hok hw hmaps
  obtain ⟨hres, hsame⟩ := hR'.recoverMemorySnapshot hok hw' henv hmaps' hreuse
  refine ⟨hres, fun hW => ⟨hres.mapped, ?_⟩⟩
  obtain ⟨heq, hW'⟩ := hW.restoreBrk env
  rw [hsame, heq]
  exact hW'.brk

theorem Live.restore (h : Live t w₀ w₁ w id) (hw : DirtyWritable (w₀.homeAt w₁ t id) w.core) (henv : env.Allocates)
    (hmaps : Whole (w₀.homeAt w₁ t id) w.core ∨ env.Ok) (hreuse : env.ReuseSound) :
    Brought t w₀ w₁ w (w.step env t (.ioctl .restore)) id := by
  obtain ⟨hcore, hmm⟩ := restoreSnapshot_core env w t id
  rw [step_restore (live_eq_some.mp h.owner.2).1]
  have hold : (w.core.reg.data id).ss.oldbrk = (w₀.homeAt w₁ t id).data.ss.oldbrk := by
    have hsame : w.core.reg.data id = _ := h.restorable.same
    rw [hsame]
  rw [hold, h.mm] at hcore
  obtain ⟨hres, hwhole⟩ := h.restorable.restore h.ok hw henv hmaps hreuse hcore
  exact ⟨⟨fun u => (hmm u).trans (h.mm u), h.record, h.ok, hres.restorable⟩, hres, hwhole⟩

theorem Live.recordOf_eq (hl : Live t w₀ w₁ w id) {d : TaskData} (hd : w₁.recordOf t = some d) :
    d = w₁.core.reg.data id := by
  unfold World.recordOf at hd
  rw [hl.record] at hd
  exact (Option.some.inj hd).symm

/-- The selected pages read again what they did at the take. -/
theorem Brought.pageOf (h : Brought t w₀ w₁ w w' id) {d : TaskData} (hd : w₁.recordOf t = some d) {page : Nat}
    (hsel : Selects d (w₀.mmOf t) page) :
    Spans.Covers (w'.mmOf t).mmap page ∧ w'.pageOf t page = w₀.pageOf t page := by
  rw [h.live.recordOf_eq hd] at hsel
  have hres := h.restored.content h.live.ok (p := page) hsel
  unfold World.mmOf World.pageOf
  rw [h.live.mm]
  exact hres

end
end AflSnapshot
