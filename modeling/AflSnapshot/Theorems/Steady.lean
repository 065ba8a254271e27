import AflSnapshot.Theorems.Walked

/-! # What runs over the records leave of them

Hooks, faults, the calls that change mappings and the rounds of a restore change the pages and the dirty list of a
record at most, whatever fails on the way, keep the list and the address spaces well formed, and come through where
entries can be allocated on demand (`Core.Steady`). -/

namespace AflSnapshot

/-! ### The sweep -/

section
variable {σ : Type} {ops ops' : VmOps σ} {I E : σ → Prop} {s : SweepState σ} {vm vm' : σ} {r : Int}
  {allVmas : List SnapshotVma}

/-- `I` where the result is 0, and `E` where it is an error. -/
def Upholds (I E : σ → Prop) (r : Int) (vm : σ) : Prop := if r = 0 then I vm else E vm

theorem upholds_same : Upholds I I r vm ↔ I vm := by
  unfold Upholds
  rw [ite_self]

theorem upholds_zero : Upholds I E 0 vm ↔ I vm := by
  unfold Upholds
  rw [if_pos rfl]

/-- The calls of the sweep keep `I`, but for a `vm_munmap` that fails, which leaves `E`. Nothing is mapped beyond the end
    of a snapshot VMA. -/
structure CallsKeep (ops : VmOps σ) (allVmas : List SnapshotVma) (I E : σ → Prop) : Prop where
  munmap : ∀ vm start len, I vm → Upholds I E (ops.munmap start len vm).2 (ops.munmap start len vm).1
  mmap : ∀ vm addr len, ∀ ss ∈ allVmas, (0 < len → addr + len ≤ ss.vmEnd) → I vm → I (ops.mmap addr len ss.prot vm).1

theorem sweepRegion_keeps (hI : CallsKeep ops allVmas I E) (hsub : ∀ ss ∈ s.ssVmaIter, ss ∈ allVmas) (h : I s.vm)
    {next : Nat} (hnext : s.inSsVmas = true → next ≤ Spans.nextPos ulongMax true s.ssVmaIter) :
    Upholds I E ((sweepRegion ops s next).2.getD 0) (sweepRegion ops s next).1 := by
  have hquiet : Upholds I E 0 s.vm := upholds_zero.mpr h
  unfold sweepRegion
  split
  · have hend := hI.munmap s.vm s.cursor (next - s.cursor) h
    dsimp only
    split
    · rename_i hres
      rwa [hres] at hend
    · exact hend
  · split
    · rename_i hin
      cases hss : s.ssVmaIter with
      | nil => exact hquiet
      | cons ss rest =>
        dsimp only
        split
        · have hmap : I (ops.mmap s.cursor (next - s.cursor) ss.prot s.vm).1 :=
            hI.mmap _ _ _ ss (hsub ss (hss ▸ List.mem_cons_self)) (fun hlen => by
              have hle := hnext hin.2.2
              rw [hss] at hle
              have hle : next ≤ ss.vmEnd := hle
              omega) h
          split <;> exact hmap
        · exact hquiet
    · exact hquiet

/-- What a round leaves: `I` and a rest of the snapshot's list, or what the loop ends with. -/
def SweepResult.Holds (I E : σ → Prop) (allVmas : List SnapshotVma) : SweepResult σ → Prop
  | .next s => I s.vm ∧ ∀ ss ∈ s.ssVmaIter, ss ∈ allVmas
  | .ret vm r => Upholds I E r vm
  | .oops => True

theorem sweepStep_keeps (hI : CallsKeep ops allVmas I E) (hsub : ∀ ss ∈ s.ssVmaIter, ss ∈ allVmas) (h : I s.vm) :
    (sweepStep ops s).Holds I E allVmas := by
  have hrest : ∀ (b : Prop) [Decidable b], ∀ ss ∈ (if b then Spans.rest s.inSsVmas s.ssVmaIter else s.ssVmaIter),
      ss ∈ s.ssVmaIter := by
    intro b _ ss hss
    split at hss
    · unfold Spans.rest at hss
      split at hss
      · exact List.mem_of_mem_tail hss
      · exact hss
    · exact hss
  unfold sweepStep
  split
  · exact upholds_zero.mpr h
  split
  · trivial
  · dsimp only
    generalize hnext : min (_ : Nat) _ = next
    have hkeep : Upholds I E ((sweepRegion ops s next).2.getD 0) (sweepRegion ops s next).1 :=
      sweepRegion_keeps hI hsub h fun hin => by
        rw [← hnext, ← hin]
        exact min_le_right _ _
    rcases hr : sweepRegion ops s next with ⟨vm, _ | res⟩ <;> rw [hr] at hkeep
    · exact ⟨upholds_zero.mp hkeep, fun ss hss => hsub ss (hrest _ ss hss)⟩
    · exact hkeep

/-- What the calls keep, the loop keeps. -/
theorem sweep_keeps (hI : CallsKeep ops allVmas I E) (hsub : ∀ ss ∈ s.ssVmaIter, ss ∈ allVmas) (n : Nat) (h : I s.vm)
    (hres : sweep ops n s = some (vm', r)) : Upholds I E r vm' := by
  induction n generalizing s with
  | zero => cases hres
  | succ n ih =>
    have hstep := sweepStep_keeps hI hsub h
    rw [sweep] at hres
    cases hr : sweepStep ops s with
    | next s' =>
      rw [hr] at hres hstep
      exact ih hstep.2 hstep.1 hres
    | ret vm res =>
      rw [hr] at hres hstep
      cases hres
      exact hstep
    | oops =>
      rw [hr] at hres
      cases hres

end

/-! ### Address spaces -/

/-- All address spaces are well formed, and the breaks lie below the top. -/
def Memory.Mapped (mem : Memory) : Prop :=
  ∀ m, VmasOk (mem.mm m).freshVma (mem.mm m).mmap ∧ pageAlign (mem.mm m).brk < ulongMax

section
variable {mem : Memory} {m page : Nat} {mm : Mm} {x : Pte}

theorem Memory.Mapped.setMm (h : mem.Mapped) (hvmas : VmasOk mm.freshVma mm.mmap) (hbrk : pageAlign mm.brk < ulongMax) :
    (mem.setMm m mm).Mapped := fun m' => by
  rw [mm_setMm]
  split
  · exact ⟨hvmas, hbrk⟩
  · exact h m'

theorem Memory.Mapped.setPte (h : mem.Mapped) : (mem.setPte m page x).Mapped := h.setMm (h m).1 (h m).2

theorem Memory.Mapped.populate (h : mem.Mapped) : (mem.setMm m ((mem.mm m).populate page)).Mapped :=
  h.setMm (h m).1 (h m).2

variable {start end_ : Nat}

theorem Memory.Mapped.unmap (h : mem.Mapped) (hs : pageSize ∣ start) (he : pageSize ∣ end_) (hse : start < end_) :
    (mem.setMm m ((mem.mm m).unmap start end_)).Mapped := h.setMm ((h m).1.unmap hs he hse) (h m).2

theorem Memory.Mapped.mapAnon (h : mem.Mapped) (hs : pageSize ∣ start) (he : pageSize ∣ end_) (hse : start < end_)
    (htop : end_ < ulongMax) (hfree : (mem.mm m).unmapped start end_ = true) (prot : Nat) :
    (mem.setMm m ((mem.mm m).mapAnon start end_ prot)).Mapped :=
  h.setMm ((h m).1.insert (v := anonVma (mem.mm m).freshVma start end_ prot) hs he hse htop rfl
    ((Mm.unmapped_iff (h m).1 hse).mp hfree)) (h m).2

end

/-! ### Records -/

/-- Every entry that is asked for on demand can be allocated. -/
def Env.OnDemand (env : Env) : Prop := ∀ p, env.snapshotPage p = true

/-- The records of `c'` are those of `c` but for pages and dirty lists, and nothing is broken. -/
structure Core.Steady (env : Env) (c c' : Core) : Prop where
  coherent : c'.reg.Coherent
  taskDataList : c'.reg.taskDataList = c.reg.taskDataList
  fresh : c'.reg.fresh = c.reg.fresh
  rcu : c'.reg.rcu = c.reg.rcu
  live : ∀ t, c'.reg.live t = c.reg.live t
  caches : c.reg.CachesFrom c'.reg
  data : ∀ id, SameButPages (c.reg.data id) (c'.reg.data id)
  queued : ∀ id, (c.reg.data id).Queued → (c'.reg.data id).Queued
  unique : ∀ id, (c.reg.data id).Unique → (c'.reg.data id).Unique
  mapped : c.mem.Mapped → c'.mem.Mapped
  oops : env.OnDemand → c'.oops = c.oops

section
variable {c c₁ c₂ c' : Core} {R : TaskData → TaskData → Prop} {o : Option Nat} {env : Env} {m page id : Nat}
  {g : TaskData → TaskData}

namespace Core.Steady

theorem refl (h : c.reg.Coherent) : c.Steady env c :=
  ⟨h, rfl, rfl, rfl, fun _ => rfl, .refl _, fun _ => .refl _, fun _ hq => hq, fun _ hu => hu, fun hm => hm, fun _ => rfl⟩

theorem trans (h₁ : c.Steady env c₁) (h₂ : c₁.Steady env c₂) : c.Steady env c₂ where
  coherent := h₂.coherent
  taskDataList := h₂.taskDataList.trans h₁.taskDataList
  fresh := h₂.fresh.trans h₁.fresh
  rcu := h₂.rcu.trans h₁.rcu
  live t := (h₂.live t).trans (h₁.live t)
  caches := h₁.caches.trans h₂.caches h₁.taskDataList
  data id := (h₁.data id).trans (h₂.data id)
  queued id hq := h₂.queued id (h₁.queued id hq)
  unique id hu := h₂.unique id (h₁.unique id hu)
  mapped hm := h₂.mapped (h₁.mapped hm)
  oops he := (h₂.oops he).trans (h₁.oops he)

/-- A further change of the memory. -/
theorem setMem (h : c.Steady env c₁) {mem : Memory} (hmem : c₁.mem.Mapped → mem.Mapped) : c.Steady env (c₁.setMem mem) where
  coherent := h.coherent
  taskDataList := h.taskDataList
  fresh := h.fresh
  rcu := h.rcu
  live := h.live
  caches := h.caches
  data := h.data
  queued := h.queued
  unique := h.unique
  mapped hm := hmem (h.mapped hm)
  oops := h.oops

theorem of_touched (h : c.reg.Touched o R c'.reg)
    (hR : ∀ d d', R d d' → SameButPages d d' ∧ (d.Queued → d'.Queued) ∧ (d.Unique → d'.Unique)) (hmem : c.mem.Mapped → c'.mem.Mapped)
    (hoops : env.OnDemand → c'.oops = c.oops) : c.Steady env c' where
  coherent := h.coherent
  taskDataList := h.taskDataList
  fresh := h.fresh
  rcu := h.rcu
  live := h.live
  caches := h.caches
  data id := by
    by_cases ho : o = some id
    · exact (hR _ _ (h.data id ho)).1
    · rw [h.others id ho]
      exact .refl _
  queued id hq := by
    by_cases ho : o = some id
    · exact (hR _ _ (h.data id ho)).2.1 hq
    · rwa [h.others id ho]
  unique id hu := by
    by_cases ho : o = some id
    · exact (hR _ _ (h.data id ho)).2.2 hu
    · rwa [h.others id ho]
  mapped := hmem
  oops := hoops

theorem getTaskData (h : c.Steady env c') (t : Nat) : c'.reg.getTaskData t = c.reg.getTaskData t := by
  have htsk : ∀ i, (c'.reg.data i).tsk = (c.reg.data i).tsk := fun i => by rw [h.data i]
  unfold Registry.getTaskData
  rw [h.taskDataList]
  simp only [htsk]

end Core.Steady

/-! ### Hooks and faults -/

variable (env m page) in
theorem steady_doWpPageHook (h : c.reg.Coherent) : c.Steady env (c.doWpPageHook env m page).1 := by
  obtain ⟨hrec, hoops, hres⟩ := doWpPageHook_spec env m page h
  refine .of_touched hrec.onlyPage (fun _ _ hd => ⟨hd.same, hd.queued, hd.unique⟩) (fun hm => ?_) fun _ => hoops
  rcases hres with ⟨-, hmem⟩ | ⟨-, hmem, -⟩ <;> rw [hmem]
  · exact hm
  · exact hm.setPte

theorem steady_pageAddNewAnonRmapHook (h : c.reg.Coherent) : c.Steady env (c.pageAddNewAnonRmapHook env m page) := by
  obtain ⟨hnoted, hmem, hoops⟩ := pageAddNewAnonRmapHook_spec env m page h
  exact .of_touched hnoted.onlyPage (fun _ _ hd => ⟨hd.same, hd.queued, hd.unique⟩) (fun hm => hmem ▸ hm) fun he => hoops (he page)

variable (env m) in
theorem steady_doMunmapHook (start len : Nat) (h : c.reg.Coherent) : c.Steady env (c.doMunmapHook env m start len) := by
  obtain ⟨hrec, hmem, hoops⟩ := doMunmapHook_spec env m start len h
  exact .of_touched hrec (fun _ _ hd => ⟨hd.same, hd.queued, hd.unique⟩) (fun hm => hmem ▸ hm) fun _ => hoops

theorem steady_newAnonPage (h : c.reg.Coherent) {source : Nat} : c.Steady env (c.newAnonPage env m page source) :=
  (steady_pageAddNewAnonRmapHook h).setMem fun hm => Memory.Mapped.setPte hm

theorem steady_doWpPage (h : c.reg.Coherent) {v : VmArea} {f : Nat} : c.Steady env (c.doWpPage env m v page f) := by
  have hhook := steady_doWpPageHook env m page h
  unfold Core.doWpPage
  rcases hr : c.doWpPageHook env m page with ⟨c₁, b⟩
  rw [hr] at hhook
  cases b with
  | true => exact hhook
  | false =>
    dsimp only
    split
    · exact hhook.setMem fun hm => hm.setPte
    · exact hhook.trans (steady_newAnonPage hhook.coherent)

theorem steady_writeFault (h : c.reg.Coherent) (hf : c.writeFault env m page = some c') : c.Steady env c' := by
  unfold Core.writeFault at hf
  split at hf
  · cases hf
  split at hf
  swap
  · cases hf
  split at hf
  · cases hf
    exact .refl h
  · cases hf
    exact steady_doWpPage h
  · cases hf
    have hpop : c.Steady env (c.setMem (c.mem.setMm m ((c.mem.mm m).populate page))) :=
      (Core.Steady.refl h).setMem fun hm => hm.populate
    split
    · exact hpop.setMem fun hm => hm.setPte
    · exact hpop.trans (steady_newAnonPage hpop.coherent)

theorem steady_store (h : c.reg.Coherent) {f : Page → Page} : c.Steady env (c.store m page f) := by
  unfold Core.store
  split
  · exact (Core.Steady.refl h).setMem fun hm => hm
  · exact .refl h

variable (env m page) in
theorem steady_copyToUser (data : Page) (h : c.reg.Coherent) : c.Steady env (c.copyToUser env m page data).1 := by
  unfold Core.copyToUser
  split
  · cases hf : c.writeFault env m page with
    | none => exact .refl h
    | some c' =>
      have hs := steady_writeFault h hf
      dsimp only
      exact hs.trans (steady_store hs.coherent)
  · exact .refl h

theorem steady_readFault (h : c.reg.Coherent) (hf : c.readFault env m page = some c') : c.Steady env c' := by
  unfold Core.readFault at hf
  split at hf
  · cases hf
  split at hf
  swap
  · cases hf
  split at hf <;> cases hf
  · exact .refl h
  · exact (Core.Steady.refl h).setMem fun hm => hm.populate.setPte

theorem steady_readByte (h : c.reg.Coherent) {addr : Nat} : c.Steady env (c.readByte env m addr) := by
  unfold Core.readByte
  cases hf : c.readFault env m (pageBase addr) with
  | none => exact .refl h
  | some c' => exact steady_readFault h hf

theorem steady_writeByte (h : c.reg.Coherent) {addr : Nat} {byte : UInt8} :
    c.Steady env (c.writeByte env m addr byte) := by
  unfold Core.writeByte
  cases hf : c.writeFault env m (pageBase addr) with
  | none => exact .refl h
  | some c' =>
    have hs := steady_writeFault h hf
    exact hs.trans (steady_store hs.coherent)

variable (m page) in
theorem steady_zapPage (h : c.reg.Coherent) : c.Steady env (c.zapPage m page) := by
  unfold Core.zapPage
  split
  · exact (Core.Steady.refl h).setMem fun hm => hm.setPte
  · exact .refl h

/-! ### Mappings -/

variable {start len : Nat}

theorem steady_doMunmap (h : c.reg.Coherent) : c.Steady env (c.doMunmap env m start len).1 := by
  have hhook := steady_doMunmapHook env m start len h
  unfold Core.doMunmap
  dsimp only
  split
  · exact hhook
  · rename_i hargs
    rw [not_or, not_not] at hargs
    split
    · refine hhook.setMem fun hm => hm.unmap (Nat.dvd_of_mod_eq_zero hargs.1)
        (Nat.dvd_add (Nat.dvd_of_mod_eq_zero hargs.1) (pageAlign_dvd len)) ?_
      have := le_pageAlign len
      omega
    · exact hhook

theorem steady_vmMmap (h : c.reg.Coherent) {prot : Nat}
    (htop : start % pageSize = 0 → 0 < len → start + pageAlign len < ulongMax) :
    c.Steady env (c.vmMmap env m start len prot).1 := by
  unfold Core.vmMmap
  split
  · rename_i hargs
    obtain ⟨hmod, hlen, hfree, -⟩ := hargs
    have hs : pageSize ∣ start := Nat.dvd_of_mod_eq_zero hmod
    have := le_pageAlign len
    exact (Core.Steady.refl h).setMem fun hm =>
      hm.mapAnon hs (Nat.dvd_add hs (pageAlign_dvd len)) (by omega) (htop hmod hlen) hfree prot
  · exact .refl h

theorem doMunmap_reg : (c.doMunmap env m start len).1.reg = (c.doMunmapHook env m start len).reg := by
  unfold Core.doMunmap
  dsimp only
  split
  · rfl
  · split <;> rfl

variable (env m start len c) in
theorem doMunmapHook_mem : (c.doMunmapHook env m start len).mem = c.mem := by
  unfold Core.doMunmapHook
  split
  · rename_i hlive
    exact congrArg (·.1.mem) hlive.symm
  · rename_i hlive
    exact congrArg (·.1.mem) hlive.symm

/-- A `vm_munmap` that goes through. -/
theorem doMunmap_mem (hres : (c.doMunmap env m start len).2 = 0) : pageSize ∣ start ∧ 0 < len ∧
    (c.doMunmap env m start len).1.mem = c.mem.setMm m ((c.mem.mm m).unmap start (start + pageAlign len)) := by
  have hmem := doMunmapHook_mem c env m start len
  unfold Core.doMunmap at hres ⊢
  dsimp only at hres ⊢
  by_cases hargs : start % pageSize ≠ 0 ∨ len = 0
  · rw [if_pos hargs] at hres
    exact absurd (show (-22 : Int) = 0 from hres) (by decide)
  · rw [if_neg hargs] at hres ⊢
    rw [not_or, not_not] at hargs
    refine ⟨Nat.dvd_of_mod_eq_zero hargs.1, Nat.pos_of_ne_zero hargs.2, ?_⟩
    by_cases hcall : env.vmMunmap start len = true
    · rw [if_pos hcall, hmem]
      rfl
    · rw [if_neg hcall] at hres
      exact absurd (show (-12 : Int) = 0 from hres) (by decide)

/-- A `vm_munmap` that fails. -/
theorem doMunmap_failed (h : c.reg.Coherent) (hres : (c.doMunmap env m start len).2 ≠ 0) :
    (c.doMunmap env m start len).1.mem = c.mem := by
  have hmem := (doMunmapHook_spec env m start len h).2.1
  unfold Core.doMunmap at hres ⊢
  dsimp only at hres ⊢
  split
  · exact hmem
  rename_i hargs
  rw [if_neg hargs] at hres
  split
  · rename_i hcall
    rw [if_pos hcall] at hres
    exact absurd rfl hres
  · exact hmem

/-- Nothing is mapped in a range that was unmapped. -/
theorem doMunmap_unmapped (hok : VmasOk (c.mem.mm m).freshVma (c.mem.mm m).mmap)
    (hres : (c.doMunmap env m start len).2 = 0) :
    ((c.doMunmap env m start len).1.mem.mm m).unmapped start (start + pageAlign len) = true := by
  obtain ⟨hs, hlen, hmem⟩ := doMunmap_mem hres
  have hle := le_pageAlign len
  have hse : start < start + pageAlign len := by omega
  rw [hmem, mm_setMm_self]
  refine (Mm.unmapped_iff (hok.unmap hs (Nat.dvd_add hs (pageAlign_dvd len)) hse) hse).mpr fun a h1 h2 hc => ?_
  exact ((covers_unmapVmas hse).mp hc).2 ⟨h1, h2⟩

theorem steady_vmBrk (h : c.reg.Coherent) (htop : start % pageSize = 0 → 0 < len → start + pageAlign len < ulongMax) :
    c.Steady env (c.vmBrk env m start len).1 := by
  have halign : pageAlign (pageAlign len) = pageAlign len := pageAlign_of_dvd (pageAlign_dvd len)
  have hfirst : c.Steady env (if (c.mem.mm m).unmapped start (start + pageAlign len) then (c, (0 : Int))
      else c.doMunmap env m start (pageAlign len)).1 ∧ (c.mem.Mapped →
      (if (c.mem.mm m).unmapped start (start + pageAlign len) then (c, (0 : Int))
        else c.doMunmap env m start (pageAlign len)).2 = 0 →
      ((if (c.mem.mm m).unmapped start (start + pageAlign len) then (c, (0 : Int))
        else c.doMunmap env m start (pageAlign len)).1.mem.mm m).unmapped start (start + pageAlign len) = true) := by
    split
    · rename_i hfree
      exact ⟨.refl h, fun _ _ => hfree⟩
    · refine ⟨steady_doMunmap h, fun hm hres => ?_⟩
      have := doMunmap_unmapped (hm m).1 hres
      rwa [halign] at this
  unfold Core.vmBrk
  split
  · exact .refl h
  rename_i hlen
  split
  · exact .refl h
  rename_i hs
  rw [not_not] at hs
  dsimp only
  generalize (if (c.mem.mm m).unmapped start (start + pageAlign len) then (c, (0 : Int))
    else c.doMunmap env m start (pageAlign len)) = r at hfirst ⊢
  obtain ⟨hsteady, hfree⟩ := hfirst
  split
  · rename_i hok
    have hs' : pageSize ∣ start := Nat.dvd_of_mod_eq_zero hs
    have hle := le_pageAlign len
    refine ⟨hsteady.coherent, hsteady.taskDataList, hsteady.fresh, hsteady.rcu, hsteady.live, hsteady.caches, hsteady.data, hsteady.queued,
      hsteady.unique, fun hm => ?_, hsteady.oops⟩
    exact (hsteady.mapped hm).mapAnon hs' (Nat.dvd_add hs' (pageAlign_dvd len)) (by omega) (htop hs (by omega))
      (hfree hm hok.1) _
  · exact hsteady

theorem Core.Steady.setBrk (h : c.Steady env c₁) {brk : Nat} (hbrk : c.mem.Mapped → pageAlign brk < ulongMax) :
    c.Steady env (c₁.setBrk m brk) where
  coherent := h.coherent
  taskDataList := h.taskDataList
  fresh := h.fresh
  rcu := h.rcu
  live := h.live
  caches := h.caches
  data := h.data
  queued := h.queued
  unique := h.unique
  mapped hm := (h.mapped hm).setMm (h.mapped hm m).1 (hbrk hm)
  oops := h.oops

theorem pageAlign_add {a b : Nat} (h : pageSize ∣ a) : pageAlign (a + b) = a + pageAlign b := by
  obtain ⟨i, rfl⟩ := h
  unfold pageAlign pageBase
  simp only [pageSize]
  omega

theorem pageAlign_mono {a b : Nat} (h : a ≤ b) : pageAlign a ≤ pageAlign b := by
  unfold pageAlign pageBase
  simp only [pageSize]
  omega

theorem steady_restoreBrk (h : c.reg.Coherent) {brk : Nat} (hbrk : pageAlign brk < ulongMax) :
    c.Steady env (c.restoreBrk env m brk).1 := by
  have hset : ∀ c₁ : Core, c.Steady env c₁ → c.Steady env (c₁.setBrk m brk) := fun c₁ h₁ => h₁.setBrk fun _ => hbrk
  have hgrow : ∀ cur, c.Steady env (Core.restoreBrk.growBrk env m brk cur c).1 := by
    intro cur
    unfold Core.restoreBrk.growBrk
    have hgrown : c.Steady env (c.vmBrk env m cur (brk - cur)).1 := steady_vmBrk h fun hs hlen => by
      rw [← pageAlign_add (Nat.dvd_of_mod_eq_zero hs), show cur + (brk - cur) = brk by omega]
      exact hbrk
    dsimp only
    split
    · exact hgrown
    · exact hset _ hgrown
  unfold Core.restoreBrk
  dsimp only
  split
  · exact hset _ (.refl h)
  split
  · have hun : c.Steady env (c.doMunmap env m brk ((c.mem.mm m).brk - brk)).1 := steady_doMunmap h
    split
    · exact hun
    · exact hset _ hun
  split
  · split
    · exact .refl h
    · exact hgrow _
  · exact hgrow _

/-- What `vm_munmap` keeps, the mapping of a free range and a change of the break, `restore_brk` keeps. -/
theorem restoreBrk_keeps {I : Core → Prop} {brk : Nat} (hbrk : pageAlign brk < ulongMax)
    (hok : ∀ c, I c → c.reg.Coherent ∧ VmasOk (c.mem.mm m).freshVma (c.mem.mm m).mmap)
    (hmunmap : ∀ c start len, I c → I (c.doMunmap env m start len).1)
    (hmap : ∀ (c : Core) (start end_ prot : Nat), I c → pageSize ∣ start → pageSize ∣ end_ → start < end_ → end_ < ulongMax →
      (c.mem.mm m).unmapped start end_ = true → I (c.setMem (c.mem.setMm m ((c.mem.mm m).mapAnon start end_ prot))))
    (hset : ∀ c, I c → I (c.setBrk m brk)) (h : I c) : I (c.restoreBrk env m brk).1 := by
  have hvmBrk : ∀ start len, (start % pageSize = 0 → start + pageAlign len < ulongMax) → I (c.vmBrk env m start len).1 := by
    intro start len htop
    have hfirst : ∀ r : Core × Int, r = (if (c.mem.mm m).unmapped start (start + pageAlign len) then (c, (0 : Int))
        else c.doMunmap env m start (pageAlign len)) →
        I r.1 ∧ (r.2 = 0 → (r.1.mem.mm m).unmapped start (start + pageAlign len) = true) := by
      rintro r rfl
      split
      · rename_i hfree
        exact ⟨h, fun _ => hfree⟩
      · refine ⟨hmunmap c _ _ h, fun hres => ?_⟩
        have := doMunmap_unmapped (hok c h).2 hres
        rwa [pageAlign_of_dvd (pageAlign_dvd len)] at this
    unfold Core.vmBrk
    split
    · exact h
    rename_i hlen
    split
    · exact h
    rename_i hs
    rw [not_not] at hs
    dsimp only
    generalize hr : (if (c.mem.mm m).unmapped start (start + pageAlign len) then (c, (0 : Int))
      else c.doMunmap env m start (pageAlign len)) = r
    obtain ⟨hI, hfree⟩ := hfirst r hr.symm
    split
    · rename_i hres
      have hs' : pageSize ∣ start := Nat.dvd_of_mod_eq_zero hs
      have hle := le_pageAlign len
      exact hmap r.1 _ _ _ hI hs' (Nat.dvd_add hs' (pageAlign_dvd len)) (by omega) (htop hs) (hfree hres.1)
    · exact hI
  have hgrow : ∀ cur, I (Core.restoreBrk.growBrk env m brk cur c).1 := by
    intro cur
    have hgrown : I (c.vmBrk env m cur (brk - cur)).1 := by
      by_cases hle : cur ≤ brk
      · refine hvmBrk _ _ fun hs => ?_
        rw [← pageAlign_add (Nat.dvd_of_mod_eq_zero hs), show cur + (brk - cur) = brk by omega]
        exact hbrk
      · have hzero : brk - cur = 0 := by omega
        unfold Core.vmBrk
        rw [if_pos hzero]
        exact h
    unfold Core.restoreBrk.growBrk
    dsimp only
    split
    · exact hgrown
    · exact hset _ hgrown
  unfold Core.restoreBrk
  dsimp only
  split
  · exact hset _ h
  split
  · have hun := hmunmap c brk ((c.mem.mm m).brk - brk) h
    split
    · exact hun
    · exact hset _ hun
  split
  · split
    · exact h
    · exact hgrow _
  · exact hgrow _

variable (env m) in
/-- The kernel's calls, where they go through. -/
theorem vmOps_laws {vmas : List VmArea} {allVmas : List SnapshotVma} (hunmap : ∀ a n, env.vmMunmap a n = true)
    (hmap : ∀ a n, env.vmMmap a n = true) (hS : SnapshotVmasOk allVmas) :
    VmLaws (Core.vmOps env m) (fun c => (c.mem.mm m).freshVma) (fun c => c.reg.Coherent ∧ c.mem.Mapped) vmas allVmas := by
  constructor
  · rintro c' start end_ ⟨hc', hm'⟩ hs he hse -
    have hsteady : c'.Steady env (c'.doMunmap env m start (end_ - start)).1 := steady_doMunmap hc'
    have hend : start + pageAlign (end_ - start) = end_ := by
      rw [pageAlign_of_dvd (Nat.dvd_sub he hs)]
      omega
    have heq : c'.doMunmap env m start (end_ - start) =
        ((c'.doMunmapHook env m start (end_ - start)).setMem (c'.mem.setMm m ((c'.mem.mm m).unmap start end_)), 0) := by
      have hmem := (doMunmapHook_spec env m start (end_ - start) hc').2.1
      unfold Core.doMunmap
      dsimp only
      rw [if_neg (by rw [not_or]; exact ⟨by simpa using Nat.mod_eq_zero_of_dvd hs, by omega⟩),
        if_pos (hunmap _ _), hend, hmem]
    have hmm : ((c'.mem.setMm m ((c'.mem.mm m).unmap start end_)).mm m) = (c'.mem.mm m).unmap start end_ := mm_setMm_self
    have hkeep : (c'.doMunmap env m start (end_ - start)).1.reg.Coherent ∧
        (c'.doMunmap env m start (end_ - start)).1.mem.Mapped := ⟨hsteady.coherent, hsteady.mapped hm'⟩
    refine ⟨congrArg Prod.snd heq, hkeep, ?_, ?_⟩
    · show ((c'.doMunmap env m start (end_ - start)).1.mem.mm m).mmap = _
      rw [heq]
      exact congrArg Mm.mmap hmm
    · show ((c'.doMunmap env m start (end_ - start)).1.mem.mm m).freshVma = _
      rw [heq]
      exact congrArg Mm.freshVma hmm
  · rintro c' start end_ ss ⟨hc', hm'⟩ hs he hse hss - hregion
    have hend : start + pageAlign (end_ - start) = end_ := by
      rw [pageAlign_of_dvd (Nat.dvd_sub he hs)]
      omega
    have htop : end_ < ulongMax := by
      obtain ⟨-, hin | ⟨-, -, -, -, next, hnext, -, -, -, -, -, hlt⟩⟩ := hregion (end_ - 1) (by omega) (by omega)
      · have hlt : end_ - 1 < ss.vmEnd := hin.2
        have := hS.top ss hss
        omega
      · have := hS.top next hnext
        have : next.vmStart < next.vmEnd := hS.ordered.pos next hnext
        omega
    have hfree : (c'.mem.mm m).unmapped start end_ = true :=
      (Mm.unmapped_iff (hm' m).1 hse).mpr fun a h1 h2 => (hregion a h1 h2).1
    have heq : c'.vmMmap env m start (end_ - start) ss.prot =
        (c'.setMem (c'.mem.setMm m ((c'.mem.mm m).mapAnon start end_ ss.prot)), some start) := by
      unfold Core.vmMmap
      rw [hend, if_pos ⟨Nat.mod_eq_zero_of_dvd hs, by omega, hfree, hmap _ _⟩]
    have hmm : ((c'.mem.setMm m ((c'.mem.mm m).mapAnon start end_ ss.prot)).mm m) =
        (c'.mem.mm m).mapAnon start end_ ss.prot := mm_setMm_self
    refine ⟨congrArg Prod.snd heq, ?_, ⟨anonVma (c'.mem.mm m).freshVma start end_ ss.prot, rfl, rfl, rfl, ?_⟩, ?_⟩
    · show (c'.vmMmap env m start (end_ - start) ss.prot).1.reg.Coherent ∧
        (c'.vmMmap env m start (end_ - start) ss.prot).1.mem.Mapped
      rw [heq]
      exact ⟨hc', hm'.mapAnon hs he hse htop hfree _⟩
    · show ((c'.vmMmap env m start (end_ - start) ss.prot).1.mem.mm m).mmap = _
      rw [heq]
      exact congrArg Mm.mmap hmm
    · show ((c'.vmMmap env m start (end_ - start) ss.prot).1.mem.mm m).freshVma = _
      rw [heq]
      exact congrArg Mm.freshVma hmm

variable (env m) in
/-- The kernel's calls that go through edit the list of VMAs. -/
theorem vmOps_edits : Edits (Core.vmOps env m) (fun c => (c.mem.mm m).freshVma) Inserted where
  munmap c start end_ _ hs he _ hres := by
    obtain ⟨-, -, hmem⟩ := doMunmap_mem hres
    rw [pageAlign_of_dvd (Nat.dvd_sub he hs), show start + (end_ - start) = end_ by omega] at hmem
    have hmm : ((c.doMunmap env m start (end_ - start)).1.mem.mm m) = (c.mem.mm m).unmap start end_ := by
      rw [hmem, mm_setMm_self]
    exact ⟨congrArg Mm.mmap hmm, congrArg Mm.freshVma hmm⟩
  mmap c start end_ prot l₁ l₂ hok hs he hse hl h₁ h₂ hres := by
    have hend : start + pageAlign (end_ - start) = end_ := by
      rw [pageAlign_of_dvd (Nat.dvd_sub he hs)]
      omega
    have hmm : ((c.vmMmap env m start (end_ - start) prot).1.mem.mm m) = (c.mem.mm m).mapAnon start end_ prot := by
      have hres : (c.vmMmap env m start (end_ - start) prot).2 = some start := hres
      unfold Core.vmMmap at hres ⊢
      split at hres
      · rename_i hargs
        rw [if_pos hargs, hend]
        exact mm_setMm_self
      · cases hres
    have hins : insertVma (anonVma (c.mem.mm m).freshVma start end_ prot) (l₁ ++ l₂) =
        l₁ ++ anonVma (c.mem.mm m).freshVma start end_ prot :: l₂ := by
      refine insertVma_append (fun v hv => ?_) h₂
      have hpos : v.vmStart < v.vmEnd := hok.ordered.pos v (hl ▸ List.mem_append_left _ hv)
      have hle := h₁ v hv
      show v.vmStart < end_
      omega
    refine ⟨?_, congrArg Mm.freshVma hmm⟩
    have hl : (c.mem.mm m).mmap = l₁ ++ l₂ := hl
    show ((c.vmMmap env m start (end_ - start) prot).1.mem.mm m).mmap = l₁ ++ anonVma (c.mem.mm m).freshVma start end_ prot :: l₂
    rw [← hins, ← hl]
    exact congrArg Mm.mmap hmm

/-! ### The loop over the dirty pages -/

/-- A record changed in its pages and its dirty list. -/
theorem steady_modifyData (h : c.reg.Coherent) (hsame : ∀ d, SameButPages d (g d)) (hblank : ∀ d, d.Blank → (g d).Blank)
    (hq : ∀ d, d.Queued → (g d).Queued) (hu : ∀ d, d.Unique → (g d).Unique) :
    c.Steady env (c.modifyData id g) := by
  have hd := hsame (c.reg.data id)
  have htsk : (g (c.reg.data id)).tsk = (c.reg.data id).tsk := by rw [hd]
  have hlive : (g (c.reg.data id)).haveSnapshot = (c.reg.data id).haveSnapshot := by rw [hd]; rfl
  refine ⟨h.setData htsk hlive fun _ => hblank _, rfl, rfl, rfl, (setData_live htsk hlive).2, .refl _, fun i => ?_, fun i hi => ?_,
    fun i hi => ?_, fun hm => hm, fun _ => rfl⟩
  · show SameButPages _ ((c.reg.setData id _).data i)
    by_cases hid : i = id
    · rw [hid, setData_same]
      exact hd
    · rw [setData_of_ne hid]
      exact .refl _
  · show ((c.reg.setData id _).data i).Queued
    by_cases hid : i = id
    · rw [hid, setData_same]
      exact hq _ (hid ▸ hi)
    · rwa [setData_of_ne hid]
  · show ((c.reg.setData id _).data i).Unique
    by_cases hid : i = id
    · rw [hid, setData_same]
      exact hu _ (hid ▸ hi)
    · rwa [setData_of_ne hid]

variable {f : SnapshotPage → SnapshotPage}

theorem TaskData.Blank.modifyPage {d : TaskData} (h : d.Blank) : (d.modifyPage page f).Blank := by
  obtain ⟨h1, h2, h3, h4⟩ := h
  refine ⟨h1, h2, ?_, h4⟩
  show Keyed.modify _ d.ss.ssPages _ _ = []
  rw [h3]
  rfl

theorem TaskData.Blank.delDirty {d : TaskData} (h : d.Blank) : (d.delDirty page).Blank := by
  obtain ⟨h1, h2, h3, h4⟩ := h
  refine ⟨h1, h2, h3, ?_⟩
  show d.ss.dirtyPages.erase page = []
  rw [h4]
  rfl

/-- A change of an entry that keeps its place, and its mark for the dirty list. -/
theorem TaskData.Queued.modifyPage {d : TaskData} (h : d.Queued) (hkey : ∀ sp, (f sp).pageBase = sp.pageBase)
    (hmark : ∀ sp, (f sp).inDirtyList = sp.inDirtyList) : (d.modifyPage page f).Queued := by
  refine ⟨h.nodup, fun p => (h.mem p).trans ?_⟩
  rw [getSnapshotPage_modifyPage hkey]
  split
  · constructor
    · rintro ⟨sp, hsp, hq⟩
      exact ⟨f sp, by rw [hsp]; rfl, (hmark sp).trans hq⟩
    · rintro ⟨sp', hsp', hq⟩
      obtain ⟨sp, hsp, rfl⟩ := Option.map_eq_some_iff.mp hsp'
      exact ⟨sp, hsp, (hmark sp).symm.trans hq⟩
  · rfl

theorem TaskData.Queued.dequeue {d : TaskData} (h : d.Queued) :
    ((d.modifyPage page SnapshotPage.leaveDirtyList).delDirty page).Queued :=
  (settled_dequeue (f := fun sp => sp) (fun q => by split <;> simp) (.refl d) rfl id).queued h

variable (env page id) in
theorem steady_modifyPage (h : c.reg.Coherent) (hkey : ∀ sp, (f sp).pageBase = sp.pageBase)
    (hmark : ∀ sp, (f sp).inDirtyList = sp.inDirtyList) : c.Steady env (c.modifyData id fun d => d.modifyPage page f) :=
  steady_modifyData h (fun _ => sameButPages_modifyPage) (fun _ hb => hb.modifyPage)
    (fun _ hq => hq.modifyPage hkey hmark) fun _ hu => hu.modifyPage fun sp h => (hkey sp).trans h

theorem steady_dequeue (h : c.reg.Coherent) : c.Steady env (c.dequeue id page) :=
  steady_modifyData h (fun _ => sameButPages_modifyPage.trans sameButPages_delDirty)
    (fun _ hb => hb.modifyPage.delDirty) (fun _ => TaskData.Queued.dequeue)
    fun _ hu => (hu.modifyPage (f := SnapshotPage.leaveDirtyList) fun _ h => h).delDirty

theorem steady_recoverPage (h : c.reg.Coherent) {sp : SnapshotPage} : c.Steady env (c.recoverPage env m id sp) := by
  have hcopy := steady_copyToUser env m sp.pageBase (sp.pageData.getD fun _ => 0) h
  unfold Core.recoverPage
  dsimp only
  have hclear := hcopy.trans (steady_modifyPage env sp.pageBase id
    (f := fun sp => { sp with dirty := false, hasHadPte := true }) hcopy.coherent (fun _ => rfl) fun _ => rfl)
  have hrest : ∀ c₁ : Core, c₁.reg.Coherent → c₁.Steady env ((c₁.modifyData id fun d =>
      d.modifyPage sp.pageBase SnapshotPage.setPrivate).dequeue id sp.pageBase) := fun c₁ h₁ => by
    have hpriv := steady_modifyPage env sp.pageBase id (f := SnapshotPage.setPrivate) h₁ (fun _ => rfl) fun _ => rfl
    exact hpriv.trans (steady_dequeue hpriv.coherent)
  split
  · refine Core.Steady.trans ?_ (hrest _ ?_)
    · exact hclear.setMem fun hm => hm.setPte
    · exact hclear.coherent
  · exact hclear

theorem steady_recoverNonePte (h : c.reg.Coherent) : c.Steady env (c.recoverNonePte m id page) := by
  have hzap : c.Steady env (c.zapPage m page) := steady_zapPage m page h
  have hset := hzap.trans (steady_modifyPage env page id
    (f := fun sp => { sp.setNonePte with hasHadPte := false }) hzap.coherent (fun _ => rfl) fun _ => rfl)
  exact hset.trans (steady_dequeue hset.coherent)

variable (env m page id) in
theorem steady_recoverEntry (h : c.reg.Coherent) : c.Steady env (c.recoverEntry env m id page) := by
  unfold Core.recoverEntry
  split
  · exact .refl h
  split
  · exact steady_recoverPage h
  split
  · exact steady_dequeue h
  split
  · exact steady_recoverNonePte h
  · exact steady_dequeue h

theorem steady_recoverEntries (h : c.reg.Coherent) (l : List Nat) : c.Steady env (l.foldl (Core.recoverEntry env m id) c) := by
  induction l generalizing c with
  | nil => exact .refl h
  | cons page l ih =>
    have hfirst := steady_recoverEntry env m page id h
    exact hfirst.trans (ih hfirst.coherent)

/-- What `vm_munmap` keeps, and the mapping of a free range, the sweep keeps; where it fails a `vm_munmap` did. -/
theorem restoreVmas_ends {I E : Core → Prop} {allVmas : List SnapshotVma} (hS : SnapshotVmasOk allVmas)
    (hmunmap : ∀ c start len, I c → Upholds I E (c.doMunmap env m start len).2 (c.doMunmap env m start len).1)
    (hmap : ∀ (c : Core) (start end_ : Nat), ∀ ss ∈ allVmas, I c → pageSize ∣ start → pageSize ∣ end_ → start < end_ →
      end_ < ulongMax → (c.mem.mm m).unmapped start end_ = true →
      I (c.setMem (c.mem.setMm m ((c.mem.mm m).mapAnon start end_ ss.prot))))
    (h : I c) {r : Int} (hres : restoreVmas (Core.vmOps env m) allVmas c = some (c', r)) : Upholds I E r c' := by
  have hcalls : CallsKeep (Core.vmOps env m) allVmas I E := by
    refine ⟨hmunmap, fun c₁ addr len ss hss hend hc₁ => ?_⟩
    show I (c₁.vmMmap env m addr len ss.prot).1
    unfold Core.vmMmap
    split
    · rename_i hargs
      obtain ⟨hmod, hlen, hfree, -⟩ := hargs
      have hs : pageSize ∣ addr := Nat.dvd_of_mod_eq_zero hmod
      have hpos := le_pageAlign len
      have htop : addr + pageAlign len < ulongMax := by
        rw [← pageAlign_add hs]
        have hle := pageAlign_mono (hend hlen)
        rw [pageAlign_of_dvd (hS.aligned ss hss).2] at hle
        exact lt_of_le_of_lt hle (hS.top ss hss)
      exact hmap c₁ _ _ ss hss hc₁ hs (Nat.dvd_add hs (pageAlign_dvd len)) (by omega) htop hfree
    · exact hc₁
  exact sweep_keeps hcalls (fun _ hss => hss) _ h hres

theorem restoreVmas_keeps {I : Core → Prop} {allVmas : List SnapshotVma} (hS : SnapshotVmasOk allVmas)
    (hmunmap : ∀ c start len, I c → I (c.doMunmap env m start len).1)
    (hmap : ∀ (c : Core) (start end_ prot : Nat), I c → pageSize ∣ start → pageSize ∣ end_ → start < end_ → end_ < ulongMax →
      (c.mem.mm m).unmapped start end_ = true → I (c.setMem (c.mem.setMm m ((c.mem.mm m).mapAnon start end_ prot))))
    (h : I c) {r : Int} (hres : restoreVmas (Core.vmOps env m) allVmas c = some (c', r)) : I c' :=
  upholds_same.mp (restoreVmas_ends hS (fun c start len hc => upholds_same.mpr (hmunmap c start len hc))
    (fun c start end_ ss _ => hmap c start end_ ss.prot) h hres)

theorem steady_restoreVmas (h : c.reg.Coherent) {allVmas : List SnapshotVma} (hS : SnapshotVmasOk allVmas) {r : Int}
    (hres : restoreVmas (Core.vmOps env m) allVmas c = some (c', r)) : c.Steady env c' :=
  restoreVmas_keeps (I := fun c' => c.Steady env c') hS (fun _ _ _ hc₁ => hc₁.trans (steady_doMunmap hc₁.coherent))
    (fun _ _ _ prot hc₁ hs he hse htop hfree =>
      hc₁.trans ((Core.Steady.refl hc₁.coherent).setMem fun hm => hm.mapAnon hs he hse htop hfree prot))
    (.refl h) hres

/-! ### `recover_memory_snapshot` -/

/-- What `restore_vmas` leaves where it is called, and its result. -/
def Core.sweptVmas (env : Env) (m id : Nat) (c : Core) : Core × Int :=
  if hasFlag (c.reg.data id).config aflSnapshotMmap then
    (restoreVmas (Core.vmOps env m) (c.reg.data id).ss.allVmas c).getD ({ c with oops := true }, -1)
  else (c, 0)

/-- The loop over the dirty pages. -/
def Core.recoverPages (env : Env) (m id : Nat) (c : Core) : Core :=
  (c.reg.data id).ss.dirtyPages.foldl (Core.recoverEntry env m id) c

variable (env m id) in
theorem recoverMemorySnapshot_eq (c : Core) : c.recoverMemorySnapshot env m id =
    if (c.sweptVmas env m id).2 = 0 then ((c.sweptVmas env m id).1.recoverPages env m id, 0) else c.sweptVmas env m id := rfl

/-- Where the sweep is done all its `vm_munmap` went through. -/
theorem sweptVmas_ends {I : Core → Prop} (hS : SnapshotVmasOk (c.reg.data id).ss.allVmas)
    (hmunmap : ∀ c start len, I c → (c.doMunmap env m start len).2 = 0 → I (c.doMunmap env m start len).1)
    (hmap : ∀ (c : Core) (start end_ prot : Nat), I c → pageSize ∣ start → pageSize ∣ end_ → start < end_ → end_ < ulongMax →
      (c.mem.mm m).unmapped start end_ = true → I (c.setMem (c.mem.setMm m ((c.mem.mm m).mapAnon start end_ prot))))
    (h : I c) (hres : (c.sweptVmas env m id).2 = 0) : I (c.sweptVmas env m id).1 := by
  unfold Core.sweptVmas at hres ⊢
  by_cases hcfg : hasFlag (c.reg.data id).config aflSnapshotMmap = true
  · rw [if_pos hcfg] at hres ⊢
    cases hr : restoreVmas (Core.vmOps env m) (c.reg.data id).ss.allVmas c with
    | none =>
      rw [hr] at hres
      exact absurd (show (-1 : Int) = 0 from hres) (by decide)
    | some r =>
      rw [hr] at hres
      have hends : Upholds I (fun _ => True) r.2 r.1 := restoreVmas_ends hS (fun c start len hc => by
        unfold Upholds
        split
        · exact hmunmap c start len hc ‹_›
        · trivial) (fun c start end_ ss _ => hmap c start end_ ss.prot) h hr
      rw [show r.2 = 0 from hres] at hends
      exact upholds_zero.mp hends
  · rw [if_neg hcfg]
    exact h

theorem sweptVmas_keeps {I : Core → Prop} (hS : SnapshotVmasOk (c.reg.data id).ss.allVmas)
    (hmunmap : ∀ c start len, I c → I (c.doMunmap env m start len).1)
    (hmap : ∀ (c : Core) (start end_ prot : Nat), I c → pageSize ∣ start → pageSize ∣ end_ → start < end_ → end_ < ulongMax →
      (c.mem.mm m).unmapped start end_ = true → I (c.setMem (c.mem.setMm m ((c.mem.mm m).mapAnon start end_ prot))))
    (hoops : ∀ c : Core, I c → I { c with oops := true }) (h : I c) : I (c.sweptVmas env m id).1 := by
  unfold Core.sweptVmas
  split
  · cases hres : restoreVmas (Core.vmOps env m) (c.reg.data id).ss.allVmas c with
    | none => exact hoops c h
    | some r => exact restoreVmas_keeps hS hmunmap hmap h hres
  · exact h

theorem steady_sweptVmas (h : c.reg.Coherent) (hm : c.mem.Mapped) (hS : SnapshotVmasOk (c.reg.data id).ss.allVmas) :
    c.Steady env (c.sweptVmas env m id).1 := by
  unfold Core.sweptVmas
  split
  · obtain ⟨c', res, hres⟩ := restoreVmas_returns (vmOps_edits env m) (hm m).1 hS
    rw [hres]
    exact steady_restoreVmas h hS hres
  · exact .refl h

theorem steady_recoverMemorySnapshot (h : c.reg.Coherent) (hm : c.mem.Mapped)
    (hS : SnapshotVmasOk (c.reg.data id).ss.allVmas) : c.Steady env (c.recoverMemorySnapshot env m id).1 := by
  have hvmas : c.Steady env (c.sweptVmas env m id).1 := steady_sweptVmas h hm hS
  rw [recoverMemorySnapshot_eq]
  split
  · exact hvmas.trans (steady_recoverEntries hvmas.coherent _)
  · exact hvmas

end
end AflSnapshot
