import AflSnapshot.Theorems.Reachable

/-! # What is armed after a restore

A page of the snapshot is `Guarded`: it had no page-table entry at the take, or it is clean and a read-only entry sends
the next write to the hook, or it is recorded and queued with its bytes saved. Faults, the calls that map and unmap, and
the loop of `recover_memory_snapshot` keep it so, as long as no buffer is missing that is to hold a page and every
saved page has an entry when its round is over. -/

namespace AflSnapshot
open Runs

/-- A process with a snapshot, and the pages that it has written since the take. -/
structure Watch where
  core : Core
  written : List Nat

/-- Faults, calls that map and unmap, `restore_brk`, and `recover_memory_snapshot`. -/
inductive WatchStep
  | read (env : Env) (addr : Nat)
  | write (env : Env) (addr : Nat) (byte : UInt8)
  | munmap (env : Env) (start len : Nat)
  | map (start end_ prot : Nat)
  | setBrk (brk : Nat)
  | recover (env : Env)

def Watch.step (m id : Nat) (s : Watch) : WatchStep → Watch
  | .read env addr => { s with core := s.core.readByte env m addr }
  | .write env addr byte =>
    ⟨s.core.writeByte env m addr byte,
      if (s.core.writeFault env m (pageBase addr)).isSome then pageBase addr :: s.written else s.written⟩
  | .munmap env start len => { s with core := (s.core.doMunmap env m start len).1 }
  | .map start end_ prot =>
    { s with core := s.core.setMem (s.core.mem.setMm m ((s.core.mem.mm m).mapAnon start end_ prot)) }
  | .setBrk brk => { s with core := s.core.setBrk m brk }
  | .recover env => { s with core := (s.core.recoverMemorySnapshot env m id).1 }

/-- `record_dirty_page` is to allocate a buffer for the page. -/
def SnapshotPage.Wants (sp : SnapshotPage) : Prop :=
  sp.dirty = false ∧ sp.isNonePte = false ∧ sp.hasBeenCopied = false ∧ sp.pageData = none

/-- It gets one if it is to. -/
def TaskData.Feeds (d : TaskData) (env : Env) (page : Nat) : Prop :=
  ∀ sp, d.getSnapshotPage page = some sp → sp.Wants → env.pageData page = true

/-- Every dirty page has a page-table entry, or is copied to. -/
def Core.WritesBack (env : Env) (m id : Nat) (c : Core) : Prop :=
  ∀ p sp, (c.reg.data id).getSnapshotPage p = some sp → sp.dirty = true → (c.mem.mm m).pte p ≠ .none ∨
    env.copyToUser p = true ∧ ∃ v, (c.mem.mm m).vmaAt p = some v ∧ v.writable = true

/-- The steps in which nothing is lost; what is mapped anew was free. A restore may unmap any page before its loop starts. -/
def Watch.Allows (m id : Nat) (s : Watch) : WatchStep → Prop
  | .write env addr _ => (s.core.reg.data id).Feeds env (pageBase addr)
  | .munmap env start len => ∀ p ∈ walkPageRange (s.core.mem.mm m) start (start + len), (s.core.reg.data id).Feeds env p
  | .map start end_ _ => pageSize ∣ start ∧ pageSize ∣ end_ ∧ start < end_ ∧ end_ < ulongMax ∧
    (s.core.mem.mm m).unmapped start end_ = true
  | .recover env => (∀ p, (s.core.reg.data id).Feeds env p) ∧
    ((s.core.sweptVmas env m id).2 = 0 → (s.core.sweptVmas env m id).1.WritesBack env m id)
  | _ => True

/-- The state of an entry whose page had the page-table entry `pte₀` after the take. -/
inductive Guarded (pte pte₀ : Pte) (written : Prop) : SnapshotPage → Prop
  | loose {sp : SnapshotPage} (hnone : sp.isNonePte = true) (hpriv : sp.isPrivate = false) (hcow : sp.isCow = false)
      (hdirty : sp.dirty = false) : Guarded pte pte₀ written sp
  | armed {sp : SnapshotPage} {f : Nat} (hnone : sp.isNonePte = false) (hdirty : sp.dirty = false)
      (hq : sp.inDirtyList = false) (hpte : pte = .present f false)
      (hsafe : sp.hasBeenCopied = false → ¬written ∧ pte₀ = .present f false) : Guarded pte pte₀ written sp
  | recorded {sp : SnapshotPage} (hnone : sp.isNonePte = false) (hdirty : sp.dirty = true) (hq : sp.inDirtyList = true)
      (hcopied : sp.hasBeenCopied = true) : Guarded pte pte₀ written sp

/-- The state of the process; `mm₀` is its address space after the take. -/
structure Watched (m id : Nat) (mm₀ : Mm) (s : Watch) : Prop where
  ok : (s.core.mem.mm m).Ok
  coherent : s.core.reg.Coherent
  live : s.core.reg.live (s.core.mem.mm m).owner = some id
  vmas : SnapshotVmasOk (s.core.reg.data id).ss.allVmas
  queued : (s.core.reg.data id).Queued
  aligned : ∀ p sp, (s.core.reg.data id).getSnapshotPage p = some sp → pageSize ∣ p
  pages : ∀ p sp, (s.core.reg.data id).getSnapshotPage p = some sp →
    Guarded ((s.core.mem.mm m).pte p) (mm₀.pte p) (p ∈ s.written) sp

/-! ### Entries -/

section
variable {env : Env} {m id page q : Nat} {c c' : Core} {mm mm' mm₀ : Mm} {sp sp' : SnapshotPage} {pte pte' pte₀ : Pte}
  {written written' : Prop} {B : Page} {alloc : Bool} {s : Watch} {v : VmArea} {l : List Nat} {d d' : TaskData}

/-- The state of a page that has no read-only page-table entry does not hang on the latter. -/
theorem Guarded.any (h : Guarded pte pte₀ written sp) (hnot : ∀ f, pte ≠ .present f false) : Guarded pte' pte₀ written' sp := by
  cases h with
  | loose hnone hpriv hcow hdirty => exact .loose hnone hpriv hcow hdirty
  | armed hnone hdirty hq hpte hsafe => exact absurd hpte (hnot _)
  | recorded hnone hdirty hq hcopied => exact .recorded hnone hdirty hq hcopied

/-- Nor does that of a page that was recorded. -/
theorem Guarded.record (h : Guarded pte pte₀ written sp) (hfeed : sp.Wants → alloc = true) :
    Guarded pte' pte₀ written' (sp.recorded B alloc) := by
  cases h with
  | loose hnone hpriv hcow hdirty =>
    rw [recorded_of_skip (by rw [hnone, Bool.or_true])]
    exact .loose hnone hpriv hcow hdirty
  | recorded hnone hdirty hq hcopied =>
    rw [recorded_of_skip (by rw [hdirty, Bool.true_or])]
    exact .recorded hnone hdirty hq hcopied
  | armed hnone hdirty hq hpte hsafe =>
    rw [SnapshotPage.recorded, if_neg (by simp [hdirty, hnone])]
    by_cases hcopied : sp.hasBeenCopied = true
    · rw [if_pos hcopied]
      exact .recorded hnone rfl rfl hcopied
    · rw [if_neg hcopied]
      have hbuf : (sp.pageData.isSome || alloc) = true := by
        cases hdata : sp.pageData with
        | some _ => rfl
        | none => exact hfeed ⟨hdirty, hnone, by simpa using hcopied, hdata⟩
      rw [if_pos hbuf]
      exact .recorded hnone rfl rfl rfl

theorem Guarded.note (h : Guarded pte pte₀ written sp) : Guarded pte pte₀ written sp.noted := by
  cases h with
  | loose hnone hpriv hcow hdirty => exact .loose hnone hpriv hcow hdirty
  | armed hnone hdirty hq hpte hsafe =>
    exact .armed hnone hdirty (by simp [SnapshotPage.noted, hq, hnone]) hpte hsafe
  | recorded hnone hdirty hq hcopied => exact .recorded hnone hdirty (by simp [SnapshotPage.noted, hq]) hcopied

theorem Guarded.notedEntry (h : ∀ sp, d.getSnapshotPage page = some sp → Guarded pte pte₀ written sp)
    (hsp : d.notedEntry page = some sp) : Guarded pte pte₀ written sp := by
  unfold TaskData.notedEntry at hsp
  cases hget : d.getSnapshotPage page with
  | some sp₀ =>
    rw [hget] at hsp
    cases hsp
    exact (h sp₀ hget).note
  | none =>
    rw [hget] at hsp
    dsimp only at hsp
    split at hsp
    · cases hsp
      exact .loose rfl rfl rfl rfl
    · cases hsp

/-- A write fault leaves its page recorded, unless it had no page-table entry at the take. -/
theorem Fault.guarded (h : Fault env m page c v c') (hlive : c.reg.live (c.mem.mm m).owner = some id)
    (hfeed : (c.reg.data id).Feeds env page)
    (hG : ∀ sp, (c.reg.data id).getSnapshotPage page = some sp → Guarded ((c.mem.mm m).pte page) pte₀ written sp) :
    ∀ sp, (c'.reg.data id).getSnapshotPage page = some sp → Guarded pte pte₀ written' sp := by
  have hrecorded : ∀ reg', c.Recorded env m page reg' → ∀ sp, (reg'.data id).getSnapshotPage page = some sp →
      Guarded pte pte₀ written' sp := fun reg' hrec sp hsp => by
    rw [(hrec.data id hlive).entry] at hsp
    obtain ⟨sp₀, hsp₀, rfl⟩ := Option.map_eq_some_iff.mp hsp
    exact (hG sp₀ hsp₀).record (hfeed sp₀ hsp₀)
  have hnoted : ∀ d d' : TaskData, (∀ sp, d.getSnapshotPage page = some sp → Guarded pte pte₀ written' sp) →
      (PageUpdated d page (d.notedEntry page) d' ∨ env.snapshotPage page = false ∧ d' = d) →
      ∀ sp, d'.getSnapshotPage page = some sp → Guarded pte pte₀ written' sp := by
    rintro d d' hd (hupd | ⟨-, rfl⟩) sp hsp
    · rw [hupd.entry] at hsp
      exact Guarded.notedEntry hd hsp
    · exact hd sp hsp
  cases h with
  | ready hpte => exact fun sp hsp => (hG sp hsp).any fun f hf => by rw [hpte] at hf; cases hf
  | mkwrite hpte hplace hrec hmem hoops => exact hrecorded _ hrec
  | copied hpte hv hrec hmem₁ hn hmem hoops hreuse =>
    exact hnoted _ _ (hrecorded _ hrec) (hn.data id (by rw [hrec.live, hmem₁, hlive]))
  | mapped hpte hv hmem hreg hoops =>
    rw [hreg]
    exact fun sp hsp => (hG sp hsp).any fun f hf => by rw [hpte] at hf; cases hf
  | fresh hpte hv hn hmem hoops =>
    refine hnoted _ _ (fun sp hsp => (hG sp hsp).any fun f hf => ?_) (hn.data id hlive)
    rw [hpte] at hf
    cases hf

/-! ### Address spaces -/

/-- But for the page-table entry of one page, the address space is as before. -/
structure Mm.OnlyPte (page : Nat) (mm mm' : Mm) : Prop where
  mmap : mm'.mmap = mm.mmap
  owner : mm'.owner = mm.owner
  others : ∀ q, q ≠ page → mm'.pte q = mm.pte q
  ok : mm.Ok → mm'.Ok

theorem Mm.OnlyPte.refl (page : Nat) (mm : Mm) : mm.OnlyPte page mm := ⟨rfl, rfl, fun _ _ => rfl, fun h => h⟩

theorem Mm.OnlyPte.trans {mm₁ : Mm} (h₁ : mm.OnlyPte page mm₁) (h₂ : mm₁.OnlyPte page mm') : mm.OnlyPte page mm' where
  mmap := h₂.mmap.trans h₁.mmap
  owner := h₂.owner.trans h₁.owner
  others q hq := (h₂.others q hq).trans (h₁.others q hq)
  ok h := h₂.ok (h₁.ok h)

theorem Mm.OnlyPte.populate : mm.OnlyPte page (mm.populate page) := ⟨rfl, rfl, fun _ _ => rfl, fun h => h.populate⟩

theorem Mm.OnlyPte.setPte (hx : ∀ f w, pte = .present f w → pageSize ∣ page ∧ mm.slot page = true ∧ Spans.Covers mm.mmap page) :
    mm.OnlyPte page (mm.setPte page pte) where
  mmap := rfl
  owner := rfl
  others _ hq := pte_setPte_of_ne hq
  ok h := h.setPte fun f w hp => by
    obtain ⟨h1, h2, h3⟩ := hx f w hp
    exact ⟨h2, h1, h3⟩

/-- The tables of a page are allocated, and it gets an entry. -/
theorem Mm.OnlyPte.install (hd : pageSize ∣ page) (hv : mm.vmaAt page = some v) :
    mm.OnlyPte page ((mm.populate page).setPte page pte) :=
  Mm.OnlyPte.populate.trans (.setPte fun _ _ _ => ⟨hd, slot_populate_self, covers_of_vmaAt (v := v) hv⟩)

/-- An entry is replaced. -/
theorem Mm.OnlyPte.replace (hok : mm.Ok) {f : Nat} {w : Bool} (hpte : mm.pte page = .present f w) :
    mm.OnlyPte page (mm.setPte page pte') := .setPte fun _ _ _ => by
  obtain ⟨h1, h2, h3⟩ := hok.pte page f w hpte
  exact ⟨h2, h1, h3⟩

theorem Fault.onlyPte (h : Fault env m page c v c') (hok : (c.mem.mm m).Ok) (hd : pageSize ∣ page)
    (hv : (c.mem.mm m).vmaAt page = some v) :
    (c.mem.mm m).OnlyPte page (c'.mem.mm m) ∧ ∃ f, (c'.mem.mm m).pte page = .present f true := by
  have hnew : ∀ data, (c.mem.newFrame data).mm m = c.mem.mm m := fun _ => rfl
  cases h with
  | ready hpte => exact ⟨.refl page _, _, hpte⟩
  | mkwrite hpte hplace hrec hmem hoops =>
    rw [hmem, mm_setPte_self]
    exact ⟨.replace hok hpte, _, pte_setPte_self⟩
  | copied hpte hv' hrec hmem₁ hn hmem hoops hreuse =>
    rw [hmem, mm_setPte_self, hnew]
    exact ⟨.replace hok hpte, _, pte_setPte_self⟩
  | mapped hpte hv' hmem hreg hoops =>
    rw [hmem, mm_setPte_self, mm_setMm_self]
    exact ⟨.install hd hv, _, pte_setPte_self⟩
  | fresh hpte hv' hn hmem hoops =>
    have hmm : c'.mem.mm m = ((c.mem.mm m).populate page).setPte page (.present c.mem.freshPfn true) := by
      rw [hmem, mm_setPte_self]
      exact congrArg (Mm.setPte · page (.present c.mem.freshPfn true)) mm_setMm_self
    rw [hmm]
    exact ⟨.install hd hv, _, pte_setPte_self⟩

/-! ### Faults -/

/-- A step that concerns one page. -/
theorem Watched.onPage (h : Watched m id mm₀ s) {s' : Watch} (hd : pageSize ∣ q) (hmm : (s.core.mem.mm m).OnlyPte q (s'.core.mem.mm m))
    (ht : s.core.reg.Touched (s.core.reg.live (s.core.mem.mm m).owner) (OnlyPage q) s'.core.reg)
    (hwritten : ∀ p, p ≠ q → (p ∈ s'.written ↔ p ∈ s.written))
    (hq : ∀ sp, (s'.core.reg.data id).getSnapshotPage q = some sp →
      Guarded ((s'.core.mem.mm m).pte q) (mm₀.pte q) (q ∈ s'.written) sp) : Watched m id mm₀ s' := by
  obtain ⟨hsame, hothers, hqueued, -⟩ := ht.data id h.live
  refine ⟨hmm.ok h.ok, ht.coherent, by rw [ht.live, hmm.owner, h.live], hsame.allVmas ▸ h.vmas, hqueued h.queued,
    fun p sp hsp => ?_, fun p sp hsp => ?_⟩ <;> by_cases hp : p = q
  · exact hp ▸ hd
  · exact h.aligned p sp ((hothers p hp).symm.trans hsp)
  · subst hp
    exact hq sp hsp
  · rw [hothers p hp] at hsp
    rw [hmm.others p hp, propext (hwritten p hp)]
    exact h.pages p sp hsp

variable (m page) in
theorem store_core (f : Page → Page) (c : Core) :
    (c.store m page f).reg = c.reg ∧ (c.store m page f).mem.mm = c.mem.mm := by
  unfold Core.store
  split <;> exact ⟨rfl, rfl⟩

theorem Watched.write (h : Watched m id mm₀ s) (addr : Nat) (byte : UInt8)
    (hfeed : (s.core.reg.data id).Feeds env (pageBase addr)) : Watched m id mm₀ (s.step m id (.write env addr byte)) := by
  cases hf : s.core.writeFault env m (pageBase addr) with
  | none =>
    have hstep : s.step m id (.write env addr byte) = s := by simp [Watch.step, Core.writeByte, hf]
    rw [hstep]
    exact h
  | some c' =>
    let g : Page → Page := fun data => Function.update data ⟨addr % pageSize, Nat.mod_lt _ (by decide)⟩ byte
    have hstep : s.step m id (.write env addr byte) = ⟨c'.store m (pageBase addr) g, pageBase addr :: s.written⟩ := by
      simp [Watch.step, Core.writeByte, hf, g]
    obtain ⟨v, hv, -, hcase⟩ := fault_cases h.coherent hf
    have ht := writeFault_touched h.coherent hf
    obtain ⟨hmm, f, hpte⟩ := hcase.onlyPte h.ok (pageBase_dvd addr) hv
    obtain ⟨hreg, hmms⟩ := store_core m (pageBase addr) g c'
    rw [hstep]
    refine h.onPage (pageBase_dvd addr) ?_ ?_ (fun p hp => ?_) fun sp hsp => ?_
    · dsimp only
      rw [hmms]
      exact hmm
    · dsimp only
      rw [hreg]
      exact ht
    · exact List.mem_cons.trans (or_iff_right hp)
    · dsimp only at hsp
      rw [hreg] at hsp
      exact hcase.guarded h.live hfeed (h.pages _) sp hsp

theorem Watched.read (h : Watched m id mm₀ s) (addr : Nat) : Watched m id mm₀ (s.step m id (.read env addr)) := by
  cases hf : s.core.readFault env m (pageBase addr) with
  | none =>
    have hstep : s.step m id (.read env addr) = s := by simp [Watch.step, Core.readByte, hf]
    rw [hstep]
    exact h
  | some c' =>
    have hstep : s.step m id (.read env addr) = ⟨c', s.written⟩ := by simp [Watch.step, Core.readByte, hf]
    obtain ⟨v, hv, -, hcase⟩ := readFault_cases hf
    have hreg : c'.reg = s.core.reg := hcase.reg
    have ht : s.core.reg.Touched (s.core.reg.live (s.core.mem.mm m).owner) (OnlyPage (pageBase addr)) c'.reg := by
      rw [hreg]
      exact .refl h.coherent _ (.refl _)
    rw [hstep]
    cases hcase with
    | ready => exact h
    | @mapped _ w hpte hw hmem _ hoops =>
      have hmm : c'.mem.mm m = ((s.core.mem.mm m).populate (pageBase addr)).setPte (pageBase addr)
          (.present (s.core.mem.backing v (pageBase addr)) w) := by
        rw [hmem, mm_setPte_self, mm_setMm_self]
      refine h.onPage (pageBase_dvd addr) ?_ ht (fun p _ => Iff.rfl) fun sp hsp => ?_
      · dsimp only
        rw [hmm]
        exact .install (pageBase_dvd addr) hv
      · dsimp only at hsp
        rw [hreg] at hsp
        exact (h.pages _ sp hsp).any fun f hf => by rw [hpte] at hf; cases hf

/-! ### Mappings -/

/-- An address space whose mappings and tables change. -/
theorem Watched.setMm (h : Watched m id mm₀ s) (hok : mm.Ok) (howner : mm.owner = (s.core.mem.mm m).owner)
    (hpages : ∀ p sp, (s.core.reg.data id).getSnapshotPage p = some sp →
      Guarded (mm.pte p) (mm₀.pte p) (p ∈ s.written) sp) :
    Watched m id mm₀ { s with core := s.core.setMem (s.core.mem.setMm m mm) } := by
  have hmm : (s.core.mem.setMm m mm).mm m = mm := mm_setMm_self
  refine ⟨?_, h.coherent, ?_, h.vmas, h.queued, h.aligned, fun p sp hsp => ?_⟩
  · show ((s.core.mem.setMm m mm).mm m).Ok
    rw [hmm]
    exact hok
  · show s.core.reg.live ((s.core.mem.setMm m mm).mm m).owner = _
    rw [hmm, howner, h.live]
  · show Guarded (((s.core.mem.setMm m mm).mm m).pte p) _ _ sp
    rw [hmm]
    exact hpages p sp hsp

theorem Watched.map (h : Watched m id mm₀ s) {start end_ prot : Nat} (ha : s.Allows m id (.map start end_ prot)) :
    Watched m id mm₀ (s.step m id (.map start end_ prot)) := by
  obtain ⟨hs, he, hse, htop, hfree⟩ := ha
  exact h.setMm (h.ok.mapAnon hs he hse htop ((Mm.unmapped_iff h.ok.vmas hse).mp hfree) prot) rfl h.pages

theorem Watched.setBrk (h : Watched m id mm₀ s) (brk : Nat) : Watched m id mm₀ (s.step m id (.setBrk brk)) :=
  have hok : ({ s.core.mem.mm m with brk } : Mm).Ok := ⟨h.ok.vmas, h.ok.pte⟩
  h.setMm hok rfl h.pages

/-- A page that starts before the aligned end of a range starts before its end. -/
theorem lt_of_lt_pageAlign {start len p : Nat} (hs : pageSize ∣ start) (hp : pageSize ∣ p)
    (h : p < start + pageAlign len) : p < start + len := by
  obtain ⟨i, rfl⟩ := hs
  obtain ⟨j, rfl⟩ := hp
  unfold pageAlign pageBase at h
  simp only [pageSize] at *
  omega

/-- The pages that go were recorded. -/
theorem Watched.munmap (h : Watched m id mm₀ s) {start len : Nat} (ha : s.Allows m id (.munmap env start len)) :
    Watched m id mm₀ (s.step m id (.munmap env start len)) := by
  obtain ⟨ht, hmem, -⟩ := doMunmapHook_spec env m start len h.coherent
  obtain ⟨hsame, hentry, hqueued, -⟩ := ht.data id h.live
  have hrecorded : ∀ p sp, p ∈ walkPageRange (s.core.mem.mm m) start (start + len) →
      ((s.core.doMunmapHook env m start len).reg.data id).getSnapshotPage p = some sp →
      ∀ pte, Guarded pte (mm₀.pte p) (p ∈ s.written) sp := fun p sp hin hsp pte => by
    rw [hentry, if_pos hin] at hsp
    obtain ⟨sp₀, hsp₀, rfl⟩ := Option.map_eq_some_iff.mp hsp
    exact (h.pages p sp₀ hsp₀).record (ha p hin sp₀ hsp₀)
  have hhook : Watched m id mm₀ { s with core := s.core.doMunmapHook env m start len } := by
    refine ⟨?_, ht.coherent, ?_, hsame.allVmas ▸ h.vmas, hqueued h.queued, fun p sp hsp => ?_, fun p sp hsp => ?_⟩
    · dsimp only
      rw [hmem]
      exact h.ok
    · dsimp only
      rw [ht.live, hmem, h.live]
    · dsimp only at hsp
      rw [hentry] at hsp
      split at hsp
      · obtain ⟨sp₀, hsp₀, -⟩ := Option.map_eq_some_iff.mp hsp
        exact h.aligned p sp₀ hsp₀
      · exact h.aligned p sp hsp
    · dsimp only at hsp ⊢
      rw [hmem]
      by_cases hin : p ∈ walkPageRange (s.core.mem.mm m) start (start + len)
      · exact hrecorded p sp hin hsp _
      · rw [hentry, if_neg hin] at hsp
        exact h.pages p sp hsp
  unfold Watch.step Core.doMunmap
  dsimp only
  split
  · exact hhook
  rename_i hargs
  rw [not_or, not_not] at hargs
  have hs : pageSize ∣ start := Nat.dvd_of_mod_eq_zero hargs.1
  have hle := le_pageAlign len
  split
  swap
  · exact hhook
  refine hhook.setMm (s := { s with core := s.core.doMunmapHook env m start len })
    (hhook.ok.unmap hs (Nat.dvd_add hs (pageAlign_dvd len)) (by omega)) rfl fun p sp hsp => ?_
  have hold : Guarded ((s.core.mem.mm m).pte p) (mm₀.pte p) (p ∈ s.written) sp := by
    have hp := hhook.pages p sp hsp
    dsimp only at hp
    rwa [hmem] at hp
  dsimp only
  rw [hmem]
  show Guarded (if start ≤ p ∧ p < start + pageAlign len then Pte.none else (s.core.mem.mm m).pte p) _ _ sp
  split
  swap
  · exact hold
  rename_i hp
  by_cases hin : p ∈ walkPageRange (s.core.mem.mm m) start (start + len)
  · exact hrecorded p sp hin hsp _
  · -- A page that the hook does not come to has no entry.
    refine hold.any fun f hf => hin ?_
    obtain ⟨hslot, hd, hcov⟩ := h.ok.pte p f false hf
    exact mem_walkPageRange_of h.ok.vmas hs hd hp.1 (lt_of_lt_pageAlign hs hd hp.2) hcov hslot

/-! ### The loop -/

/-- What the copy to a recorded page leaves. -/
structure CopiedTo (m id page : Nat) (sp : SnapshotPage) (c c' : Core) : Prop where
  mm : (c.mem.mm m).OnlyPte page (c'.mem.mm m)
  touched : c.reg.Touched (c.reg.live (c.mem.mm m).owner) (OnlyPage page) c'.reg
  entry : ∃ had, (c'.reg.data id).getSnapshotPage page = some { sp with hasHadPte := had }
  dirtyPages : (c'.reg.data id).ss.dirtyPages = (c.reg.data id).ss.dirtyPages
  present : ∃ f w, (c'.mem.mm m).pte page = .present f w

/-- The copy finds a page-table entry, or makes one. -/
theorem Watched.copyToUser (h : Watched m id mm₀ s) (hsp : (s.core.reg.data id).getSnapshotPage page = some sp)
    (hnone : sp.isNonePte = false) (hdirty : sp.dirty = true) (hq : sp.inDirtyList = true) (data : Page)
    (hback : (s.core.mem.mm m).pte page ≠ .none ∨
      env.copyToUser page = true ∧ ∃ v, (s.core.mem.mm m).vmaAt page = some v ∧ v.writable = true) :
    CopiedTo m id page sp s.core (s.core.copyToUser env m page data).1 := by
  have hrefl : (s.core.mem.mm m).pte page ≠ .none → CopiedTo m id page sp s.core s.core := fun hpte =>
    { mm := .refl page _
      touched := .refl h.coherent _ (.refl _)
      entry := ⟨sp.hasHadPte, hsp⟩
      dirtyPages := rfl
      present := by
        cases hp : (s.core.mem.mm m).pte page with
        | none => exact absurd hp hpte
        | present f w => exact ⟨f, w, rfl⟩ }
  unfold Core.copyToUser
  by_cases hcall : env.copyToUser page = true
  swap
  · rw [if_neg hcall]
    exact hrefl (hback.resolve_right fun hb => hcall hb.1)
  rw [if_pos hcall]
  cases hf : s.core.writeFault env m page with
  | none =>
    refine hrefl (hback.resolve_right ?_)
    rintro ⟨-, v, hv, hw⟩
    obtain ⟨c', hc'⟩ := writeFault_isSome env hv hw
    rw [hf] at hc'
    cases hc'
  | some c' =>
    obtain ⟨v, hv, -, hcase⟩ := fault_cases h.coherent hf
    obtain ⟨hmm, f, hpte⟩ := hcase.onlyPte h.ok (h.aligned page sp hsp) hv
    obtain ⟨hentry, hlist⟩ := hcase.dirty_entry h.live hsp hdirty hnone hq
    obtain ⟨hreg, hmms⟩ := store_core m page (fun _ => data) c'
    dsimp only
    refine ⟨?_, ?_, ?_, ?_, f, true, ?_⟩
    · rw [hmms]
      exact hmm
    · rw [hreg]
      exact writeFault_touched h.coherent hf
    · rw [hreg]
      exact hentry
    · rw [hreg]
      exact hlist
    · rw [hmms]
      exact hpte

/-- A round of the loop. -/
structure Watched.Round (m id : Nat) (mm₀ : Mm) (page : Nat) (s s' : Watch) : Prop where
  watched : Watched m id mm₀ s'
  dirtyPages : (s'.core.reg.data id).ss.dirtyPages = (s.core.reg.data id).ss.dirtyPages.erase page
  others : ∀ q, q ≠ page → (s'.core.reg.data id).getSnapshotPage q = (s.core.reg.data id).getSnapshotPage q
  mm : (s.core.mem.mm m).OnlyPte page (s'.core.mem.mm m)

/-- A page comes to rest. -/
theorem Watched.settle (h : Watched m id mm₀ s) (hd : pageSize ∣ page) {c₂ : Core} {o : Option SnapshotPage}
    (hmm : (s.core.mem.mm m).OnlyPte page (c'.mem.mm m))
    (ht : s.core.reg.Touched (s.core.reg.live (s.core.mem.mm m).owner) (OnlyPage page) c₂.reg)
    (hlist : (c₂.reg.data id).ss.dirtyPages = (s.core.reg.data id).ss.dirtyPages)
    (hset : Settled (c₂.reg.data id) page o d') (hreg : c'.reg = c₂.reg.setData id d')
    (hG : ∀ sp, o = some sp → Guarded ((c'.mem.mm m).pte page) (mm₀.pte page) (page ∈ s.written) sp) :
    Watched.Round m id mm₀ page s { s with core := c' } := by
  have hlive := live_eq_some.mp h.live
  have hmade : (c₂.reg.data id).haveSnapshot = true := by
    rw [(ht.data id h.live).same]
    exact hlive.2
  have htouched : s.core.reg.Touched (s.core.reg.live (s.core.mem.mm m).owner) (OnlyPage page) c'.reg := by
    have hsecond := hset.touched ht.coherent hmade
    rw [h.live] at ht ⊢
    rw [hreg]
    exact (ht.trans hsecond).mono fun _ _ ⟨d, h₁, h₂⟩ => h₁.trans h₂
  refine ⟨h.onPage hd hmm htouched (fun p _ => Iff.rfl) fun sp hsp => ?_, ?_, fun q hq => ?_, hmm⟩
  · dsimp only at hsp
    rw [hreg, setData_same, hset.entry] at hsp
    exact hG sp hsp
  · dsimp only
    rw [hreg, setData_same, hset.dirtyPages, hlist]
  · exact (htouched.data id h.live).others q hq

theorem Watched.recoverEntry (h : Watched m id mm₀ s) (hin : page ∈ (s.core.reg.data id).ss.dirtyPages)
    (hback : s.core.WritesBack env m id) :
    Watched.Round m id mm₀ page s { s with core := s.core.recoverEntry env m id page } := by
  obtain ⟨sp, hsp, hq⟩ := (h.queued.mem page).mp hin
  have hd := h.aligned page sp hsp
  have hrefl : s.core.reg.Touched (s.core.reg.live (s.core.mem.mm m).owner) (OnlyPage page) s.core.reg :=
    .refl h.coherent _ (.refl _)
  unfold Core.recoverEntry
  rw [hsp]
  dsimp only
  cases h.pages page sp hsp with
  | armed _ _ hq' => simp [hq] at hq'
  | recorded hnone hdirty _ hcopied =>
    rw [if_pos (by simp [hdirty, hcopied])]
    have hcopy := h.copyToUser hsp hnone hdirty hq (sp.pageData.getD fun _ => 0) (hback page sp hsp hdirty)
    obtain ⟨f, w, hpte⟩ := hcopy.present
    obtain ⟨had, hentry⟩ := hcopy.entry
    have hok := hcopy.mm.ok h.ok
    obtain ⟨hmem, hreg⟩ := recoverPage_eq env id (getSnapshotPage_key hsp) rfl (hok.pte page f w hpte).1
    have hmm : (s.core.recoverPage env m id sp).mem.mm m =
        ((s.core.copyToUser env m page (sp.pageData.getD fun _ => 0)).1.mem.mm m).setPte page (.present f false) := by
      rw [hmem, mm_setPte_self, hpte]
      rfl
    refine h.settle hd ?_ hcopy.touched hcopy.dirtyPages (settled_writtenBack _ page) hreg fun sp' hsp' => ?_
    · rw [hmm]
      exact hcopy.mm.trans (.replace hok hpte)
    · rw [hentry] at hsp'
      cases hsp'
      exact .armed hnone rfl rfl (by rw [hmm, pte_setPte_self]) fun hnot => absurd (hcopied.symm.trans hnot) (by simp)
  | loose hnone hpriv hcow hdirty =>
    rw [if_neg (by simp [hdirty]), if_neg (by simp [hpriv])]
    split
    · obtain ⟨hmem, hreg⟩ := recoverNonePte_eq id page h.ok
      have hmm : (s.core.recoverNonePte m id page).mem.mm m = (s.core.mem.mm m).setPte page .none := by
        rw [hmem, mm_setPte_self]
      refine h.settle hd ?_ hrefl rfl (settled_emptied _ page) hreg fun sp' hsp' => ?_
      · rw [hmm]
        exact .setPte fun f w hf => by cases hf
      · rw [hsp] at hsp'
        cases hsp'
        exact .loose rfl hpriv hcow hdirty
    · have hset : Settled (s.core.reg.data id) page
          (((s.core.reg.data id).getSnapshotPage page).map SnapshotPage.leaveDirtyList)
          (((s.core.reg.data id).modifyPage page SnapshotPage.leaveDirtyList).delDirty page) :=
        settled_dequeue (f := fun sp => sp) (fun q => by split <;> simp) (.refl _) rfl fun hu => hu
      refine h.settle hd (.refl page _) hrefl rfl hset rfl fun sp' hsp' => ?_
      rw [hsp] at hsp'
      cases hsp'
      exact .loose hnone hpriv hcow hdirty

theorem Watched.dirty_queued (h : Watched m id mm₀ s) (hsp : (s.core.reg.data id).getSnapshotPage page = some sp)
    (hdirty : sp.dirty = true) : page ∈ (s.core.reg.data id).ss.dirtyPages := by
  refine (h.queued.mem page).mpr ⟨sp, hsp, ?_⟩
  cases h.pages page sp hsp with
  | loose _ _ _ hdirty' => simp [hdirty] at hdirty'
  | armed _ hdirty' => simp [hdirty] at hdirty'
  | recorded _ _ hq => exact hq

theorem Watched.recoverEntries (h : Watched m id mm₀ s) (hback : s.core.WritesBack env m id)
    (hl : (s.core.reg.data id).ss.dirtyPages = l) :
    Watched m id mm₀ { s with core := l.foldl (Core.recoverEntry env m id) s.core } ∧
      ((l.foldl (Core.recoverEntry env m id) s.core).reg.data id).ss.dirtyPages = [] := by
  induction l generalizing s with
  | nil => exact ⟨h, hl⟩
  | cons page l ih =>
    have hround := h.recoverEntry (hl ▸ List.mem_cons_self) hback
    have hl' : ((s.core.recoverEntry env m id page).reg.data id).ss.dirtyPages = l := by
      rw [hround.dirtyPages, hl, List.erase_cons_head]
    refine ih (s := { s with core := s.core.recoverEntry env m id page }) hround.watched (fun p sp hsp hdirty => ?_) hl'
    -- The page of the round is not dirty any more.
    have hne : p ≠ page := by
      rintro rfl
      have hin := hround.watched.dirty_queued hsp hdirty
      have hnd := h.queued.nodup
      dsimp only at hin
      rw [hl'] at hin
      rw [hl] at hnd
      exact (List.nodup_cons.mp hnd).1 hin
    rw [hround.others p hne] at hsp
    unfold Mm.vmaAt
    rw [hround.mm.others p hne, hround.mm.mmap]
    exact hback p sp hsp hdirty

/-! ### Runs -/

/-- No pages want a buffer after the hook of an unmapping that did not before. -/
theorem Watched.feeds_munmap (h : Watched m id mm₀ s) {start len : Nat} (hfeed : ∀ p, (s.core.reg.data id).Feeds env p) (p : Nat) :
    ((s.core.doMunmap env m start len).1.reg.data id).Feeds env p := by
  have hreg : (s.core.doMunmap env m start len).1.reg = (s.core.doMunmapHook env m start len).reg := by
    unfold Core.doMunmap
    dsimp only
    split
    · rfl
    · split <;> rfl
  obtain ⟨-, hentry, -, -⟩ := (doMunmapHook_spec env m start len h.coherent).1.data id h.live
  intro sp hsp hwants
  rw [hreg, hentry] at hsp
  split at hsp
  · obtain ⟨sp₀, hsp₀, rfl⟩ := Option.map_eq_some_iff.mp hsp
    refine hfeed p sp₀ hsp₀ ?_
    unfold SnapshotPage.recorded at hwants
    split at hwants
    · exact hwants
    · split at hwants
      · cases hwants.1
      · split at hwants <;> cases hwants.1
  · exact hfeed p sp hsp hwants

theorem Watched.swept (h : Watched m id mm₀ s) (hfeed : ∀ p, (s.core.reg.data id).Feeds env p) :
    Watched m id mm₀ { s with core := (s.core.sweptVmas env m id).1 } := by
  let I : Core → Prop := fun c => Watched m id mm₀ { s with core := c } ∧ ∀ p, (c.reg.data id).Feeds env p
  have hI : I (s.core.sweptVmas env m id).1 := by
    refine sweptVmas_keeps h.vmas (fun c start len hc => ⟨hc.1.munmap fun p _ => hc.2 p, hc.1.feeds_munmap hc.2⟩)
      (fun c start end_ prot hc hs he hse htop hfree => ⟨?_, hc.2⟩) (fun c hc => ⟨?_, hc.2⟩) ⟨h, hfeed⟩
    · exact hc.1.map ⟨hs, he, hse, htop, hfree⟩
    · exact ⟨hc.1.ok, hc.1.coherent, hc.1.live, hc.1.vmas, hc.1.queued, hc.1.aligned, hc.1.pages⟩
  exact hI.1

theorem Watched.step (h : Watched m id mm₀ s) (a : WatchStep) (ha : s.Allows m id a) : Watched m id mm₀ (s.step m id a) := by
  cases a with
  | read env addr => exact h.read addr
  | write env addr byte => exact h.write addr byte ha
  | munmap env start len => exact h.munmap ha
  | map start end_ prot => exact h.map ha
  | setBrk brk => exact h.setBrk brk
  | recover env =>
    have hswept := h.swept ha.1
    unfold Watch.step
    dsimp only
    rw [recoverMemorySnapshot_eq]
    split
    · rename_i hres
      exact (hswept.recoverEntries (ha.2 hres) rfl).1
    · exact hswept

/-- Nothing is left to be written back, and every page is such that the next write to it is recorded. -/
structure Rearmed (m id : Nat) (mm₀ : Mm) (s : Watch) : Prop where
  empty : (s.core.reg.data id).ss.dirtyPages = []
  flags : ∀ p sp, (s.core.reg.data id).getSnapshotPage p = some sp → sp.dirty = false ∧ sp.inDirtyList = false
  saved : ∀ p sp, (s.core.reg.data id).getSnapshotPage p = some sp → sp.isPrivate = true ∨ sp.isCow = true →
    sp.hasBeenCopied = true ∨ p ∉ s.written ∧ (s.core.mem.mm m).pte p = mm₀.pte p
  records : ∀ p sp env c', (s.core.reg.data id).getSnapshotPage p = some sp → sp.isPrivate = true ∨ sp.isCow = true →
    s.core.writeFault env m p = some c' → p ∈ (c'.reg.data id).ss.dirtyPages

theorem recorded_queued (hnone : sp.isNonePte = false) (hdirty : sp.dirty = false) :
    (sp.recorded B alloc).inDirtyList = true := by
  rw [SnapshotPage.recorded, if_neg (by simp [hdirty, hnone])]
  split
  · rfl
  · split <;> rfl

/-- A write to a page with a read-only entry queues the page. -/
theorem Fault.queues (h : Fault env m page c v c') (hlive : c.reg.live (c.mem.mm m).owner = some id)
    (hqueued : (c.reg.data id).Queued) (hsp : (c.reg.data id).getSnapshotPage page = some sp)
    (hnone : sp.isNonePte = false) (hdirty : sp.dirty = false) {f : Nat} (hpte : (c.mem.mm m).pte page = .present f false) :
    page ∈ (c'.reg.data id).ss.dirtyPages := by
  have hrecorded : ∀ reg', c.Recorded env m page reg' → (reg'.data id).Queued ∧
      ∃ sp', (reg'.data id).getSnapshotPage page = some sp' ∧ sp'.inDirtyList = true := fun reg' hrec => by
    have hupd := hrec.data id hlive
    exact ⟨hupd.queued hqueued, _, by rw [hupd.entry, hsp]; rfl, recorded_queued hnone hdirty⟩
  have hmem : ∀ d : TaskData, d.Queued ∧ (∃ sp', d.getSnapshotPage page = some sp' ∧ sp'.inDirtyList = true) →
      page ∈ d.ss.dirtyPages := fun d hd => (hd.1.mem page).mpr hd.2
  cases h with
  | ready hpte' =>
    rw [hpte] at hpte'
    cases hpte'
  | mkwrite _ _ hrec => exact hmem _ (hrecorded _ hrec)
  | @copied g c₁ _ _ _ hrec hmem₁ hn =>
    obtain ⟨hq, sp', hsp', hq'⟩ := hrecorded _ hrec
    have hnoted := hn.data id (by rw [hrec.live, hmem₁, hlive])
    rcases hnoted with hupd | ⟨-, heq⟩
    · obtain ⟨sp'', hsp'', hq''⟩ := hupd.keeps sp' hsp' hq'
      exact hmem _ ⟨hupd.queued hq, sp'', hupd.entry.trans hsp'', hq''⟩
    · rw [heq]
      exact hmem _ ⟨hq, sp', hsp', hq'⟩
  | mapped hpte' =>
    rw [hpte] at hpte'
    cases hpte'
  | fresh hpte' =>
    rw [hpte] at hpte'
    cases hpte'

theorem Watched.rearmed (h : Watched m id mm₀ s) (hempty : (s.core.reg.data id).ss.dirtyPages = []) :
    Rearmed m id mm₀ s := by
  have hfree : ∀ p sp, (s.core.reg.data id).getSnapshotPage p = some sp → sp.inDirtyList ≠ true := fun p sp hsp hq => by
    have hin := (h.queued.mem p).mpr ⟨sp, hsp, hq⟩
    rw [hempty] at hin
    cases hin
  refine ⟨hempty, fun p sp hsp => ?_, fun p sp hsp hkind => ?_, fun p sp env c' hsp hkind hf => ?_⟩ <;>
    have hp := h.pages p sp hsp <;> have hq := hfree p sp hsp
  · refine ⟨?_, by simpa using hq⟩
    cases hp with
    | loose _ _ _ hdirty => exact hdirty
    | armed _ hdirty => exact hdirty
    | recorded _ _ hq' => exact absurd hq' hq
  · cases hp with
    | loose _ hpriv hcow => simp [hpriv, hcow] at hkind
    | armed _ _ _ hpte hsafe =>
      by_cases hcopied : sp.hasBeenCopied = true
      · exact Or.inl hcopied
      · obtain ⟨hout, hpte₀⟩ := hsafe (by simpa using hcopied)
        exact Or.inr ⟨hout, hpte.trans hpte₀.symm⟩
    | recorded _ _ hq' => exact absurd hq' hq
  · cases hp with
    | loose _ hpriv hcow => simp [hpriv, hcow] at hkind
    | armed hnone hdirty _ hpte hsafe =>
      obtain ⟨v, -, -, hcase⟩ := fault_cases h.coherent hf
      exact hcase.queues h.live h.queued hsp hnone hdirty hpte
    | recorded _ _ hq' => exact absurd hq' hq

/-! ### The take, and restores -/

variable {t config : Nat} {w w' : World} {d₀ : TaskData} {env₀ : Env}

/-- A take leaves every page armed or without a page-table entry, even where it ends early. -/
theorem Took.watched (h : Took env₀ t config w id d₀ w') (hok : (w.mmOf t).Ok) (howner : (w.mmOf t).owner = t) :
    Watched (w.task t).mm id (w'.core.mem.mm (w.task t).mm) ⟨w'.core, []⟩ := by
  have hblank : (w.initialized t config d₀).Blank := h.fresh.2.2
  obtain ⟨done, rest, x, s, hd, hT, hres, -⟩ := take_taken env₀.take hok.sorted hblank
  have hres : (w.taking env₀ t config d₀).1 = (s.data, s.mm) := hres
  have hmm : w'.core.mem.mm (w.task t).mm = s.mm := by rw [h.mem, hres, mm_setMm_self]
  have hdata := h.data
  rw [hres] at hdata
  have hget : ∀ p, (w'.core.reg.data id).getSnapshotPage p = s.data.getSnapshotPage p := fun p => by rw [hdata]; rfl
  have hempty : (w'.core.reg.data id).ss.dirtyPages = [] := by
    rw [hdata]
    show s.data.ss.dirtyPages = []
    rw [hT.same]
    exact h.fresh.2.2.2.2.2
  have hentry : ∀ p sp, (w'.core.reg.data id).getSnapshotPage p = some sp →
      sp = .ofPte p ((w.mmOf t).pte p) none ∧ s.mm.pte p = ((w.mmOf t).pte p).wrprotect ∧ pageSize ∣ p := fun p sp hsp => by
    rw [hget] at hsp
    rcases hT.page p with ⟨hnone, -⟩ | ⟨hsome, hpte, hvis, -⟩
    · rw [hnone] at hsp
      cases hsp
    · exact ⟨Option.some.inj (hsp.symm.trans hsome), hpte, hvis.aligned⟩
  refine ⟨?_, h.coherent, ?_, ?_, ⟨?_, fun p => ?_⟩, fun p sp hsp => (hentry p sp hsp).2.2, fun p sp hsp => ?_⟩
  · dsimp only
    rw [hmm]
    exact hT.mmOk hok
  · have hown : s.mm.owner = (w.mmOf t).owner := by rw [hT.tables]
    dsimp only
    rw [hmm, hown, howner]
    exact h.live
  · show SnapshotVmasOk (w'.core.reg.data id).ss.allVmas
    rw [hdata]
    show SnapshotVmasOk s.data.ss.allVmas
    rw [hT.allVmas]
    have hvmas : VmasOk (w.mmOf t).freshVma (done ++ rest) := hd ▸ hok.vmas
    exact hvmas.snapshotVmas _
  · rw [hempty]
    exact List.nodup_nil
  · rw [hempty]
    refine iff_of_false List.not_mem_nil ?_
    rintro ⟨sp, hsp, hq⟩
    rw [(hentry p sp hsp).1] at hq
    cases hq
  · obtain ⟨rfl, hpte, -⟩ := hentry p sp hsp
    dsimp only
    rw [hmm, hpte]
    cases (w.mmOf t).pte p with
    | none => exact .loose rfl rfl rfl rfl
    | present f b => exact .armed (f := f) rfl rfl rfl rfl fun _ => ⟨List.not_mem_nil, rfl⟩

/-- In every run from a take on in which `record_dirty_page` is given its buffers, and every page that a loop finds dirty is
    written back or has a page-table entry, all pages are armed where `recover_memory_snapshot` returns 0. -/
theorem rearms (hok : (w.mmOf t).Ok) (hc : w.core.reg.Coherent) (howner : (w.mmOf t).owner = t)
    (hidle : w.core.reg.live t = none) (htake : (w.takeSnapshot env₀ t config).1 = w')
    (hid : w'.core.reg.live t = some id)
    (h : Run (Watch.step (w.task t).mm id) (Watch.Allows (w.task t).mm id) ⟨w'.core, []⟩ s)
    (ha : s.Allows (w.task t).mm id (.recover env)) (hres : (s.core.recoverMemorySnapshot env (w.task t).mm id).2 = 0) :
    Rearmed (w.task t).mm id (w'.mmOf t) (s.step (w.task t).mm id (.recover env)) := by
  rcases takeSnapshot_cases env₀ t config hc hok.sorted with ⟨i, hlive, -⟩ | ⟨-, -, heq⟩ | ⟨i, d₀, -, hT, -⟩
  · rw [hidle] at hlive
    cases hlive
  · rw [heq] at htake
    subst htake
    have hnone : w.core.reg.live t = some id := hid
    rw [hidle] at hnone
    cases hnone
  · rw [htake] at hT
    obtain rfl : i = id := Option.some.inj (hT.live.symm.trans hid)
    have hmm : w'.mmOf t = w'.core.mem.mm (w.task t).mm := by rw [World.mmOf, hT.task]
    rw [hmm]
    have hw : Watched (w.task t).mm i (w'.core.mem.mm (w.task t).mm) s :=
      h.invariant (hT.watched hok howner) fun _ a hw ha => hw.step a ha
    have hswept := hw.swept ha.1
    unfold Watch.step
    dsimp only
    rw [recoverMemorySnapshot_eq] at hres ⊢
    by_cases hzero : (s.core.sweptVmas env (w.task t).mm i).2 = 0
    · rw [if_pos hzero]
      obtain ⟨h1, h2⟩ := hswept.recoverEntries (ha.2 hzero) rfl
      exact h1.rearmed h2
    · rw [if_neg hzero] at hres
      exact absurd hres hzero

/-- A page is written, and a snapshot taken. -/
def writtenTaken : World := ((World.boot heapMm [1]).step .calm 1 (.write 4096 7)).step .calm 1 (.ioctl (.take 0))

/-- The page is written again, with a buffer for its bytes. -/
def fedWrite : Watch := Watch.step 0 0 ⟨writtenTaken.core, []⟩ (.write .calm 4096 8)

theorem rearms_fed : Rearmed 0 0 (writtenTaken.mmOf 1) (fedWrite.step 0 0 (.recover .calm)) := by
  have hidle : Idle 1 ((World.boot heapMm [1]).step .calm 1 (.write 4096 7)) :=
    (heapMm_idle [1]).write 4096 7 rfl calm_reuseSound
  refine rearms (hidle.sane.mms 0) hidle.coherent hidle.owner hidle.live rfl rfl
    (.step .start fun _ _ _ => rfl) ⟨fun _ _ _ _ => rfl, fun _ p sp hsp _ => Or.inr ⟨rfl, ?_⟩⟩ (by decide)
  have hpages : ∀ sp ∈ ((fedWrite.core.sweptVmas .calm 0 0).1.reg.data 0).ss.ssPages, sp.pageBase = 4096 ∨ sp.pageBase = 8192 := by
    decide
  have hvmas : ∀ q, q = 4096 ∨ q = 8192 → ((fedWrite.core.sweptVmas .calm 0 0).1.mem.mm 0).vmaAt q = some heapVma := by
    rintro q (rfl | rfl) <;> decide
  rw [← getSnapshotPage_key hsp]
  exact ⟨heapVma, hvmas _ (hpages sp (Keyed.get_mem hsp)), rfl⟩

/-- The page is written again without memory for a buffer. -/
def starvedWrite : Watch :=
  Watch.step 0 0 ⟨writtenTaken.core, []⟩ (.write { Env.calm with pageData := fun _ => false } 4096 8)

/-- All of the heap is unmapped. -/
def heapUnmapped : Watch := Watch.step 0 0 ⟨writtenTaken.core, []⟩ (.munmap .calm 4096 8192)

/-- A page whose bytes could not be saved stays dirty, so that no later write to it is recorded; a page whose tables are
    gone stays queued. -/
theorem rearms_fails :
    ((starvedWrite.core.recoverMemorySnapshot .calm 0 0).2 = 0 ∧
      ¬Rearmed 0 0 (writtenTaken.mmOf 1) ⟨(starvedWrite.core.recoverMemorySnapshot .calm 0 0).1, starvedWrite.written⟩ ∧
      (((starvedWrite.core.recoverMemorySnapshot .calm 0 0).1.writeByte .calm 0 4096 9).reg.data 0).ss.dirtyPages = []) ∧
    (heapUnmapped.core.recoverMemorySnapshot .calm 0 0).2 = 0 ∧
      ¬Rearmed 0 0 (writtenTaken.mmOf 1) ⟨(heapUnmapped.core.recoverMemorySnapshot .calm 0 0).1, heapUnmapped.written⟩ := by
  refine ⟨⟨by decide, fun h => ?_, by decide⟩, by decide, fun h => ?_⟩
  · have hdirty : (((starvedWrite.core.recoverMemorySnapshot .calm 0 0).1.reg.data 0).getSnapshotPage 4096).any
        SnapshotPage.dirty = true := by decide
    cases hget : ((starvedWrite.core.recoverMemorySnapshot .calm 0 0).1.reg.data 0).getSnapshotPage 4096 with
    | none =>
      rw [hget] at hdirty
      cases hdirty
    | some sp =>
      rw [hget] at hdirty
      have hclean := (h.flags 4096 sp hget).1
      rw [show sp.dirty = true from hdirty] at hclean
      cases hclean
  · have hlist : ((heapUnmapped.core.recoverMemorySnapshot .calm 0 0).1.reg.data 0).ss.dirtyPages = [4096] := by decide
    have hempty := h.empty
    dsimp only at hempty
    rw [hlist] at hempty
    cases hempty

end
end AflSnapshot
