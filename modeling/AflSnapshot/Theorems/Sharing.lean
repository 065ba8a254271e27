import AflSnapshot.Theorems.Rearming
import AflSnapshot.Theorems.Rounds

/-! # Pages that the hook makes writable

`do_wp_page_hook` goes by the flags of an entry, not by the frame behind it. `Core.Safe` says that the frame is the page's
own wherever the flags send the hook to make it writable. This file holds the invariant, and how faults, mappings, the loop
of a restore, takes and forks keep it. -/

namespace AflSnapshot
open Runs

/-- A clean private entry. -/
def SnapshotPage.Trusted (sp : SnapshotPage) : Prop := sp.dirty = false ∧ sp.isNonePte = false ∧ sp.isPrivate = true

/-- The live snapshot of the owner has such an entry for the page: the hook makes the page writable in place. -/
def Core.Trusted (c : Core) (m page : Nat) : Prop :=
  ∃ id sp, c.reg.live (c.mem.mm m).owner = some id ∧ (c.reg.data id).getSnapshotPage page = some sp ∧ sp.Trusted

structure Core.Safe (c : Core) : Prop where
  sane : c.mem.Sane
  coherent : c.reg.Coherent
  owners : ∀ m m', m < c.mem.freshMm → m' < c.mem.freshMm → (c.mem.mm m).owner = (c.mem.mm m').owner → m = m'
  aligned : ∀ u id p sp, c.reg.live u = some id → (c.reg.data id).getSnapshotPage p = some sp → pageSize ∣ p
  armed : ∀ m page v, (c.mem.mm m).vmaAt page = some v → v.shared = false → c.Armed m page

/-- A step of the process of one address space: what the others have stays. -/
structure Core.Local (m : Nat) (c c' : Core) : Prop where
  freshPfn : c.mem.freshPfn ≤ c'.mem.freshPfn
  freshMm : c'.mem.freshMm = c.mem.freshMm
  owner : (c'.mem.mm m).owner = (c.mem.mm m).owner
  mm : ∀ m', m' ≠ m → c'.mem.mm m' = c.mem.mm m'
  records : ∀ u id, u ≠ (c.mem.mm m).owner → c'.reg.live u = some id → c.reg.live u = some id ∧ c'.reg.data id = c.reg.data id
  exclusive : ∀ m' q f, f < c.mem.freshPfn → c.mem.Exclusive m' q f → c'.mem.Exclusive m' q f

/-- The live snapshot of the owner has no new entries, and trusts none that it did not trust. -/
def Core.Inherits (m : Nat) (c c' : Core) : Prop :=
  ∀ id q sp', c'.reg.live (c.mem.mm m).owner = some id → (c'.reg.data id).getSnapshotPage q = some sp' →
    c.reg.live (c.mem.mm m).owner = some id ∧ ∃ sp, (c.reg.data id).getSnapshotPage q = some sp ∧ (sp'.Trusted → sp.Trusted)

section
variable {env : Env} {m m' id page q t u : Nat} {c c₁ c' : Core} {mm : Mm} {v : VmArea} {sp : SnapshotPage}

theorem armed_iff : c.Armed m page ↔
    (c.Trusted m page → ∀ f w, (c.mem.mm m).pte page = .present f w → c.mem.Exclusive m page f) := by
  constructor
  · rintro h ⟨id, sp, h1, h2, h3, h4, h5⟩ f w hpte
    exact h id sp f w h1 h2 h3 h4 h5 hpte
  · intro h id sp f w h1 h2 h3 h4 h5 hpte
    exact h ⟨id, sp, h1, h2, h3, h4, h5⟩ f w hpte

/-- A page that is trusted afterwards only if it was before, and gets no new frame. -/
theorem Core.Armed.kept (h : c.Armed m page) (hs : c.mem.Sane) (htrust : c'.Trusted m page → c.Trusted m page)
    (hpte : ∀ f w, (c'.mem.mm m).pte page = .present f w → ∃ w₀, (c.mem.mm m).pte page = .present f w₀)
    (hex : ∀ f, f < c.mem.freshPfn → c.mem.Exclusive m page f → c'.mem.Exclusive m page f) : c'.Armed m page :=
  armed_iff.mpr fun ht f w hf => by
    obtain ⟨w₀, hw₀⟩ := hpte f w hf
    exact hex f (hs.pfn m page f w₀ hw₀) (armed_iff.mp h (htrust ht) f w₀ hw₀)

namespace Core.Local

theorem refl (m : Nat) (c : Core) : c.Local m c :=
  ⟨le_rfl, rfl, rfl, fun _ _ => rfl, fun _ _ _ h => ⟨h, rfl⟩, fun _ _ _ _ h => h⟩

theorem trans (h₁ : c.Local m c₁) (h₂ : c₁.Local m c') : c.Local m c' where
  freshPfn := le_trans h₁.freshPfn h₂.freshPfn
  freshMm := h₂.freshMm.trans h₁.freshMm
  owner := h₂.owner.trans h₁.owner
  mm m' hm := (h₂.mm m' hm).trans (h₁.mm m' hm)
  records u id hu hlive := by
    obtain ⟨hlive₁, hdata⟩ := h₂.records u id (h₁.owner.symm ▸ hu) hlive
    obtain ⟨hlive₀, hdata₀⟩ := h₁.records u id hu hlive₁
    exact ⟨hlive₀, hdata.trans hdata₀⟩
  exclusive m' q f hf hex := h₂.exclusive m' q f (lt_of_lt_of_le hf h₁.freshPfn) (h₁.exclusive m' q f hf hex)

/-- The pages of another process are trusted as before. -/
theorem trusted (h : c.Local m c') (hm : m' ≠ m) (howner : (c.mem.mm m').owner ≠ (c.mem.mm m).owner)
    (ht : c'.Trusted m' q) : c.Trusted m' q := by
  obtain ⟨id, sp, hlive, hsp, hflags⟩ := ht
  rw [h.mm m' hm] at hlive
  obtain ⟨hlive₀, hdata⟩ := h.records _ id howner hlive
  exact ⟨id, sp, hlive₀, hdata ▸ hsp, hflags⟩

end Core.Local

/-- A step of the process that keeps the invariant. -/
structure Core.SafeStep (m : Nat) (c c' : Core) : Prop extends Core.Local m c c' where
  safe : c'.Safe

theorem Core.Safe.refl (h : c.Safe) (m : Nat) : c.SafeStep m c := ⟨.refl m c, h⟩

theorem Core.SafeStep.trans (h₁ : c.SafeStep m c₁) (h₂ : c₁.SafeStep m c') : c.SafeStep m c' :=
  ⟨h₁.toLocal.trans h₂.toLocal, h₂.safe⟩

theorem Core.SafeStep.used (h : c.SafeStep m c') (hm : m < c.mem.freshMm) : m < c'.mem.freshMm := h.freshMm.symm ▸ hm

/-- Only the pages of the process itself are left to be looked at. -/
theorem Core.Safe.of_local (h : c.Safe) (hm : m < c.mem.freshMm) (hl : c.Local m c') (hs : c'.mem.Sane) (hc : c'.reg.Coherent)
    (haligned : ∀ id p sp, c'.reg.live (c.mem.mm m).owner = some id → (c'.reg.data id).getSnapshotPage p = some sp →
      pageSize ∣ p)
    (harmed : ∀ page v, (c'.mem.mm m).vmaAt page = some v → v.shared = false → c'.Armed m page) : c'.Safe where
  sane := hs
  coherent := hc
  owners m₁ m₂ h₁ h₂ heq := by
    have howner : ∀ m', (c'.mem.mm m').owner = (c.mem.mm m').owner := fun m' => by
      by_cases hm' : m' = m
      · rw [hm']
        exact hl.owner
      · rw [hl.mm m' hm']
    rw [hl.freshMm] at h₁ h₂
    rw [howner, howner] at heq
    exact h.owners m₁ m₂ h₁ h₂ heq
  aligned u id p sp hlive hsp := by
    by_cases hu : u = (c.mem.mm m).owner
    · subst hu
      exact haligned id p sp hlive hsp
    · obtain ⟨hlive₀, hdata⟩ := hl.records u id hu hlive
      exact h.aligned u id p sp hlive₀ (hdata ▸ hsp)
  armed m' q v hv hpriv := by
    by_cases hm' : m' = m
    · subst hm'
      exact harmed q v hv hpriv
    · have hused : m' < c.mem.freshMm := by
        by_contra hle
        have hnone := hs.unused m' (by rw [hl.freshMm]; omega)
        obtain ⟨x, hx, -⟩ := covers_of_vmaAt hv
        rw [hnone] at hx
        cases hx
      have howner : (c.mem.mm m').owner ≠ (c.mem.mm m).owner := fun heq => hm' (h.owners m' m hused hm heq)
      rw [hl.mm m' hm'] at hv
      refine (h.armed m' q v hv hpriv).kept h.sane (hl.trusted hm' howner) (fun f w hf => ?_) fun f => hl.exclusive m' q f
      rw [hl.mm m' hm'] at hf
      exact ⟨w, hf⟩

/-! ### Steps of one page -/

/-- A step that concerns one page of an address space. -/
structure Core.OnPage (m page : Nat) (c c' : Core) : Prop extends Core.Local m c c' where
  mmap : (c'.mem.mm m).mmap = (c.mem.mm m).mmap
  brk : (c'.mem.mm m).brk = (c.mem.mm m).brk
  others : ∀ q, q ≠ page → (c'.mem.mm m).pte q = (c.mem.mm m).pte q
  entries : ∀ id q, q ≠ page → c'.reg.live (c.mem.mm m).owner = some id →
    c.reg.live (c.mem.mm m).owner = some id ∧ (c'.reg.data id).getSnapshotPage q = (c.reg.data id).getSnapshotPage q

theorem Core.OnPage.refl (m page : Nat) (c : Core) : c.OnPage m page c :=
  ⟨.refl m c, rfl, rfl, fun _ _ => rfl, fun _ _ _ hlive => ⟨hlive, rfl⟩⟩

theorem Core.OnPage.trans (h₁ : c.OnPage m page c₁) (h₂ : c₁.OnPage m page c') : c.OnPage m page c' where
  toLocal := h₁.toLocal.trans h₂.toLocal
  mmap := h₂.mmap.trans h₁.mmap
  brk := h₂.brk.trans h₁.brk
  others q hq := (h₂.others q hq).trans (h₁.others q hq)
  entries id q hq hlive := by
    obtain ⟨hlive₁, heq⟩ := h₂.entries id q hq (h₁.owner.symm ▸ hlive)
    rw [h₁.owner] at hlive₁
    obtain ⟨hlive₀, heq₀⟩ := h₁.entries id q hq hlive₁
    exact ⟨hlive₀, heq.trans heq₀⟩

theorem Core.OnPage.trusted (h : c.OnPage m page c') (hq : q ≠ page) (ht : c'.Trusted m q) : c.Trusted m q := by
  obtain ⟨id, sp, hlive, hsp, hflags⟩ := ht
  rw [h.owner] at hlive
  obtain ⟨hlive₀, heq⟩ := h.entries id q hq hlive
  exact ⟨id, sp, hlive₀, heq ▸ hsp, hflags⟩

theorem Core.OnPage.vmaAt (h : c.OnPage m page c') : (c'.mem.mm m).vmaAt q = (c.mem.mm m).vmaAt q := by
  unfold Mm.vmaAt
  rw [h.mmap]

theorem Core.Safe.onPage (h : c.Safe) (hm : m < c.mem.freshMm) (hd : pageSize ∣ page) (hp : c.OnPage m page c')
    (hs : c'.mem.Sane) (hc : c'.reg.Coherent)
    (hpage : ∀ v, (c.mem.mm m).vmaAt page = some v → v.shared = false → c'.Armed m page) : c'.Safe := by
  refine h.of_local hm hp.toLocal hs hc (fun id q sp hlive hsp => ?_) fun q v hv hpriv => ?_ <;> by_cases hq : q = page
  · rwa [hq]
  · obtain ⟨hlive₀, heq⟩ := hp.entries id q hq hlive
    exact h.aligned _ id q sp hlive₀ (heq ▸ hsp)
  · subst hq
    rw [hp.vmaAt] at hv
    exact hpage v hv hpriv
  · rw [hp.vmaAt] at hv
    refine (h.armed m q v hv hpriv).kept h.sane (hp.trusted hq) (fun f w hf => ?_) fun f => hp.exclusive m q f
    rw [hp.others q hq] at hf
    exact ⟨w, hf⟩

/-- The live record of one task at most is another one afterwards. -/
theorem Registry.Touched.records {reg reg' : Registry} {R : TaskData → TaskData → Prop} (ht : reg.Touched (reg.live t) R reg')
    {id : Nat} (hu : u ≠ t) (hlive : reg'.live u = some id) : reg.live u = some id ∧ reg'.data id = reg.data id := by
  rw [ht.live] at hlive
  refine ⟨hlive, ht.others id fun heq => hu ?_⟩
  have h₁ := (getTaskData_spec (live_eq_some.mp hlive).1).2
  have h₂ := (getTaskData_spec (live_eq_some.mp heq).1).2
  exact h₁.symm.trans h₂

/-- A fault. -/
theorem Memory.Faulted.onPage (hF : c.mem.Faulted m page c'.mem)
    (ht : c.reg.Touched (c.reg.live (c.mem.mm m).owner) (OnlyPage page) c'.reg) : c.OnPage m page c' where
  freshPfn := hF.freshPfn
  freshMm := hF.freshMm
  owner := hF.owner
  mm := hF.mm
  records _ _ hu hlive := ht.records hu hlive
  exclusive _ _ _ hf hex := hF.exclusive hex hf
  mmap := hF.mmap
  brk := hF.brk
  others := hF.others
  entries id q hq hlive := by
    rw [ht.live] at hlive
    exact ⟨hlive, (ht.data id hlive).others q hq⟩

theorem Core.Safe.writeFault (h : c.Safe) (hm : m < c.mem.freshMm) (hreuse : env.ReuseSound) (hd : pageSize ∣ page)
    (hf : c.writeFault env m page = some c') : c'.Safe ∧ c.OnPage m page c' ∧
      ∃ v, (c.mem.mm m).vmaAt page = some v ∧ v.writable = true ∧ WriteFault env m page c v c' := by
  obtain ⟨v, hv, hw, hcase⟩ := writeFault_cases h.coherent hreuse (fun v hv hs => h.armed m page v hv hs) hf
  have hp := (hcase.faulted h.sane).onPage (writeFault_touched h.coherent hf)
  have hs := hcase.sane h.sane hd hv
  refine ⟨h.onPage hm hd hp hs (writeFault_touched h.coherent hf).coherent fun v' hv' hpriv => armed_iff.mpr fun _ f w hpte => ?_,
    hp, v, hv, hw, hcase⟩
  -- The page is writable now.
  obtain ⟨g, hg⟩ := hcase.writable
  rw [hg] at hpte
  cases hpte
  exact hs.excl m page _ v' hg (hp.vmaAt.trans hv') hpriv

theorem onPage_store (m page : Nat) (g : Page → Page) (c : Core) : c.OnPage m page (c.store m page g) := by
  unfold Core.store
  split
  · rename_i f w _
    have hr : c.mem.Restricts (c.mem.setFrame f { c.mem.frame f with data := g (c.mem.frame f).data }) := .setFrame rfl
    exact ⟨⟨le_rfl, rfl, rfl, fun _ _ => rfl, fun _ _ _ hlive => ⟨hlive, rfl⟩, fun _ _ _ hf hex => hex.restrict hf hr⟩, rfl,
      rfl, fun _ _ => rfl, fun _ _ _ hlive => ⟨hlive, rfl⟩⟩
  · exact .refl m page c

theorem Core.Safe.store (h : c.Safe) (m page : Nat) (g : Page → Page) : c.SafeStep m (c.store m page g) := by
  refine ⟨(onPage_store m page g c).toLocal, ?_⟩
  unfold Core.store
  split
  · rename_i f w _
    have hr : c.mem.Restricts (c.mem.setFrame f { c.mem.frame f with data := g (c.mem.frame f).data }) := .setFrame rfl
    refine ⟨h.sane.setFrame rfl, h.coherent, h.owners, h.aligned, fun m' q v hv hpriv => ?_⟩
    exact (h.armed m' q v hv hpriv).kept h.sane (fun ht => ht) (fun f' w' hf' => ⟨w', hf'⟩)
      fun f' hf' hex => hex.restrict hf' hr
  · exact h

theorem Core.Safe.readByte (h : c.Safe) (hm : m < c.mem.freshMm) {addr : Nat}
    (hread : c.Trusted m (pageBase addr) → (c.mem.mm m).pte (pageBase addr) ≠ .none) :
    c.SafeStep m (c.readByte env m addr) := by
  unfold Core.readByte
  cases hf : c.readFault env m (pageBase addr) with
  | none => exact h.refl m
  | some c' =>
    obtain ⟨v, hv, -, hcase⟩ := readFault_cases hf
    have hreg : c'.reg = c.reg := hcase.reg
    have ht : c.reg.Touched (c.reg.live (c.mem.mm m).owner) (OnlyPage (pageBase addr)) c'.reg := by
      rw [hreg]
      exact .refl h.coherent _ (.refl _)
    have hF := hcase.faulted h.sane
    refine ⟨(hF.onPage ht).toLocal, h.onPage hm (pageBase_dvd addr) (hF.onPage ht)
      (hcase.sane h.sane (pageBase_dvd addr) hv) ht.coherent fun v' hv' hpriv => ?_⟩
    have htrust : c'.Trusted m (pageBase addr) → c.Trusted m (pageBase addr) := fun htr => by
      unfold Core.Trusted at htr ⊢
      rwa [hreg, hF.owner] at htr
    cases hcase with
    | ready => exact h.armed m _ v' hv' hpriv
    | mapped hpte => exact armed_iff.mpr fun htr => absurd hpte (hread (htrust htr))

/-! ### Mappings -/

theorem Memory.Restricts.refl (mem : Memory) : mem.Restricts mem :=
  ⟨le_rfl, fun _ _ => rfl, rfl, fun _ _ _ w hp => ⟨⟨w, hp, fun h => h⟩, fun v hv => ⟨v, hv, rfl⟩⟩⟩

/-- No page gets a frame. -/
theorem Core.Safe.restrict (h : c.Safe) (hm : m < c.mem.freshMm) (hl : c.Local m c') (hr : c.mem.Restricts c'.mem)
    (hs : c'.mem.Sane) (hc : c'.reg.Coherent) (hi : c.Inherits m c') : c.SafeStep m c' := by
  refine ⟨hl, h.of_local hm hl hs hc (fun id q sp hlive hsp => ?_) fun q v hv hpriv => armed_iff.mpr fun ht f w hpte => ?_⟩
  · obtain ⟨hlive₀, sp₀, hsp₀, -⟩ := hi id q sp hlive hsp
    exact h.aligned _ id q sp₀ hlive₀ hsp₀
  · obtain ⟨⟨w₀, hw₀, -⟩, hvma⟩ := hr.pte m q f w hpte
    obtain ⟨v₀, hv₀, hs₀⟩ := hvma v hv
    obtain ⟨id, sp, hlive, hsp, hflags⟩ := ht
    rw [hl.owner] at hlive
    obtain ⟨hlive₀, sp₀, hsp₀, htrust⟩ := hi id q sp hlive hsp
    have hex := armed_iff.mp (h.armed m q v₀ hv₀ (hs₀.trans hpriv)) ⟨id, sp₀, hlive₀, hsp₀, htrust hflags⟩ f w₀ hw₀
    exact hex.restrict (h.sane.pfn m q f w₀ hw₀) hr

/-- The record of the owner changes. -/
theorem Core.Safe.setReg (h : c.Safe) (hm : m < c.mem.freshMm) (hmem : c'.mem = c.mem) (hc : c'.reg.Coherent)
    (hrecords : ∀ u id, u ≠ (c.mem.mm m).owner → c'.reg.live u = some id → c.reg.live u = some id ∧ c'.reg.data id = c.reg.data id)
    (hi : c.Inherits m c') : c.SafeStep m c' := by
  refine h.restrict hm ⟨?_, ?_, ?_, ?_, hrecords, ?_⟩ ?_ ?_ hc hi <;> rw [hmem]
  · exact fun _ _ => rfl
  · exact fun _ _ _ _ hex => hex
  · exact .refl _
  · exact h.sane

/-- The mappings of the process or its tables change. -/
theorem Core.Safe.setMm (h : c.Safe) (hm : m < c.mem.freshMm) (hok : mm.Ok) (hr : c.mem.Restricts (c.mem.setMm m mm))
    (howner : mm.owner = (c.mem.mm m).owner) : c.SafeStep m (c.setMem (c.mem.setMm m mm)) := by
  have hmm : ((c.setMem (c.mem.setMm m mm)).mem.mm m).owner = (c.mem.mm m).owner := by
    show ((c.mem.setMm m mm).mm m).owner = _
    rw [mm_setMm_self, howner]
  refine h.restrict hm ⟨le_rfl, rfl, hmm, fun m' hm' => mm_setMm_of_ne hm', fun _ _ _ hlive => ⟨hlive, rfl⟩,
    fun _ _ _ hf hex => hex.restrict hf hr⟩ hr (h.sane.setMm hok hr fun hle => absurd hm (Nat.not_lt.mpr hle)) h.coherent
    fun id q sp hlive hsp => ⟨hlive, sp, hsp, fun ht => ht⟩

variable (env) in
theorem Core.Safe.doMunmapHook (h : c.Safe) (hm : m < c.mem.freshMm) (start len : Nat) :
    c.SafeStep m (c.doMunmapHook env m start len) := by
  obtain ⟨ht, hmem, -⟩ := doMunmapHook_spec env m start len h.coherent
  refine h.setReg hm hmem ht.coherent (fun _ _ hu hlive => ht.records hu hlive) ?_
  intro id q sp hlive hsp
  rw [ht.live] at hlive
  rw [(ht.data id hlive).entry] at hsp
  split at hsp
  · -- A page that was recorded is dirty.
    obtain ⟨sp₀, hsp₀, rfl⟩ := Option.map_eq_some_iff.mp hsp
    refine ⟨hlive, sp₀, hsp₀, ?_⟩
    rintro ⟨hdirty, hnone, -⟩
    rcases recorded_dirty sp₀ (c.mem.frame ((c.mem.mm m).pte q).pfn).data (env.pageData q) with h1 | h1
    · rw [h1] at hdirty
      cases hdirty
    · rw [h1] at hnone
      cases hnone
  · exact ⟨hlive, sp, hsp, fun ht => ht⟩

variable (env) in
theorem Core.Safe.doMunmap (h : c.Safe) (hm : m < c.mem.freshMm) (start len : Nat) : c.SafeStep m (c.doMunmap env m start len).1 := by
  have hhook := h.doMunmapHook env hm start len
  unfold Core.doMunmap
  dsimp only
  split
  · exact hhook
  rename_i hargs
  rw [not_or, not_not] at hargs
  have hs : pageSize ∣ start := Nat.dvd_of_mod_eq_zero hargs.1
  have hle := le_pageAlign len
  split
  · have hok := hhook.safe.sane.mms m
    exact hhook.trans (hhook.safe.setMm (hhook.used hm) (hok.unmap hs (Nat.dvd_add hs (pageAlign_dvd len)) (by omega))
      (.unmap hok) rfl)
  · exact hhook

/-- Pages that have an entry lie in the old mappings. -/
theorem Memory.Restricts.insert {mem : Memory} (hok : (mem.mm m).Ok) (hmmap : mm.mmap = insertVma v (mem.mm m).mmap)
    (hpte : mm.pte = (mem.mm m).pte) (hfree : ∀ a, v.vmStart ≤ a → a < v.vmEnd → ¬Spans.Covers (mem.mm m).mmap a) :
    mem.Restricts (mem.setMm m mm) := .setMm fun p f w hp => by
  rw [hpte] at hp
  refine ⟨⟨w, hp, fun h => h⟩, fun v' hv' => ?_⟩
  unfold Mm.vmaAt at hv'
  rw [hmmap] at hv'
  rcases find_insertVma hok.vmas hv' with ⟨rfl, h1, h2⟩ | hold
  · exact absurd (hok.pte p f w hp).2.2 (hfree p h1 h2)
  · exact ⟨v', hold, rfl⟩

theorem Core.Safe.mapAnon (h : c.Safe) (hm : m < c.mem.freshMm) {start end_ : Nat} (hs : pageSize ∣ start) (he : pageSize ∣ end_)
    (hse : start < end_) (htop : end_ < ulongMax) (hfree : (c.mem.mm m).unmapped start end_ = true) (prot : Nat) :
    c.SafeStep m (c.setMem (c.mem.setMm m ((c.mem.mm m).mapAnon start end_ prot))) := by
  have hok := h.sane.mms m
  have hfree := (Mm.unmapped_iff hok.vmas hse).mp hfree
  exact h.setMm hm (hok.mapAnon hs he hse htop hfree prot)
    (.insert (v := anonVma (c.mem.mm m).freshVma start end_ prot) hok rfl rfl hfree) rfl

theorem Core.Safe.setBrk (h : c.Safe) (hm : m < c.mem.freshMm) (brk : Nat) : c.SafeStep m (c.setBrk m brk) :=
  have hok := h.sane.mms m
  have hok' : ({ c.mem.mm m with brk } : Mm).Ok := ⟨hok.vmas, hok.pte⟩
  h.setMm hm hok' (.setMm fun _ _ w hp => ⟨⟨w, hp, fun h => h⟩, fun v hv => ⟨v, hv, rfl⟩⟩) rfl

theorem Core.Safe.setPte (h : c.Safe) (hm : m < c.mem.freshMm) {x : Pte} (hx : ∀ f w, x = .present f w →
    ∃ w', (c.mem.mm m).pte page = .present f w' ∧ (w = true → w' = true)) : c.SafeStep m (c.setMem (c.mem.setPte m page x)) :=
  h.setMm hm ((h.sane.mms m).setPte fun f w hfw => by
    obtain ⟨w', hp, -⟩ := hx f w hfw
    exact (h.sane.mms m).pte page f w' hp) (.weaken hx) rfl

theorem Core.Safe.zapPage (h : c.Safe) (hm : m < c.mem.freshMm) (page : Nat) : c.SafeStep m (c.zapPage m page) := by
  unfold Core.zapPage
  split
  · exact h.setPte hm fun f w hf => by cases hf
  · exact h.refl m

/-! ### The loop of a restore -/

/-- The entry of a page changes, and its page-table entry becomes empty or read-only, or stays. -/
theorem Core.Settles.onPage {x : Pte} {g : SnapshotPage → SnapshotPage} (h : c.Settles m id page x g c')
    (htsk : (c.reg.data id).tsk = (c.mem.mm m).owner)
    (hx : ∀ f w, x = .present f w → ∃ w', (c.mem.mm m).pte page = .present f w' ∧ (w = true → w' = true)) :
    c.OnPage m page c' := by
  obtain ⟨hmem, d', hreg, hsame, hothers, -⟩ := h
  have hr : c.mem.Restricts c'.mem := hmem ▸ .weaken hx
  have hmm : c'.mem.mm m = (c.mem.mm m).setPte page x := by rw [hmem, mm_setPte_self]
  have hlive : ∀ u, c'.reg.live u = c.reg.live u := by
    rw [hreg]
    exact (setData_live (by rw [hsame]) (by rw [hsame]; rfl)).2
  refine ⟨⟨hr.freshPfn, by rw [hmem]; rfl, by rw [hmm]; rfl, fun m' hm' => by rw [hmem, mm_setPte_of_ne hm'], fun u i hu hi => ?_,
    fun _ _ _ hf hex => hex.restrict hf hr⟩, by rw [hmm]; rfl, by rw [hmm]; rfl, fun q hq => by rw [hmm, pte_setPte_of_ne hq],
    fun i q hq hi => ?_⟩ <;> rw [hlive] at hi <;> refine ⟨hi, ?_⟩ <;> rw [hreg]
  · refine setData_of_ne fun heq => hu ?_
    rw [← htsk, ← heq]
    exact (getTaskData_spec (live_eq_some.mp hi).1).2.symm
  · by_cases hid : i = id
    · subst hid
      rw [setData_same, hothers q hq]
    · rw [setData_of_ne hid]

/-- The copy to a page is made, or is not. -/
structure CopyMade (env : Env) (m page : Nat) (c c' : Core) : Prop where
  safe : c'.Safe
  onPage : c.OnPage m page c'
  steady : c.Steady env c'
  made : c' = c ∨ ∃ f, (c'.mem.mm m).pte page = .present f true
  called : env.copyToUser page = true → (∃ v, (c.mem.mm m).vmaAt page = some v ∧ v.writable = true) →
    ∃ f, (c'.mem.mm m).pte page = .present f true

theorem Core.Safe.copyToUser (h : c.Safe) (hm : m < c.mem.freshMm) (hreuse : env.ReuseSound) (hd : pageSize ∣ page) (data : Page) :
    CopyMade env m page c (c.copyToUser env m page data).1 := by
  have hsteady := steady_copyToUser env m page data h.coherent
  unfold Core.copyToUser at hsteady ⊢
  split
  swap
  · rename_i hcall
    exact ⟨h, .refl m page c, .refl h.coherent, Or.inl rfl, fun hc => absurd hc hcall⟩
  rename_i hcall
  rw [if_pos hcall] at hsteady
  cases hf : c.writeFault env m page with
  | none =>
    refine ⟨h, .refl m page c, .refl h.coherent, Or.inl rfl, fun _ ⟨v, hv, hw⟩ => ?_⟩
    obtain ⟨c', hc'⟩ := writeFault_isSome env hv hw
    rw [hf] at hc'
    cases hc'
  | some c' =>
    rw [hf] at hsteady
    obtain ⟨hsafe, hp, v, hv, hw, hcase⟩ := h.writeFault hm hreuse hd hf
    obtain ⟨f, hpte⟩ := hcase.writable
    have hstore : c.OnPage m page (c'.store m page fun _ => data) := hp.trans (onPage_store m page _ c')
    have hpte' : ((c'.store m page fun _ => data).mem.mm m).pte page = .present f true := by
      rw [(store_core m page _ c').2]
      exact hpte
    have hsafe' : (c'.store m page fun _ => data).Safe := (hsafe.store m page _).safe
    exact ⟨hsafe', hstore, hsteady, Or.inr ⟨f, hpte'⟩, fun _ _ => ⟨f, hpte'⟩⟩

/-- The page is written back, or has its frame for itself. -/
def Core.Rewritten (env : Env) (m page : Nat) (c : Core) : Prop :=
  ∀ v, (c.mem.mm m).vmaAt page = some v → v.shared = false → env.copyToUser page = true ∧ v.writable = true ∨
    ∀ f w, (c.mem.mm m).pte page = .present f w → c.mem.Exclusive m page f

/-- A page that has its frame for itself is armed, whatever its entry is. -/
theorem armed_of_exclusive (h : ∀ f w, (c.mem.mm m).pte page = .present f w → c.mem.Exclusive m page f) : c.Armed m page :=
  armed_iff.mpr fun _ f w hpte => h f w hpte

/-- After the copy a page has its frame for itself, or no frame. -/
theorem CopyMade.exclusive (hcopy : CopyMade env m page c c₁) (hback : c.Rewritten env m page)
    (hv : (c.mem.mm m).vmaAt page = some v) (hpriv : v.shared = false) {f : Nat} {w : Bool}
    (hpte : (c₁.mem.mm m).pte page = .present f w) : c₁.mem.Exclusive m page f := by
  have hwritten : (∃ g, (c₁.mem.mm m).pte page = .present g true) → c₁.mem.Exclusive m page f := fun ⟨g, hg⟩ => by
    rw [hg] at hpte
    cases hpte
    exact hcopy.safe.sane.excl m page _ v hg (hcopy.onPage.vmaAt.trans hv) hpriv
  rcases hback v hv hpriv with ⟨hcall, hw⟩ | hex
  · exact hwritten (hcopy.called hcall ⟨v, hv, hw⟩)
  · rcases hcopy.made with heq | hg
    · rw [heq] at hpte ⊢
      exact hex f w hpte
    · exact hwritten hg

/-- A round of the loop. -/
structure Core.SafeRound (env : Env) (m id page : Nat) (c c' : Core) : Prop where
  safe : c'.Safe
  onPage : c.OnPage m page c'
  steady : c.Steady env c'
  done : ∀ sp, (c'.reg.data id).getSnapshotPage page = some sp → ¬(sp.dirty = true ∧ sp.hasBeenCopied = true)

theorem tsk_of_live (hlive : c.reg.live (c.mem.mm m).owner = some id) : (c.reg.data id).tsk = (c.mem.mm m).owner :=
  (getTaskData_spec (live_eq_some.mp hlive).1).2

/-- A page comes to rest that has its frame for itself, or is not trusted. -/
theorem Core.Safe.settles (h : c.Safe) (hm : m < c.mem.freshMm) (hlive : c.reg.live (c.mem.mm m).owner = some id)
    (hd : pageSize ∣ page) {x : Pte} {g : SnapshotPage → SnapshotPage} (hset : c.Settles m id page x g c')
    (hx : ∀ f w, x = .present f w → ∃ w', (c.mem.mm m).pte page = .present f w' ∧ (w = true → w' = true))
    (hc : c'.reg.Coherent) (hown : ∀ v, (c.mem.mm m).vmaAt page = some v → v.shared = false → ∀ f w, x = .present f w →
      c.mem.Exclusive m page f ∨ ¬c'.Trusted m page) : c'.Safe ∧ c.OnPage m page c' := by
  have hp := hset.onPage (tsk_of_live hlive) hx
  refine ⟨h.onPage hm hd hp (hset.mem ▸ h.sane.weaken hx) hc fun v hv hpriv => armed_iff.mpr fun ht f w hf => ?_, hp⟩
  rw [hset.mem, mm_setPte_self, pte_setPte_self] at hf
  obtain ⟨w', hw', -⟩ := hx f w hf
  rcases hown v hv hpriv f w hf with hex | hnot
  · exact hp.exclusive m page f (h.sane.pfn m page f w' hw') hex
  · exact absurd ht hnot

theorem Core.Safe.recoverPage (h : c.Safe) (hm : m < c.mem.freshMm) (hlive : c.reg.live (c.mem.mm m).owner = some id)
    (hreuse : env.ReuseSound) (hd : pageSize ∣ page) (hkey : sp.pageBase = page) (hback : c.Rewritten env m page) :
    c.SafeRound env m id page (c.recoverPage env m id sp) := by
  have hcopy := h.copyToUser hm hreuse hd (sp.pageData.getD fun _ => 0)
  have hsteady : c.Steady env (c.recoverPage env m id sp) := steady_recoverPage h.coherent
  let c₁ := (c.copyToUser env m page (sp.pageData.getD fun _ => 0)).1
  have hm₁ : m < c₁.mem.freshMm := hcopy.onPage.freshMm.symm ▸ hm
  have hlive₁ : c₁.reg.live (c₁.mem.mm m).owner = some id := by
    rw [hcopy.onPage.owner, hcopy.steady.live]
    exact hlive
  have hown : ∀ v, (c₁.mem.mm m).vmaAt page = some v → v.shared = false → ∀ f w, (c₁.mem.mm m).pte page = .present f w →
      c₁.mem.Exclusive m page f := fun v hv hpriv f w hpte =>
    hcopy.exclusive hback (hcopy.onPage.vmaAt.symm.trans hv) hpriv hpte
  have hrest : ∀ x g, c₁.Settles m id page x g (c.recoverPage env m id sp) → (∀ sp : SnapshotPage, (g sp).dirty = false) →
      (∀ f w, x = .present f w → ∃ w', (c₁.mem.mm m).pte page = .present f w' ∧ (w = true → w' = true)) →
      c.SafeRound env m id page (c.recoverPage env m id sp) := fun x g hset hg hx => by
    obtain ⟨h1, h2⟩ := hcopy.safe.settles hm₁ hlive₁ hd hset hx hsteady.coherent fun v hv hpriv f w hf => by
      obtain ⟨w', hw', -⟩ := hx f w hf
      exact Or.inl (hown v hv hpriv f w' hw')
    exact ⟨h1, hcopy.onPage.trans h2, hsteady, fun sp' hsp' => hset.done (fun sp _ => by simp [hg sp]) hsp'⟩
  rcases recoverPage_cases env id hkey rfl with ⟨-, hset⟩ | ⟨-, hset⟩
  · exact hrest _ _ hset (fun _ => rfl) (wrprotect_weakens _)
  · exact hrest _ _ hset (fun _ => rfl) fun f w hf => ⟨w, hf, fun h => h⟩

/-- Every saved page that is to be written back is, or has its frame for itself. -/
def Core.Rewrites (env : Env) (m id : Nat) (c : Core) : Prop :=
  ∀ p sp, (c.reg.data id).getSnapshotPage p = some sp → sp.dirty = true → sp.hasBeenCopied = true → c.Rewritten env m p

theorem Core.Safe.recoverEntry (h : c.Safe) (hm : m < c.mem.freshMm) (hlive : c.reg.live (c.mem.mm m).owner = some id)
    (hreuse : env.ReuseSound) (hback : c.Rewrites env m id) (page : Nat) :
    c.recoverEntry env m id page = c ∨ c.SafeRound env m id page (c.recoverEntry env m id page) := by
  cases hsp : (c.reg.data id).getSnapshotPage page with
  | none =>
    refine Or.inl ?_
    unfold Core.recoverEntry
    rw [hsp]
  | some sp =>
    have hd := h.aligned _ id page sp hlive hsp
    have hsteady : c.Steady env (c.recoverEntry env m id page) := steady_recoverEntry env m page id h.coherent
    refine Or.inr ?_
    rcases recoverEntry_cases env (h.sane.mms m) hsp with ⟨hdirty, hcopied, heq⟩ | ⟨hflags, hset | ⟨-, -, -, hset⟩⟩
    · rw [heq]
      exact h.recoverPage hm hlive hreuse hd (getSnapshotPage_key hsp) (hback page sp hsp hdirty hcopied)
    · have hown : ∀ v, (c.mem.mm m).vmaAt page = some v → v.shared = false → ∀ f w, (c.mem.mm m).pte page = .present f w →
          c.mem.Exclusive m page f ∨ ¬(c.recoverEntry env m id page).Trusted m page := fun v hv hpriv f w hf => by
        refine or_iff_not_imp_right.mpr fun ht => armed_iff.mp (h.armed m page v hv hpriv) ?_ f w hf
        -- A page that is trusted afterwards was trusted before.
        obtain ⟨i, sp', hi, hsp', hflags'⟩ := not_not.mp ht
        rw [(hset.onPage (tsk_of_live hlive) fun f w hf => ⟨w, hf, fun h => h⟩).owner, hsteady.live, hlive] at hi
        obtain rfl := Option.some.inj hi
        rw [hset.entry, hsp] at hsp'
        cases hsp'
        exact ⟨id, sp, hlive, hsp, hflags'⟩
      obtain ⟨h1, h2⟩ := h.settles hm hlive hd hset (fun f w hf => ⟨w, hf, fun h => h⟩) hsteady.coherent hown
      refine ⟨h1, h2, hsteady, fun sp' => hset.done fun sp₁ hsp₁ => ?_⟩
      obtain rfl : sp = sp₁ := Option.some.inj (hsp.symm.trans hsp₁)
      exact hflags
    · obtain ⟨h1, h2⟩ := h.settles hm hlive hd hset (fun f w hf => by cases hf) hsteady.coherent fun v hv hpriv f w hf => by cases hf
      refine ⟨h1, h2, hsteady, fun sp' => hset.done fun sp₁ hsp₁ => ?_⟩
      obtain rfl : sp = sp₁ := Option.some.inj (hsp.symm.trans hsp₁)
      exact hflags

theorem Core.SafeRound.rewrites (hr : c.SafeRound env m id page c') (hs : c.mem.Sane)
    (hlive : c.reg.live (c.mem.mm m).owner = some id) (hback : c.Rewrites env m id) : c'.Rewrites env m id := by
  intro p sp hsp hdirty hcopied v hv hpriv
  by_cases hp : p = page
  · subst hp
    exact absurd ⟨hdirty, hcopied⟩ (hr.done sp hsp)
  · have hlive' : c'.reg.live (c.mem.mm m).owner = some id := by rw [hr.steady.live, hlive]
    rw [(hr.onPage.entries id p hp hlive').2] at hsp
    rw [hr.onPage.vmaAt] at hv
    rw [hr.onPage.others p hp]
    rcases hback p sp hsp hdirty hcopied v hv hpriv with hcall | hex
    · exact Or.inl hcall
    · exact Or.inr fun f w hf => hr.onPage.exclusive m p f (hs.pfn m p f w hf) (hex f w hf)

theorem Core.Safe.recoverEntries (h : c.Safe) (hm : m < c.mem.freshMm) (hlive : c.reg.live (c.mem.mm m).owner = some id)
    (hreuse : env.ReuseSound) (hback : c.Rewrites env m id) (l : List Nat) :
    c.SafeStep m (l.foldl (Core.recoverEntry env m id) c) ∧
      ((l.foldl (Core.recoverEntry env m id) c).mem.mm m).brk = (c.mem.mm m).brk := by
  induction l generalizing c with
  | nil => exact ⟨h.refl m, rfl⟩
  | cons page l ih =>
    rw [List.foldl_cons]
    rcases h.recoverEntry hm hlive hreuse hback page with heq | hr
    · rw [heq]
      exact ih h hm hlive hback
    · have hfirst : c.SafeStep m (c.recoverEntry env m id page) := ⟨hr.onPage.toLocal, hr.safe⟩
      have hlive' : (c.recoverEntry env m id page).reg.live ((c.recoverEntry env m id page).mem.mm m).owner = some id := by
        rw [hr.onPage.owner, hr.steady.live, hlive]
      obtain ⟨h1, h2⟩ := ih hr.safe (hfirst.used hm) hlive' (hr.rewrites h.sane hlive hback)
      exact ⟨hfirst.trans h1, h2.trans hr.onPage.brk⟩

end
end AflSnapshot
