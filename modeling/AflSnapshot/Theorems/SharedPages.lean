import AflSnapshot.Theorems.Contents
import AflSnapshot.Theorems.PrivateWrites

/-! # Pages of shared mappings

What a take and the restores after it do to the pages that a process shares, of a file or of shared memory. A page that
had a page-table entry when the take came to it is brought back; one that had none keeps what was written. -/

namespace AflSnapshot
open Runs

/-- The pages of the shared mappings of an address space have the frames behind the mappings, each its own. -/
structure Memory.MapsShared (mem : Memory) (m : Nat) : Prop where
  own : ∀ p v f b, (mem.mm m).vmaAt p = some v → v.shared = true → (mem.mm m).pte p = .present f b → f = mem.backing v p
  apart : ∀ p q v u, pageSize ∣ p → pageSize ∣ q → (mem.mm m).vmaAt p = some v → v.shared = true →
    (mem.mm m).vmaAt q = some u → u.shared = true → mem.backing v p = mem.backing u q → p = q

/-- The take from `w₀` to `w₁` made an entry for the page, which had a page-table entry. -/
def World.Captures (w₀ w₁ : World) (t page : Nat) : Prop :=
  (∃ d, w₁.recordOf t = some d ∧ (d.getSnapshotPage page).isSome) ∧ (w₀.mmOf t).pte page ≠ .none

/-! ### The invariant -/

/-- What a take has seen of a process, and the frames behind its mappings. -/
structure SharedHome extends Home where
  base : VmArea → Nat → Nat

structure SharedHome.Ok (h : SharedHome) : Prop extends Home.Ok h.toHome where
  apart : ∀ p q v u, pageSize ∣ p → pageSize ∣ q → h.mm.vmaAt p = some v → v.shared = true →
    h.mm.vmaAt q = some u → u.shared = true → h.base v p = h.base u q → p = q

/-- The state of a page that had its frame `f` at the take, with the bytes `C`: they are in the frame, or in the copy. -/
inductive Captured (mem : Memory) (f : Nat) (C : Page) (sp : SnapshotPage) : Pte → Prop
  | clean (hdirty : sp.dirty = false) (hC : (mem.frame f).data = C) (hcopy : sp.hasBeenCopied = true → sp.pageData = some C) :
    Captured mem f C sp (.present f false)
  | dirty {b : Bool} (hdirty : sp.dirty = true) (hq : sp.inDirtyList = true) (hcopied : sp.hasBeenCopied = true)
    (hdata : sp.pageData = some C) : Captured mem f C sp (.present f b)

/-- What holds of a page, the pages of shared mappings among them. -/
structure SharesPage (h : SharedHome) (c : Core) (p : Nat) : Prop where
  framed : ∀ sp, (c.reg.data h.id).getSnapshotPage p = some sp → sp.isNonePte = false → (c.mem.mm h.m).pte p ≠ .none
  writable : ∀ sp v, (c.reg.data h.id).getSnapshotPage p = some sp → sp.dirty = true → h.mm.vmaAt p = some v → v.writable = true
  own : ∀ v f b, h.mm.vmaAt p = some v → v.shared = true → (c.mem.mm h.m).pte p = .present f b → f = h.base v p
  captured : ∀ v, h.sel p → h.mm.vmaAt p = some v → v.shared = true →
    ∃ sp, (c.reg.data h.id).getSnapshotPage p = some sp ∧ sp.isNonePte = false ∧
      Captured c.mem (h.base v p) (h.content p) sp ((c.mem.mm h.m).pte p)
  /-- Of the others those that have an entry got it without a page-table entry. -/
  loose : ∀ v sp, ¬h.sel p → h.mm.vmaAt p = some v → v.shared = true → (c.reg.data h.id).getSnapshotPage p = some sp →
    sp.isNonePte = true ∧ sp.dirty = false

/-- What holds from the take on, whatever the process writes. -/
structure Shares (h : SharedHome) (c : Core) : Prop where
  safe : c.Safe
  live : c.reg.live (c.mem.mm h.m).owner = some h.id
  used : h.m < c.mem.freshMm
  same : SameButPages h.data (c.reg.data h.id)
  queued : (c.reg.data h.id).Queued
  mmap : (c.mem.mm h.m).mmap = h.mm.mmap
  brk : (c.mem.mm h.m).brk = h.data.ss.oldbrk
  backing : ∀ v p, c.mem.backing v p = h.base v p
  pages : ∀ p, SharesPage h c p

/-- A step of the page `q` that leaves the other pages of the shared mappings what they hold. -/
structure SharedStep (env : Env) (h : SharedHome) (q : Nat) (c c' : Core) : Prop where
  safe : c'.Safe
  onPage : c.OnPage h.m q c'
  steady : c.Steady env c'
  pageCache : c'.mem.pageCache = c.mem.pageCache
  bytes : ∀ p v, pageSize ∣ p → p ≠ q → h.mm.vmaAt p = some v → v.shared = true →
    (c'.mem.frame (h.base v p)).data = (c.mem.frame (h.base v p)).data

section
variable {env : Env} {h : SharedHome} {c c₁ c' : Core} {p q f addr : Nat} {sp : SnapshotPage} {v : VmArea} {x : Pte} {byte : UInt8}
  {mem mem' : Memory} {C : Page}

theorem SharedStep.refl (hs : c.Safe) : SharedStep env h q c c :=
  ⟨hs, .refl _ _ _, .refl hs.coherent, rfl, fun _ _ _ _ _ _ => rfl⟩

theorem Captured.congr (hcap : Captured mem f C sp x) (hC : (mem'.frame f).data = (mem.frame f).data) : Captured mem' f C sp x := by
  cases hcap with
  | clean hdirty hbytes hcopy => exact .clean hdirty (hC.trans hbytes) hcopy
  | dirty hdirty hq hcopied hdata => exact .dirty hdirty hq hcopied hdata

/-- The copy, where there is one. -/
theorem Captured.copy (hcap : Captured mem f C sp x) (hcopied : sp.hasBeenCopied = true) : sp.pageData = some C := by
  cases hcap with
  | clean _ _ hcopy => exact hcopy hcopied
  | dirty _ _ _ hdata => exact hdata

/-- The bytes are in the frame until the page is written, and then the entry is queued, with the copy. -/
theorem Captured.state (hcap : Captured mem f C sp x) : sp.dirty = false ∧ (mem.frame f).data = C ∨
    sp.dirty = true ∧ sp.inDirtyList = true ∧ sp.hasBeenCopied = true := by
  cases hcap with
  | clean hdirty hC => exact Or.inl ⟨hdirty, hC⟩
  | dirty hdirty hq hcopied => exact Or.inr ⟨hdirty, hq, hcopied⟩

theorem Shares.vmaAt (hS : Shares h c) : (c.mem.mm h.m).vmaAt p = h.mm.vmaAt p := by
  unfold Mm.vmaAt
  rw [hS.mmap]

/-- A page of a shared mapping reads as what is behind it. -/
theorem Shares.content (hS : Shares h c) (hv : h.mm.vmaAt p = some v) (hs : v.shared = true) :
    c.mem.content h.m p = (c.mem.frame (h.base v p)).data := by
  cases hpte : (c.mem.mm h.m).pte p with
  | none => rw [content_of_none hpte, base_of_vmaAt (hS.vmaAt.trans hv), hS.backing]
  | present f b => rw [content_of_present hpte, (hS.pages p).own v f b hv hs hpte]

theorem SharesPage.state (hP : SharesPage h c p) (hsel : h.sel p) (hv : h.mm.vmaAt p = some v) (hs : v.shared = true)
    (hsp : (c.reg.data h.id).getSnapshotPage p = some sp) :
    Captured c.mem (h.base v p) (h.content p) sp ((c.mem.mm h.m).pte p) := by
  obtain ⟨sp₀, hsp₀, -, hcap⟩ := hP.captured v hsel hv hs
  obtain rfl : sp = sp₀ := Option.some.inj (hsp.symm.trans hsp₀)
  exact hcap

/-- The other pages stay as they are. -/
theorem SharesPage.other (hok : h.Ok) (hP : SharesPage h c p) (hstep : SharedStep env h q c c')
    (hlive : c'.reg.live (c.mem.mm h.m).owner = some h.id) (hpq : p ≠ q) : SharesPage h c' p := by
  have hentry := (hstep.onPage.entries h.id p hpq hlive).2
  have hpte := hstep.onPage.others p hpq
  refine ⟨fun sp hsp => ?_, fun sp v hsp => ?_, fun v f b hv hs hf => ?_, fun v hsel hv hs => ?_, fun v sp hnot hv hs hsp => ?_⟩
  · rw [hpte]
    exact hP.framed sp (hentry ▸ hsp)
  · exact hP.writable sp v (hentry ▸ hsp)
  · exact hP.own v f b hv hs (hpte ▸ hf)
  · rw [hentry, hpte]
    obtain ⟨sp, hsp, hnone, hcap⟩ := hP.captured v hsel hv hs
    exact ⟨sp, hsp, hnone, hcap.congr (hstep.bytes p v (hok.sel p hsel).1 hpq hv hs)⟩
  · exact hP.loose v sp hnot hv hs (hentry ▸ hsp)

/-- A step of a page keeps the invariant where it keeps what the invariant says of the page. -/
theorem Shares.step (hok : h.Ok) (hS : Shares h c) (hstep : SharedStep env h q c c') (hP : SharesPage h c' q) : Shares h c' := by
  have hlive : c'.reg.live (c.mem.mm h.m).owner = some h.id := by rw [hstep.steady.live, hS.live]
  refine ⟨hstep.safe, ?_, ?_, hS.same.trans (hstep.steady.data h.id), hstep.steady.queued h.id hS.queued, ?_, ?_, fun v p => ?_,
    fun p => ?_⟩
  · rw [hstep.onPage.owner, hlive]
  · rw [hstep.onPage.freshMm]
    exact hS.used
  · rw [hstep.onPage.mmap, hS.mmap]
  · rw [hstep.onPage.brk, hS.brk]
  · rw [backing_congr hstep.pageCache rfl, hS.backing]
  · by_cases hpq : p = q
    · rw [hpq]
      exact hP
    · exact (hS.pages p).other hok hstep hlive hpq

/-! ### Accesses -/

/-- A fault leaves the frames that were there. -/
theorem Memory.Faulted.bytes (hF : c.mem.Faulted h.m q c'.mem) (hS : Shares h c) (p : Nat) (v : VmArea) :
    (c'.mem.frame (h.base v p)).data = (c.mem.frame (h.base v p)).data := by
  rw [← hS.backing, hF.frame _ (hS.safe.sane.backing_lt v p).1]

theorem Shares.readByte (hok : h.Ok) (hS : Shares h c) : Shares h (c.readByte env h.m addr) := by
  have hsafe : c.SafeStep h.m (c.readByte env h.m addr) := by
    refine hS.safe.readByte hS.used ?_
    -- A page that the hook trusts has a page-table entry.
    rintro ⟨i, sp, hi, hsp, -, hnone, -⟩
    obtain rfl := Option.some.inj (hS.live.symm.trans hi)
    exact (hS.pages _).framed sp hsp hnone
  have hsteady : c.Steady env (c.readByte env h.m addr) := steady_readByte hS.safe.coherent
  unfold Core.readByte at hsafe hsteady ⊢
  cases hf : c.readFault env h.m (pageBase addr) with
  | none => exact hS
  | some c' =>
    rw [hf] at hsafe hsteady
    obtain ⟨v, hv, -, hcase⟩ := readFault_cases hf
    have hF := hcase.faulted hS.safe.sane
    have hreg : c'.reg = c.reg := hcase.reg
    have honpage : c.OnPage h.m (pageBase addr) c' := hF.onPage (by rw [hreg]; exact .refl hS.safe.coherent _ (.refl _))
    rw [Option.getD_some]
    refine hS.step hok ⟨hsafe.safe, honpage, hsteady, hF.pageCache, fun p u _ _ _ _ => hF.bytes hS p u⟩ ?_
    have hP := hS.pages (pageBase addr)
    cases hcase with
    | ready => exact hP
    | @mapped c' w hpte hw hmem hreg hoops =>
      have hpte' : (c'.mem.mm h.m).pte (pageBase addr) = .present (h.base v (pageBase addr)) w := by
        rw [hmem, mm_setPte_self, pte_setPte_self, hS.backing]
      have hunframed : ∀ sp, (c.reg.data h.id).getSnapshotPage (pageBase addr) = some sp → sp.isNonePte = true := fun sp hsp => by
        by_contra hnone
        exact hP.framed sp hsp (by simpa using hnone) hpte
      rw [hS.vmaAt] at hv
      refine ⟨fun sp hsp hnone => ?_, fun sp u hsp => hP.writable sp u (hreg ▸ hsp), fun u f b hu hs hf => ?_,
        fun u hsel hu hs => ?_, fun u sp hnot hu hs hsp => hP.loose u sp hnot hu hs (hreg ▸ hsp)⟩
      · rw [hunframed sp (hreg ▸ hsp)] at hnone
        cases hnone
      · rw [hpte'] at hf
        cases hf
        rw [Option.some.inj (hv.symm.trans hu)]
      · obtain ⟨sp, hsp, hnone, -⟩ := hP.captured u hsel hu hs
        rw [hunframed sp hsp] at hnone
        cases hnone

/-- The fault of a write, and what is stored then. -/
structure SharedWrite (env : Env) (h : SharedHome) (q : Nat) (g : Page → Page) (c c' : Core) : Prop where
  step : SharedStep env h q c c'
  page : SharesPage h c' q
  stored : ∀ v, h.mm.vmaAt q = some v → v.shared = true →
    (c'.mem.frame (h.base v q)).data = g (c.mem.frame (h.base v q)).data

/-- `record_dirty_page` saves the bytes of a captured page before its first write. -/
theorem Captured.recorded (hcap : Captured mem f C sp (.present f false)) (hnone : sp.isNonePte = false) (mem' : Memory) (b : Bool) :
    (sp.recorded (mem.frame f).data true).isNonePte = false ∧
      Captured mem' f C (sp.recorded (mem.frame f).data true) (.present f b) := by
  cases hcap with
  | clean hdirty hC hcopy =>
    rw [hC, SnapshotPage.recorded, if_neg (by simp [hdirty, hnone])]
    cases hcopied : sp.hasBeenCopied with
    | true => exact ⟨hnone, .dirty rfl rfl rfl (hcopy hcopied)⟩
    | false =>
      rw [if_neg (by simp), if_pos (by simp)]
      exact ⟨hnone, .dirty rfl rfl rfl rfl⟩
  | dirty hdirty hq hcopied hdata =>
    rw [recorded_of_skip (by rw [hdirty, Bool.true_or])]
    exact ⟨hnone, .dirty hdirty hq hcopied hdata⟩

/-- The fault of a write keeps what is said of its page. -/
theorem SharesPage.writeFault (hS : Shares h c) (henv : env.Allocates) (hv : h.mm.vmaAt q = some v) (hw : v.writable = true)
    (hcase : WriteFault env h.m q c v c₁) : SharesPage h c₁ q := by
  have hP := hS.pages q
  have hvma : ∀ u, h.mm.vmaAt q = some u → v = u := fun u hu => Option.some.inj (hv.symm.trans hu)
  obtain ⟨f, hpte⟩ := hcase.writable
  refine ⟨fun _ _ _ => by simp [hpte], fun _ u _ _ hu => hvma u hu ▸ hw, fun u g b hu hs hg => ?_, fun u hsel hu hs => ?_,
    fun u sp hnot hu hs hsp => ?_⟩ <;> obtain rfl := hvma u hu
  · rw [hpte] at hg
    cases hg
    cases hcase with
    | ready => exact hP.own v f true hv hs hpte
    | @mkwrite g c₁ hold _ _ hmem =>
      rw [hmem, mm_setPte_self, pte_setPte_self] at hpte
      cases hpte
      exact hP.own v f false hv hs hold
    | mapped _ _ hmem =>
      rw [hmem, mm_setPte_self, pte_setPte_self] at hpte
      cases hpte
      exact hS.backing v q
    | copied _ hpriv => rw [hs] at hpriv; cases hpriv
    | fresh _ hpriv => rw [hs] at hpriv; cases hpriv
  · obtain ⟨sp, hsp, hnone, hcap⟩ := hP.captured v hsel hv hs
    cases hcase with
    | ready => exact ⟨sp, hsp, hnone, hcap⟩
    | @mkwrite g c₁ hold _ hrec hmem =>
      have hg : g = h.base v q := hP.own v g false hv hs hold
      subst hg
      rw [hold] at hcap
      obtain ⟨hnone', hcap'⟩ := hcap.recorded hnone c₁.mem true
      refine ⟨_, ?_, hnone', ?_⟩
      · rw [(hrec.data h.id hS.live).entry, hsp, hold, henv.pageData]
        rfl
      · rwa [hmem, mm_setPte_self, pte_setPte_self, ← hmem]
    | mapped hold => exact absurd hold (hP.framed sp hsp hnone)
    | copied _ hpriv => rw [hs] at hpriv; cases hpriv
    | fresh _ hpriv => rw [hs] at hpriv; cases hpriv
  · cases hcase with
    | ready => exact hP.loose v sp hnot hv hs hsp
    | mkwrite _ _ hrec =>
      rw [(hrec.data h.id hS.live).entry] at hsp
      obtain ⟨sp₀, hsp₀, rfl⟩ := Option.map_eq_some_iff.mp hsp
      have hloose := hP.loose v sp₀ hnot hv hs hsp₀
      rwa [recorded_of_skip (by rw [hloose.1, Bool.or_true])]
    | mapped _ _ _ hreg => exact hP.loose v sp hnot hv hs (hreg ▸ hsp)
    | copied _ hpriv => rw [hs] at hpriv; cases hpriv
    | fresh _ hpriv => rw [hs] at hpriv; cases hpriv

/-- A write changes the frame of its page only, of those behind the shared mappings. -/
theorem Shares.write (hok : h.Ok) (hS : Shares h c) (henv : env.Allocates) (hreuse : env.ReuseSound) (hd : pageSize ∣ q)
    (hf : c.writeFault env h.m q = some c₁) (g : Page → Page) : SharedWrite env h q g c (c₁.store h.m q g) := by
  obtain ⟨hsafe, hp, v, hv, hw, hcase⟩ := hS.safe.writeFault hS.used hreuse hd hf
  have hF := hcase.faulted hS.safe.sane
  have hsteady : c.Steady env c₁ := steady_writeFault hS.safe.coherent hf
  have hvma : (c₁.mem.mm h.m).vmaAt q = some v := hp.vmaAt.trans hv
  rw [hS.vmaAt] at hv
  have hP := SharesPage.writeFault hS henv hv hw hcase
  obtain ⟨f, hpte⟩ := hcase.writable
  have hbacking : ∀ u p, c₁.mem.backing u p = h.base u p := fun u p => (backing_congr hF.pageCache rfl).trans (hS.backing u p)
  -- The frame is not behind another page of a shared mapping.
  have hne : ∀ p u, pageSize ∣ p → p ≠ q → h.mm.vmaAt p = some u → u.shared = true → h.base u p ≠ f := by
    intro p u hdp hpq hu hs heq
    cases hvs : v.shared with
    | true => exact hpq (hok.apart p q u v hdp hd hu hs hv hvs (heq.trans (hP.own v f true hv hvs hpte)))
    | false =>
      have hanon := (hsafe.sane.excl h.m q f v hpte hvma hvs).anon
      rw [← heq, ← hbacking, (hsafe.sane.backing_lt u p).2] at hanon
      cases hanon
  have hsafe' := (hsafe.store h.m q g).safe
  have hstore : c₁.Steady env (c₁.store h.m q g) := steady_store hsafe.coherent
  have hsteady' := hsteady.trans hstore
  have hp' := hp.trans (onPage_store h.m q g c₁)
  rw [store_eq hpte] at hsafe' hsteady' hp' ⊢
  refine ⟨⟨hsafe', hp', hsteady', hF.pageCache, fun p u hdp hpq hu hs => ?_⟩, ⟨hP.framed, hP.writable, hP.own, fun u hsel hu hs => ?_,
    hP.loose⟩, fun u hu hs => ?_⟩
  · exact (congrArg Frame.data (setFrame_of_ne (hne p u hdp hpq hu hs))).trans (hF.bytes hS p u)
  · obtain ⟨sp, hsp, hnone, hcap⟩ := hP.captured u hsel hu hs
    refine ⟨sp, hsp, hnone, ?_⟩
    show Captured _ _ _ _ ((c₁.mem.mm h.m).pte q)
    rw [hpte] at hcap ⊢
    cases hcap with
    | dirty hdirty hq hcopied hdata => exact .dirty hdirty hq hcopied hdata
  · have hfq := hP.own u f true hu hs hpte
    rw [← hF.bytes hS q u, ← hfq]
    show (Function.update c₁.mem.frame f _ f).data = _
    rw [Function.update_self]

theorem Shares.writeByte (hok : h.Ok) (hS : Shares h c) (henv : env.Allocates) (hreuse : env.ReuseSound) :
    Shares h (c.writeByte env h.m addr byte) := by
  unfold Core.writeByte
  cases hf : c.writeFault env h.m (pageBase addr) with
  | none => exact hS
  | some c₁ =>
    have hwrite := hS.write hok henv hreuse (pageBase_dvd addr) hf fun data =>
      Function.update data ⟨addr % pageSize, offset_lt addr⟩ byte
    exact hS.step hok hwrite.step hwrite.page

/-! ### Restores -/

/-- A page comes to rest. -/
theorem SharesPage.settles {g : SnapshotPage → SnapshotPage} (hP : SharesPage h c q) (hset : c.Settles h.m h.id q x g c')
    (hx : ∀ f b, x = .present f b → ∃ b', (c.mem.mm h.m).pte q = .present f b')
    (hframed : ∀ sp, (g sp).isNonePte = false → sp.isNonePte = false ∧ ((c.mem.mm h.m).pte q ≠ .none → x ≠ .none))
    (hdirty : ∀ sp, (g sp).dirty = true → sp.dirty = true) (hnone : ∀ sp : SnapshotPage, sp.isNonePte = true → (g sp).isNonePte = true)
    (hcap : ∀ v sp, h.sel q → h.mm.vmaAt q = some v → v.shared = true → (c.reg.data h.id).getSnapshotPage q = some sp →
      sp.isNonePte = false → Captured c.mem (h.base v q) (h.content q) sp ((c.mem.mm h.m).pte q) →
      (g sp).isNonePte = false ∧ Captured c.mem (h.base v q) (h.content q) (g sp) x) : SharesPage h c' q := by
  have hpte : (c'.mem.mm h.m).pte q = x := by rw [hset.mem, mm_setPte_self, pte_setPte_self]
  refine ⟨fun sp' hsp' => ?_, fun sp' v hsp' hd => ?_, fun v f b hv hs hf => ?_, fun v hsel hv hs => ?_, fun v sp' hnot hv hs hsp' => ?_⟩
  · rw [hset.entry] at hsp'
    obtain ⟨sp, hsp, rfl⟩ := Option.map_eq_some_iff.mp hsp'
    intro hn
    obtain ⟨hn', hkeep⟩ := hframed sp hn
    rw [hpte]
    exact hkeep (hP.framed sp hsp hn')
  · rw [hset.entry] at hsp'
    obtain ⟨sp, hsp, rfl⟩ := Option.map_eq_some_iff.mp hsp'
    exact hP.writable sp v hsp (hdirty sp hd)
  · rw [hpte] at hf
    obtain ⟨b', hb'⟩ := hx f b hf
    exact hP.own v f b' hv hs hb'
  · obtain ⟨sp, hsp, hn, hc⟩ := hP.captured v hsel hv hs
    obtain ⟨hn', hc'⟩ := hcap v sp hsel hv hs hsp hn hc
    refine ⟨g sp, by rw [hset.entry, hsp]; rfl, hn', ?_⟩
    rw [hpte]
    exact hc'.congr (congrArg (fun fr : Nat → Frame => (fr (h.base v q)).data) hset.frame)
  · rw [hset.entry] at hsp'
    obtain ⟨sp, hsp, rfl⟩ := Option.map_eq_some_iff.mp hsp'
    obtain ⟨hn, hd⟩ := hP.loose v sp hnot hv hs hsp
    refine ⟨hnone sp hn, ?_⟩
    by_contra hd'
    rw [hdirty sp (by simpa using hd')] at hd
    cases hd

theorem wrprotect_ne_none : x ≠ .none → x.wrprotect ≠ .none := by
  cases x with
  | none => exact fun hx => hx
  | present f b => simp [Pte.wrprotect]

/-- A captured page that holds the copy's bytes is protected again. -/
theorem SharesPage.writtenBack (hP : SharesPage h c q)
    (hset : c.Settles h.m h.id q ((c.mem.mm h.m).pte q).wrprotect SnapshotPage.writtenBack c')
    (hC : ∀ v, h.sel q → h.mm.vmaAt q = some v → v.shared = true → (c.mem.frame (h.base v q)).data = h.content q) :
    SharesPage h c' q := by
  refine hP.settles hset (fun f b hf => ?_) (fun sp hn => ⟨hn, wrprotect_ne_none⟩) (fun sp hd => ?_) (fun sp hn => hn)
    fun v sp hsel hv hs hsp hn hcap => ⟨hn, ?_⟩
  · obtain ⟨b', hb', -⟩ := wrprotect_weakens _ f b hf
    exact ⟨b', hb'⟩
  · cases hd
  · have hcopy : sp.hasBeenCopied = true → sp.pageData = some (h.content q) := hcap.copy
    generalize (c.mem.mm h.m).pte q = x at hcap ⊢
    cases hcap <;> exact .clean rfl (hC v hsel hv hs) hcopy

/-- The entry of a page without tables is cleared. -/
theorem SharesPage.cleared (hP : SharesPage h c q) (hok : (c.mem.mm h.m).Ok) (hslot : (c.mem.mm h.m).slot q = false)
    (hset : c.Settles h.m h.id q ((c.mem.mm h.m).pte q) SnapshotPage.cleared c') : SharesPage h c' q := by
  refine hP.settles hset (fun f b hf => ⟨b, hf⟩) (fun sp hn => ⟨hn, fun hne => hne⟩) (fun sp hd => by cases hd) (fun sp hn => hn)
    fun v sp hsel hv hs hsp hn hcap => ?_
  -- A captured page has a page-table entry, and so tables.
  cases hpte : (c.mem.mm h.m).pte q with
  | none => exact absurd hpte (hP.framed sp hsp hn)
  | present f b =>
    rw [(hok.pte q f b hpte).1] at hslot
    cases hslot

/-- A page that is not written back is taken off the list. -/
theorem SharesPage.dequeued (hP : SharesPage h c q) (hsp : (c.reg.data h.id).getSnapshotPage q = some sp)
    (hflags : ¬(sp.dirty = true ∧ sp.hasBeenCopied = true))
    (hset : c.Settles h.m h.id q ((c.mem.mm h.m).pte q) SnapshotPage.leaveDirtyList c') : SharesPage h c' q := by
  refine hP.settles hset (fun f b hf => ⟨b, hf⟩) (fun sp hn => ⟨hn, fun hne => hne⟩) (fun sp hd => hd) (fun sp hn => hn)
    fun v sp₀ hsel hv hs hsp₀ hn hcap => ⟨hn, ?_⟩
  obtain rfl : sp = sp₀ := Option.some.inj (hsp.symm.trans hsp₀)
  generalize (c.mem.mm h.m).pte q = x at hcap
  cases hcap with
  | clean hdirty hC hcopy => exact .clean hdirty hC hcopy
  | dirty hdirty hq hcopied hdata => exact absurd ⟨hdirty, hcopied⟩ hflags

/-- A page whose entry was made without a page-table entry is emptied. -/
theorem SharesPage.emptied (hP : SharesPage h c q) (hsp : (c.reg.data h.id).getSnapshotPage q = some sp) (hnone : sp.isNonePte = true)
    (hset : c.Settles h.m h.id q .none SnapshotPage.emptied c') : SharesPage h c' q := by
  refine hP.settles hset (fun f b hf => by cases hf) (fun sp hn => by cases hn) (fun sp hd => hd) (fun sp hn => rfl)
    fun v sp₀ hsel hv hs hsp₀ hn hcap => ?_
  obtain rfl : sp = sp₀ := Option.some.inj (hsp.symm.trans hsp₀)
  rw [hnone] at hn
  cases hn

/-- The copy of a captured page. -/
theorem Shares.copy (hok : h.Ok) (hS : Shares h c) (henv : env.Allocates) (hreuse : env.ReuseSound)
    (hsp : (c.reg.data h.id).getSnapshotPage q = some sp) (hdirty : sp.dirty = true) (hcopied : sp.hasBeenCopied = true)
    (hc₁ : (c.copyToUser env h.m q (sp.pageData.getD fun _ => 0)).1 = c₁) :
    SharedStep env h q c c₁ ∧ SharesPage h c₁ q ∧ ∀ v, h.sel q → h.mm.vmaAt q = some v → v.shared = true →
      (c₁.mem.frame (h.base v q)).data = h.content q := by
  have hd : pageSize ∣ q := hS.safe.aligned _ h.id q sp hS.live hsp
  unfold Core.copyToUser at hc₁
  rw [if_pos (henv.copyToUser q)] at hc₁
  cases hf : c.writeFault env h.m q with
  | none =>
    rw [hf] at hc₁
    subst hc₁
    refine ⟨.refl hS.safe, hS.pages q, fun v _ hv _ => ?_⟩
    obtain ⟨c', hc'⟩ := writeFault_isSome env (hS.vmaAt.trans hv) ((hS.pages q).writable sp v hsp hdirty hv)
    rw [hf] at hc'
    cases hc'
  | some c₂ =>
    rw [hf] at hc₁
    subst hc₁
    have hwrite := hS.write hok henv hreuse hd hf fun _ => sp.pageData.getD fun _ => 0
    refine ⟨hwrite.step, hwrite.page, fun v hsel hv hs => ?_⟩
    have hcap := (hS.pages q).state hsel hv hs hsp
    rw [hwrite.stored v hv hs, hcap.copy hcopied, Option.getD_some]

/-- What a round of the loop leaves. -/
structure SharedRound (h : SharedHome) (q : Nat) (c c' : Core) : Prop where
  shares : Shares h c'
  done : ∀ sp, (c'.reg.data h.id).getSnapshotPage q = some sp → ¬(sp.dirty = true ∧ sp.hasBeenCopied = true)
  others : ∀ p, p ≠ q → (c'.reg.data h.id).getSnapshotPage p = (c.reg.data h.id).getSnapshotPage p
  bytes : ∀ p v, pageSize ∣ p → ¬h.sel p → h.mm.vmaAt p = some v → v.shared = true →
    (c'.mem.frame (h.base v p)).data = (c.mem.frame (h.base v p)).data

/-- The entries that are dirty are those of writable pages, so that all of them are written back. -/
theorem Shares.onPage_recoverEntry (hS : Shares h c) (henv : env.Allocates) (hreuse : env.ReuseSound) (q : Nat) :
    (c.recoverEntry env h.m h.id q).Safe ∧ c.OnPage h.m q (c.recoverEntry env h.m h.id q) := by
  have hback : c.Rewrites env h.m h.id := fun p sp hsp hdirty _ v hv _ =>
    Or.inl ⟨henv.copyToUser p, (hS.pages p).writable sp v hsp hdirty (hS.vmaAt ▸ hv)⟩
  rcases hS.safe.recoverEntry hS.used hS.live hreuse hback q with heq | hr
  · rw [heq]
    exact ⟨hS.safe, .refl _ _ _⟩
  · exact ⟨hr.safe, hr.onPage⟩

/-- A round is the copy, where one is made, and what comes after it. -/
theorem Shares.round {g : SnapshotPage → SnapshotPage} (hok : h.Ok) (hS : Shares h c) (henv : env.Allocates) (hreuse : env.ReuseSound)
    (hcopy : SharedStep env h q c c₁) (hset : c₁.Settles h.m h.id q x g (c.recoverEntry env h.m h.id q))
    (hpage : SharesPage h (c.recoverEntry env h.m h.id q) q) (hdone : ∀ sp, (c₁.reg.data h.id).getSnapshotPage q = some sp →
      ¬((g sp).dirty = true ∧ (g sp).hasBeenCopied = true))
    (hkept : ∀ v, ¬h.sel q → h.mm.vmaAt q = some v → v.shared = true → c₁ = c) : SharedRound h q c (c.recoverEntry env h.m h.id q) := by
  obtain ⟨hsafe, honpage⟩ := hS.onPage_recoverEntry henv hreuse q
  have hsteady : c.Steady env (c.recoverEntry env h.m h.id q) := steady_recoverEntry env h.m q h.id hS.safe.coherent
  have hframe : ∀ p v, ((c.recoverEntry env h.m h.id q).mem.frame (h.base v p)).data = (c₁.mem.frame (h.base v p)).data :=
    fun p v => by rw [hset.frame]
  have hstep : SharedStep env h q c (c.recoverEntry env h.m h.id q) := by
    refine ⟨hsafe, honpage, hsteady, ?_, fun p v hd hpq hv hs => (hframe p v).trans (hcopy.bytes p v hd hpq hv hs)⟩
    rw [hset.mem]
    exact hcopy.pageCache
  refine ⟨hS.step hok hstep hpage, fun sp hsp => hset.done hdone hsp, fun p hpq => ?_, fun p v hd hnot hv hs => ?_⟩
  · exact (honpage.entries h.id p hpq (by rw [hsteady.live, hS.live])).2
  · by_cases hpq : p = q
    · subst hpq
      rw [hframe, hkept v hnot hv hs]
    · exact hstep.bytes p v hd hpq hv hs

theorem Shares.recoverEntry (hok : h.Ok) (hS : Shares h c) (henv : env.Allocates) (hreuse : env.ReuseSound) (q : Nat) :
    SharedRound h q c (c.recoverEntry env h.m h.id q) := by
  have hP := hS.pages q
  cases hsp : (c.reg.data h.id).getSnapshotPage q with
  | none =>
    have heq : c.recoverEntry env h.m h.id q = c := by
      unfold Core.recoverEntry
      rw [hsp]
    rw [heq]
    refine ⟨hS, fun sp hsp' => ?_, fun _ _ => rfl, fun _ _ _ _ _ _ => rfl⟩
    rw [hsp] at hsp'
    cases hsp'
  | some sp =>
    rcases recoverEntry_cases env (hS.safe.sane.mms h.m) hsp with ⟨hdirty, hcopied, heq⟩ | ⟨hflags, hrest⟩
    · obtain ⟨hcopy, hpage, hC⟩ := hS.copy hok henv hreuse hsp hdirty hcopied rfl
      generalize hc₁ : (c.copyToUser env h.m q (sp.pageData.getD fun _ => 0)).1 = c₁ at hcopy hpage hC
      -- A page that is not captured is not dirty.
      have hkept : ∀ v, ¬h.sel q → h.mm.vmaAt q = some v → v.shared = true → c₁ = c := fun v hnot hv hs => by
        have hclean := (hP.loose v sp hnot hv hs hsp).2
        rw [hdirty] at hclean
        cases hclean
      rcases recoverPage_cases env h.id (getSnapshotPage_key hsp) hc₁ with ⟨-, hset⟩ | ⟨hslot, hset⟩ <;> rw [← heq] at hset
      · refine hS.round hok henv hreuse hcopy hset (hpage.writtenBack hset hC) (fun sp' _ hd => ?_) hkept
        cases hd.1
      · refine hS.round hok henv hreuse hcopy hset (hpage.cleared (hcopy.safe.sane.mms h.m) hslot hset) (fun sp' _ hd => ?_) hkept
        cases hd.1
    · have hdone : ∀ sp', (c.reg.data h.id).getSnapshotPage q = some sp' → ¬(sp'.dirty = true ∧ sp'.hasBeenCopied = true) :=
        fun sp' hsp' => Option.some.inj (hsp.symm.trans hsp') ▸ hflags
      rcases hrest with hset | ⟨-, hnone, -, hset⟩
      · exact hS.round hok henv hreuse (.refl hS.safe) hset (hP.dequeued hsp hflags hset) hdone fun _ _ _ _ => rfl
      · exact hS.round hok henv hreuse (.refl hS.safe) hset (hP.emptied hsp hnone hset) hdone fun _ _ _ _ => rfl

/-- The loop brings back every captured page, and leaves the other pages of the shared mappings what they hold. -/
theorem Shares.recoverEntries (hok : h.Ok) (hS : Shares h c) (henv : env.Allocates) (hreuse : env.ReuseSound) (l : List Nat)
    (hl : ∀ p v sp, h.sel p → h.mm.vmaAt p = some v → v.shared = true → (c.reg.data h.id).getSnapshotPage p = some sp →
      sp.dirty = true → p ∈ l) :
    Shares h (l.foldl (Core.recoverEntry env h.m h.id) c) ∧ ∀ p v, pageSize ∣ p → h.mm.vmaAt p = some v → v.shared = true →
      (h.sel p → ((l.foldl (Core.recoverEntry env h.m h.id) c).mem.frame (h.base v p)).data = h.content p) ∧
      (¬h.sel p → ((l.foldl (Core.recoverEntry env h.m h.id) c).mem.frame (h.base v p)).data = (c.mem.frame (h.base v p)).data) := by
  induction l generalizing c with
  | nil =>
    refine ⟨hS, fun p v hd hv hs => ⟨fun hsel => ?_, fun _ => rfl⟩⟩
    -- No captured page is dirty.
    obtain ⟨sp, hsp, -, hcap⟩ := (hS.pages p).captured v hsel hv hs
    rcases hcap.state with ⟨-, hC⟩ | ⟨hdirty, -⟩
    · exact hC
    · cases hl p v sp hsel hv hs hsp hdirty
  | cons q l ih =>
    have hround := hS.recoverEntry hok henv hreuse q
    rw [List.foldl_cons]
    obtain ⟨hS', hpages⟩ := ih hround.shares fun p v sp hsel hv hs hsp hdirty => by
      have hpq : p ≠ q := by
        rintro rfl
        rcases ((hround.shares.pages p).state hsel hv hs hsp).state with ⟨hclean, -⟩ | ⟨-, -, hcopied⟩
        · rw [hdirty] at hclean
          cases hclean
        · exact hround.done sp hsp ⟨hdirty, hcopied⟩
      rw [hround.others p hpq] at hsp
      exact (List.mem_cons.mp (hl p v sp hsel hv hs hsp hdirty)).resolve_left hpq
    refine ⟨hS', fun p v hd hv hs => ⟨(hpages p v hd hv hs).1, fun hnot => ?_⟩⟩
    rw [(hpages p v hd hv hs).2 hnot, hround.bytes p v hd hnot hv hs]

/-- What a restore leaves of the pages of the shared mappings. -/
theorem Shares.restore (hok : h.Ok) (hS : Shares h c) (henv : env.Allocates) (hreuse : env.ReuseSound)
    (hc' : c' = ((c.restoreBrk env h.m h.data.ss.oldbrk).1.recoverMemorySnapshot env h.m h.id).1) :
    Shares h c' ∧ ∀ p v, pageSize ∣ p → h.mm.vmaAt p = some v → v.shared = true →
      (h.sel p → (c'.mem.frame (h.base v p)).data = h.content p) ∧
      (¬h.sel p → (c'.mem.frame (h.base v p)).data = (c.mem.frame (h.base v p)).data) := by
  rw [hc', hok.restore_unmoved hS.safe.sane hS.same (fun a => by rw [hS.mmap]) hS.brk]
  refine hS.recoverEntries hok henv hreuse _ fun p v sp hsel hv hs hsp hdirty => (hS.queued.mem p).mpr ⟨sp, hsp, ?_⟩
  rcases ((hS.pages p).state hsel hv hs hsp).state with ⟨hclean, -⟩ | ⟨-, hq, -⟩
  · rw [hdirty] at hclean
    cases hclean
  · exact hq

end

/-! ### The take -/

/-- The home of a snapshot, for the pages of the shared mappings. -/
def World.sharedHome (w w' : World) (t id : Nat) : SharedHome where
  toHome := { w.homeAt w' t id with sel := w.Captures w' t }
  base := w.core.mem.backing

section
variable {env env' : Env} {t config id p : Nat} {w w' w₀ w₁ w₂ : World} {d₀ : TaskData} {v : VmArea} {a : Move}

/-- The walk of the take, the entries it made, and the pages that it captured. -/
theorem Took.walked (hT : Took env t config w id d₀ w') (hs : w.core.mem.Sane) (henv : env.Allocates) :
    ∃ x s, Taken env.take (w.initialized t config d₀) (w.mmOf t) (w.mmOf t).mmap x s ∧
      w'.core.mem = w.core.mem.setMm (w.task t).mm s.mm ∧
      (∀ p, (w'.core.reg.data id).getSnapshotPage p = s.data.getSnapshotPage p) ∧
      ∀ p, w.Captures w' t p ↔ (s.data.getSnapshotPage p).isSome ∧ (w.mmOf t).pte p ≠ .none := by
  obtain ⟨x, s, hwalk, htaking⟩ := hT.taken hs henv
  have hget : ∀ p, (w'.core.reg.data id).getSnapshotPage p = s.data.getSnapshotPage p := fun p => by
    rw [hT.data, htaking]
    rfl
  refine ⟨x, s, hwalk, by rw [hT.mem, htaking], hget, fun p => ?_⟩
  unfold World.Captures
  rw [recordOf_eq (live_eq_some.mp hT.live).1, ← hget]
  simp

theorem Took.sharesPage (hT : Took env t config w id d₀ w') (hs : w.core.mem.Sane) (henv : env.Allocates)
    (hmaps : w.core.mem.MapsShared (w.task t).mm) (p : Nat) : SharesPage (w.sharedHome w' t id) w'.core p := by
  obtain ⟨x, s, hwalk, hmem, hget, hcaptures⟩ := hT.walked hs henv
  have hentry : (w'.core.reg.data (w.sharedHome w' t id).id).getSnapshotPage p = s.data.getSnapshotPage p := hget p
  have hpte : (w'.core.mem.mm (w.sharedHome w' t id).m).pte p = s.mm.pte p := by
    show (w'.core.mem.mm (w.task t).mm).pte p = _
    rw [hmem, mm_setMm_self]
  have hown : ∀ v f b, (w.mmOf t).vmaAt p = some v → v.shared = true → s.mm.pte p = .present f b → f = w.core.mem.backing v p := by
    intro v f b hv hsh hf
    obtain ⟨b', hb', -⟩ := hwalk.weaker p hf
    exact hmaps.own p v f b' hv hsh hb'
  rcases hwalk.page p with ⟨hnone, -⟩ | ⟨hsome, hprot, -⟩
  · have hno : ∀ {sp}, (w'.core.reg.data (w.sharedHome w' t id).id).getSnapshotPage p ≠ some sp := fun hsp => by
      rw [hentry, hnone] at hsp
      cases hsp
    refine ⟨fun sp hsp => absurd hsp hno, fun sp v hsp => absurd hsp hno, fun v f b hv hsh hf => hown v f b hv hsh (hpte ▸ hf),
      fun v hsel => ?_, fun v sp _ _ _ hsp => absurd hsp hno⟩
    have hcap := ((hcaptures p).mp hsel).1
    rw [hnone] at hcap
    cases hcap
  · refine ⟨fun sp hsp hn => ?_, fun sp v hsp hdirty => ?_, fun v f b hv hsh hf => hown v f b hv hsh (hpte ▸ hf),
      fun v hsel hv hsh => ?_, fun v sp hnot _ _ hsp => ?_⟩
    · rw [hentry, hsome] at hsp
      cases hsp
      rw [hpte, hprot]
      refine wrprotect_ne_none fun he => ?_
      rw [he] at hn
      cases hn
    · rw [hentry, hsome] at hsp
      cases hsp
      cases hdirty
    · cases hold : (w.mmOf t).pte p with
      | none => exact absurd hold ((hcaptures p).mp hsel).2
      | present f b =>
        rw [hold] at hsome hprot
        refine ⟨_, hentry.trans hsome, rfl, ?_⟩
        have hf : f = w.core.mem.backing v p := hown v f false hv hsh hprot
        rw [hpte, hprot, hf]
        refine .clean rfl ?_ fun hcopied => by cases hcopied
        show (w'.core.mem.frame (w.core.mem.backing v p)).data = w.core.mem.content (w.task t).mm p
        rw [content_of_present hold, hmem, hf]
        rfl
    · rw [hentry, hsome] at hsp
      cases hsp
      have hempty : (w.mmOf t).pte p = .none := by
        by_contra hne
        exact hnot ((hcaptures p).mpr ⟨hsome ▸ rfl, hne⟩)
      exact ⟨by rw [hempty]; rfl, rfl⟩

theorem Took.shares (hT : Took env t config w id d₀ w') (hsafe : w.core.Safe) (henv : env.Allocates)
    (howner : (w.mmOf t).owner = t) (hused : (w.task t).mm < w.core.mem.freshMm) (hmaps : w.core.mem.MapsShared (w.task t).mm) :
    (w.sharedHome w' t id).Ok ∧ Shares (w.sharedHome w' t id) w'.core := by
  obtain ⟨hhome, hR⟩ := hT.restorable hsafe.sane henv howner hused
  obtain ⟨x, s, hwalk, hmem, hget, hcaptures⟩ := hT.walked hsafe.sane henv
  refine ⟨⟨⟨hhome.vmas, hhome.allVmas, fun p hp => hhome.sel p (Or.inl ?_)⟩, hmaps.apart⟩, (hT.safe hsafe howner hused).safe,
    hR.live, hR.used, hR.same, hR.queued, ?_, (hT.whole hsafe.sane henv).brk, fun v p => ?_, hT.sharesPage hsafe.sane henv hmaps⟩
  · rw [hget]
    exact ((hcaptures p).mp hp).1
  · show (w'.core.mem.mm (w.task t).mm).mmap = (w.mmOf t).mmap
    rw [hmem, mm_setMm_self, hwalk.tables]
  · show w'.core.mem.backing v p = w.core.mem.backing v p
    rw [hmem]
    rfl

/-! ### Runs -/

/-- Reads and writes by the threads that share the address space of a task, to private and to shared mappings, and restores of
    its snapshot. -/
inductive Uses (t : Nat) (w : World) : Move → Prop
  | read {env : Env} {u addr : Nat} (hu : (w.task u).mm = (w.task t).mm) : Uses t w ⟨env, u, .read addr⟩
  | write {env : Env} {u addr : Nat} {byte : UInt8} (hu : (w.task u).mm = (w.task t).mm) (henv : env.Allocates)
      (hreuse : env.ReuseSound) : Uses t w ⟨env, u, .write addr byte⟩
  | restore {env : Env} (henv : env.Allocates) (hreuse : env.ReuseSound) : Uses t w ⟨env, t, .ioctl .restore⟩

/-- The take from `w₀` to `w₁` made the live snapshot of the task. -/
structure SharesLive (t id : Nat) (w₀ w₁ w : World) : Prop where
  mm : ∀ u, (w.task u).mm = (w₀.task u).mm
  record : w₁.core.reg.getTaskData t = some id
  ok : (w₀.sharedHome w₁ t id).Ok
  shares : Shares (w₀.sharedHome w₁ t id) w.core

theorem SharesLive.getTaskData (h : SharesLive t id w₀ w₁ w) : w.core.reg.getTaskData t = some id := by
  have hlive := h.shares.live
  have htsk : (w.core.reg.data id).tsk = t := by
    have hsame : w.core.reg.data id = _ := h.shares.same
    have hrec : (w₁.core.reg.data id).tsk = t := (getTaskData_spec h.record).2
    rw [hsame]
    exact hrec
  have hown : (w.core.reg.data id).tsk = _ := tsk_of_live hlive
  rw [← hown, htsk] at hlive
  exact (live_eq_some.mp hlive).1

theorem Shares.pageOf {h : SharedHome} (hS : Shares h w.core) (hm : (w.task t).mm = h.m) (hv : h.mm.vmaAt p = some v)
    (hs : v.shared = true) : w.pageOf t p = (w.core.mem.frame (h.base v p)).data := by
  unfold World.pageOf
  rw [hm, hS.content hv hs]

/-- A restore, as the pages of the shared mappings see it. -/
theorem SharesLive.restore (h : SharesLive t id w₀ w₁ w) (henv : env.Allocates) (hreuse : env.ReuseSound) :
    SharesLive t id w₀ w₁ (w.step env t (.ioctl .restore)) ∧
      ∀ p v, pageSize ∣ p → (w₀.mmOf t).vmaAt p = some v → v.shared = true →
        (w₀.Captures w₁ t p → (w.step env t (.ioctl .restore)).pageOf t p = w₀.pageOf t p) ∧
        (¬w₀.Captures w₁ t p → (w.step env t (.ioctl .restore)).pageOf t p = w.pageOf t p) := by
  have hget := h.getTaskData
  obtain ⟨hcore, hmm⟩ := @restoreSnapshot_core env w t id
  rw [step_restore hget]
  have hm : (w.task t).mm = (w₀.sharedHome w₁ t id).m := h.mm t
  have hold : (w.core.reg.data id).ss.oldbrk = (w₀.sharedHome w₁ t id).data.ss.oldbrk := by
    have hsame : w.core.reg.data id = _ := h.shares.same
    rw [hsame]
  rw [hm, hold] at hcore
  obtain ⟨hS, hpages⟩ := h.shares.restore h.ok henv hreuse hcore
  refine ⟨⟨fun u => (hmm u).trans (h.mm u), h.record, h.ok, hS⟩, fun p v hd hv hs => ?_⟩
  rw [hS.pageOf ((hmm t).trans hm) hv hs, h.shares.pageOf hm hv hs]
  exact hpages p v hd hv hs

theorem SharesLive.move (h : SharesLive t id w₀ w₁ w) (ha : Uses t w a) : SharesLive t id w₀ w₁ (w.move a) := by
  have hm : (w.task t).mm = (w₀.sharedHome w₁ t id).m := h.mm t
  cases ha with
  | @read env u addr hu =>
    refine ⟨h.mm, h.record, h.ok, ?_⟩
    show Shares _ (w.core.readByte env (w.task u).mm addr)
    rw [hu, hm]
    exact h.shares.readByte h.ok
  | @write env u addr byte hu henv hreuse =>
    refine ⟨h.mm, h.record, h.ok, ?_⟩
    show Shares _ (w.core.writeByte env (w.task u).mm addr byte)
    rw [hu, hm]
    exact h.shares.writeByte h.ok henv hreuse
  | restore henv hreuse => exact (h.restore henv hreuse).1

/-- Two pages of shared memory. -/
def sharedVma : VmArea := ⟨0, 4096, 12288, vmRead ||| vmWrite ||| vmShared, some 0⟩
def sharedMm : Mm := { x86_64 with mmap := [sharedVma], freshVma := 1, owner := 1 }

/-- The process names them, and writes to the first. -/
def sharedNamed : World :=
  ((World.boot sharedMm [1]).move ⟨.calm, 1, .ioctl (.includeVmrange 4096 12288)⟩).move ⟨.calm, 1, .write 4096 7⟩

/-- After the take it writes to both. -/
def sharedWritten : World :=
  ((sharedNamed.move ⟨.calm, 1, .ioctl (.take 0)⟩).move ⟨.calm, 1, .write 4096 8⟩).move ⟨.calm, 1, .write 8192 9⟩

theorem sharedMm_vmas : VmasOk sharedMm.freshVma sharedMm.mmap :=
  ⟨⟨by decide, by decide⟩, by decide, by decide, by decide, by decide⟩

theorem sharedMm_unsnapshotted : (World.boot sharedMm [1]).Unsnapshotted where
  kept := boot_kept [1] sharedMm_vmas (by decide)
  sane := boot_sane [1] sharedMm_vmas fun _ => rfl
  tasks m hm := by
    obtain rfl : m = 0 := Nat.lt_one_iff.mp hm
    exact ⟨by decide, rfl⟩
  idle _ := rfl

theorem sharedNamed_run : Run World.move (fun w a => ProcessMoves w a ∧ Isolates w a) (World.boot sharedMm [1]) sharedNamed :=
  .step (.step .start ⟨.ioctl _ ⟨by decide, by decide, rfl⟩ calm_reuseSound, trivial⟩)
    ⟨.write 4096 7 ⟨by decide, by decide, rfl⟩ calm_reuseSound, trivial⟩

theorem sharedNamed_maps : sharedNamed.core.mem.MapsShared 0 := by
  have hmmap : (sharedNamed.core.mem.mm 0).mmap = [sharedVma] := rfl
  have hpte : (sharedNamed.core.mem.mm 0).pte = Function.update (fun _ => .none) 4096 (.present 3 true) := rfl
  have hcache : ∀ p, sharedNamed.core.mem.backing sharedVma p = 2 + (0 + p / pageSize) % 8 := fun p => rfl
  have hvma : ∀ p v, (sharedNamed.core.mem.mm 0).vmaAt p = some v → v = sharedVma ∧ 4096 ≤ p ∧ p < 12288 := fun p v hv => by
    unfold Mm.vmaAt at hv
    rw [hmmap] at hv
    obtain ⟨hin, h1, h2⟩ := Spans.find_mem hv
    obtain rfl := List.mem_singleton.mp hin
    exact ⟨rfl, h1, h2⟩
  refine ⟨fun p v f b hv _ hf => ?_, fun p q v u hp hq hv _ hu _ heq => ?_⟩
  · obtain ⟨rfl, -⟩ := hvma p v hv
    rw [hpte] at hf
    by_cases hp : p = 4096
    · subst hp
      cases hf
      rfl
    · rw [Function.update_of_ne hp] at hf
      cases hf
  · obtain ⟨rfl, h1, h2⟩ := hvma p v hv
    obtain ⟨rfl, h3, h4⟩ := hvma q u hu
    rw [hcache, hcache] at heq
    unfold pageSize at hp hq heq
    omega

end
end AflSnapshot
