import AflSnapshot.Theorems.Faults
import AflSnapshot.Theorems.Filter

/-! # What a live snapshot keeps of its pages

`Home` is what a take has seen of a process. `Restorable` holds from the take on: each selected page is in one of
the states of `PageOk`, so that its bytes can be told from the saved copy, from its frame, or from the frame
behind its mapping. This file holds the invariant and how it is kept by what the process does. -/

namespace AflSnapshot

/-- The address space and the record of a process at the end of a take, the bytes of its pages, and the pages that
    the take selected. -/
structure Home where
  m : Nat
  id : Nat
  mm : Mm
  data : TaskData
  content : Nat → Page
  sel : Nat → Prop

/-- Memory that `restore_vmas` can map again. -/
def Home.Spare (h : Home) (a : Nat) : Prop :=
  hasFlag h.data.config aflSnapshotMmap = true ∧ ∃ v, h.mm.vmaAt a = some v ∧ v.file = none ∧ v.shared = false

structure Home.Ok (h : Home) : Prop where
  vmas : VmasOk h.mm.freshVma h.mm.mmap
  allVmas : ∃ garbage : Nat → Nat, h.data.ss.allVmas = h.mm.mmap.map fun v =>
    TaskData.snapshotVmaOf v (garbage v.vmStart)
  sel : ∀ p, h.sel p → pageSize ∣ p ∧ h.data.isSnapshottedAddress p = true ∧ ∃ v, h.mm.vmaAt p = some v

/-! ### The states of a page -/

/-- The entry of a page that may have been written: its content `C` is what the mapping starts with, `B`, or is in
    the copy. -/
inductive Opened (B C : Page) : Option SnapshotPage → Prop
  | refreshed {sp : SnapshotPage} (hnone : sp.isNonePte = true) (hpriv : sp.isPrivate = false)
      (hdirty : sp.dirty = false) (hq : sp.inDirtyList = true) (hhad : sp.hasHadPte = true) (hB : B = C) : Opened B C (some sp)
  | dirty {sp : SnapshotPage} (hnone : sp.isNonePte = false) (hdirty : sp.dirty = true) (hq : sp.inDirtyList = true)
      (hcopied : sp.hasBeenCopied = true) (hdata : sp.pageData = some C) : Opened B C (some sp)

/-- The page has no frame of its own. -/
def Bare (mem : Memory) (m p base : Nat) : Prop :=
  (mem.mm m).pte p = .none ∨ (mem.mm m).pte p = .present base false

/-- The state of a page of a private mapping whose content at the take was `C`, the mapping having the frame `base`
    behind it there. -/
inductive PageOk (mem : Memory) (m p base : Nat) (C : Page) : Option SnapshotPage → Prop
  | absent (hbare : Bare mem m p base) (hB : (mem.frame base).data = C) : PageOk mem m p base C none
  | untouched {sp : SnapshotPage} (hnone : sp.isNonePte = true) (hpriv : sp.isPrivate = false)
      (hdirty : sp.dirty = false) (hq : sp.inDirtyList = false) (hbare : Bare mem m p base) (hB : (mem.frame base).data = C) :
      PageOk mem m p base C (some sp)
  | clean {sp : SnapshotPage} {f : Nat} (hnone : sp.isNonePte = false) (hdirty : sp.dirty = false)
      (hq : sp.inDirtyList = false) (hpte : (mem.mm m).pte p = .present f false) (hf : (mem.frame f).data = C)
      (hcopy : sp.hasBeenCopied = true → sp.pageData = some C) (hown : sp.isPrivate = true → mem.Exclusive m p f) :
      PageOk mem m p base C (some sp)
  | opened {o : Option SnapshotPage} (h : Opened (mem.frame base).data C o) : PageOk mem m p base C o

/-- A page of a shared mapping, which nobody writes. -/
structure Quiet (mem : Memory) (m p base : Nat) (C : Page) (o : Option SnapshotPage) : Prop where
  entry : ∀ sp, o = some sp → sp.dirty = false ∧ sp.inDirtyList = false
  bytes : (mem.mm m).pte p = .none ∧ (mem.frame base).data = C ∨
    ∃ f w, (mem.mm m).pte p = .present f w ∧ (mem.frame f).data = C

/-- The state of a selected page of a VMA. -/
structure PageKept (mem : Memory) (m p : Nat) (v : VmArea) (C : Page) (o : Option SnapshotPage) : Prop where
  quiet : v.shared = true → Quiet mem m p (mem.backing v p) C o
  ok : v.shared = false → PageOk mem m p (mem.backing v p) C o

/-- The states in which `page_add_new_anon_rmap_hook` finds the entry of a selected page. -/
inductive Ready (B C : Page) : Option SnapshotPage → Prop
  | absent (hB : B = C) : Ready B C none
  | untouched {sp : SnapshotPage} (hnone : sp.isNonePte = true) (hpriv : sp.isPrivate = false)
      (hdirty : sp.dirty = false) (hB : B = C) : Ready B C (some sp)
  | opened {o : Option SnapshotPage} (h : Opened B C o) : Ready B C o

/-! ### The invariant -/

structure Restorable (h : Home) (c : Core) : Prop where
  sane : c.mem.Sane
  coherent : c.reg.Coherent
  live : c.reg.live (c.mem.mm h.m).owner = some h.id
  used : h.m < c.mem.freshMm
  same : SameButPages h.data (c.reg.data h.id)
  queued : (c.reg.data h.id).Queued
  kind : ∀ a v, (c.mem.mm h.m).vmaAt a = some v →
    ∃ v₀, h.mm.vmaAt a = some v₀ ∧ v.file = v₀.file ∧ v.shared = v₀.shared
  gone : ∀ a, Spans.Covers h.mm.mmap a → ¬Spans.Covers (c.mem.mm h.m).mmap a → h.Spare a
  brk : (c.mem.mm h.m).brk = h.data.ss.oldbrk ∨ (c.mem.mm h.m).brk ≤ h.data.ss.oldbrk ∧
    pageSize ∣ h.data.ss.oldbrk ∧ ∀ a, (c.mem.mm h.m).brk ≤ a → a < h.data.ss.oldbrk → h.Spare a
  pages : ∀ p v₀, h.sel p → h.mm.vmaAt p = some v₀ →
    PageKept c.mem h.m p v₀ (h.content p) ((c.reg.data h.id).getSnapshotPage p)
  /-- A page that was not selected has at most an entry that was made on demand. -/
  loose : ∀ p sp, ¬h.sel p → (c.reg.data h.id).getSnapshotPage p = some sp → sp.isNonePte = true ∧ sp.dirty = false

section
variable {h : Home} {c c' : Core} {mem mem' : Memory} {env : Env} {m p q page base f : Nat} {B C : Page}
  {o : Option SnapshotPage} {sp : SnapshotPage} {v v₀ : VmArea} {w alloc : Bool}

/-! ### Other pages -/

theorem backing_congr (hcache : mem'.pageCache = mem.pageCache) (hfile : v.file = v₀.file) :
    mem'.backing v p = mem.backing v₀ p := by
  unfold Memory.backing
  rw [hcache, hfile]

/-- A page keeps its state where its entry, the bytes of its frames and what it has for itself stay. -/
theorem PageKept.congr (hk : PageKept mem m p v C o) (hcache : mem'.pageCache = mem.pageCache)
    (hpte : (mem'.mm m).pte p = (mem.mm m).pte p)
    (hbase : (mem'.frame (mem.backing v p)).data = (mem.frame (mem.backing v p)).data)
    (hframe : ∀ f w, (mem.mm m).pte p = .present f w → (mem'.frame f).data = (mem.frame f).data)
    (hex : ∀ f w, (mem.mm m).pte p = .present f w → mem.Exclusive m p f → mem'.Exclusive m p f) :
    PageKept mem' m p v C o := by
  have hbare : Bare mem m p (mem.backing v p) → Bare mem' m p (mem.backing v p) := fun hb => by
    unfold Bare
    rwa [hpte]
  refine ⟨fun hv => ?_, fun hv => ?_⟩ <;> rw [backing_congr hcache rfl]
  · refine ⟨(hk.quiet hv).entry, ?_⟩
    rw [hpte, hbase]
    rcases (hk.quiet hv).bytes with hb | ⟨f, w, hf, hC⟩
    · exact Or.inl hb
    · exact Or.inr ⟨f, w, hf, (hframe f w hf).trans hC⟩
  · cases hk.ok hv with
    | absent hb hB => exact .absent (hbare hb) (hbase.trans hB)
    | untouched hnone hpriv hdirty hq hb hB => exact .untouched hnone hpriv hdirty hq (hbare hb) (hbase.trans hB)
    | clean hnone hdirty hq hp hf hcopy hown =>
      exact .clean hnone hdirty hq (hpte.trans hp) ((hframe _ _ hp).trans hf) hcopy fun h => hex _ _ hp (hown h)
    | opened ho =>
      rw [← hbase] at ho
      exact .opened ho

/-- A fault of another page. -/
theorem PageKept.faulted (hs : mem.Sane) (hk : PageKept mem m p v C o) (hF : mem.Faulted m q mem') (hne : p ≠ q) :
    PageKept mem' m p v C o :=
  hk.congr hF.pageCache (hF.others p hne) (congrArg Frame.data (hF.frame _ (hs.backing_lt v p).1))
    (fun f w hp => congrArg Frame.data (hF.frame f (hs.pfn m p f w hp)))
    fun f w hp hex => hF.exclusive hex (hs.pfn m p f w hp)

/-! ### The entry of a page that is written -/

theorem PageOk.ready_of_none (hk : PageOk mem m p base C o) (hpte : (mem.mm m).pte p = .none) :
    Ready (mem.frame base).data C o := by
  cases hk with
  | absent hb hB => exact .absent hB
  | untouched hnone hpriv hdirty hq hb hB => exact .untouched hnone hpriv hdirty hB
  | clean hnone hdirty hq hp hf hcopy hown =>
    rw [hpte] at hp
    cases hp
  | opened ho => exact .opened ho

theorem recorded_of_skip (hskip : (sp.dirty || sp.isNonePte) = true) : sp.recorded B alloc = sp := by
  rw [SnapshotPage.recorded, if_pos hskip]

/-- `record_dirty_page` saves the bytes of a clean page. -/
theorem opened_of_clean (hnone : sp.isNonePte = false) (hdirty : sp.dirty = false)
    (hcopy : sp.hasBeenCopied = true → sp.pageData = some C) : Opened B C (some (sp.recorded C true)) := by
  rw [SnapshotPage.recorded, if_neg (by simp [hdirty, hnone])]
  cases hcopied : sp.hasBeenCopied with
  | true =>
    rw [if_pos rfl]
    exact .dirty hnone rfl rfl rfl (hcopy hcopied)
  | false =>
    rw [if_neg (by simp), if_pos (by simp)]
    exact .dirty hnone rfl rfl rfl rfl

/-- It leaves the others as they are. -/
theorem Opened.recorded (ho : Opened B C o) (D : Page) : (o.map fun sp => sp.recorded D alloc) = o := by
  cases ho with
  | refreshed hnone => rw [Option.map_some, recorded_of_skip (by rw [hnone, Bool.or_true])]
  | dirty hnone hdirty => rw [Option.map_some, recorded_of_skip (by rw [hdirty, Bool.true_or])]

theorem PageOk.record (hk : PageOk mem m p base C o) :
    PageOk mem m p base C (o.map fun sp => sp.recorded (mem.frame ((mem.mm m).pte p).pfn).data true) := by
  cases hk with
  | absent hb hB => exact .absent hb hB
  | untouched hnone hpriv hdirty hq hb hB =>
    rw [Option.map_some, recorded_of_skip (by rw [hnone, Bool.or_true])]
    exact .untouched hnone hpriv hdirty hq hb hB
  | clean hnone hdirty hq hp hf hcopy hown =>
    rw [hp]
    subst hf
    exact .opened (opened_of_clean hnone hdirty hcopy)
  | opened ho =>
    rw [ho.recorded]
    exact .opened ho

/-- The entry of a mapped page, recorded: what `page_add_new_anon_rmap_hook` may find, and all there is to do for a
    page that has its frame for itself. -/
theorem PageOk.recorded (hk : PageOk mem m p base C o) (hpte : (mem.mm m).pte p = .present f w) :
    Ready (mem.frame base).data C (o.map fun sp => sp.recorded (mem.frame f).data true) ∧
      (mem.Exclusive m p f → (mem.frame base).anon = false →
        Opened (mem.frame base).data C (o.map fun sp => sp.recorded (mem.frame f).data true)) := by
  have hcontra : Bare mem m p base → mem.Exclusive m p f → (mem.frame base).anon = false → False := fun hb hex hanon => by
    rcases hb with hb | hb <;> rw [hpte] at hb
    · cases hb
    · cases hb
      rw [hex.anon] at hanon
      cases hanon
  cases hk with
  | absent hb hB => exact ⟨.absent hB, fun hex hanon => (hcontra hb hex hanon).elim⟩
  | untouched hnone hpriv hdirty hq hb hB =>
    rw [Option.map_some, recorded_of_skip (by rw [hnone, Bool.or_true])]
    exact ⟨.untouched hnone hpriv hdirty hB, fun hex hanon => (hcontra hb hex hanon).elim⟩
  | @clean sp g hnone hdirty hq hp hf hcopy hown =>
    rw [hpte] at hp
    cases hp
    subst hf
    exact ⟨.opened (opened_of_clean hnone hdirty hcopy), fun _ _ => opened_of_clean hnone hdirty hcopy⟩
  | opened ho =>
    rw [ho.recorded]
    exact ⟨.opened ho, fun _ _ => ho⟩

/-- `page_add_new_anon_rmap_hook` queues a page that had no entry or none with a frame. -/
theorem Ready.noted {d : TaskData} (hr : Ready B C (d.getSnapshotPage p)) (hin : d.isSnapshottedAddress p = true) :
    Opened B C (d.notedEntry p) := by
  unfold TaskData.notedEntry
  cases ho : d.getSnapshotPage p with
  | none =>
    rw [ho] at hr
    simp only [hin, if_true]
    cases hr with
    | absent hB => exact .refreshed rfl rfl rfl rfl rfl hB
    | opened h => cases h
  | some sp =>
    rw [ho] at hr
    cases hr with
    | untouched hnone hpriv hdirty hB =>
      exact .refreshed hnone hpriv hdirty (by simp [SnapshotPage.noted, hnone]) rfl hB
    | opened h =>
      cases h with
      | refreshed hnone hpriv hdirty hq hhad hB =>
        exact .refreshed hnone hpriv hdirty (by simp [SnapshotPage.noted, hnone]) rfl hB
      | dirty hnone hdirty hq hcopied hdata =>
        exact .dirty hnone hdirty (by simp [SnapshotPage.noted, hq]) hcopied hdata

/-! ### Faults -/

/-- A fault keeps the invariant where it keeps what the invariant says of its page. -/
theorem Restorable.faulted (hR : Restorable h c) (hs : c'.mem.Sane) (hF : c.mem.Faulted h.m q c'.mem)
    (ht : c.reg.Touched (c.reg.live (c.mem.mm h.m).owner) (OnlyPage q) c'.reg)
    (hsel : ∀ v₀, h.sel q → h.mm.vmaAt q = some v₀ →
      PageKept c'.mem h.m q v₀ (h.content q) ((c'.reg.data h.id).getSnapshotPage q))
    (hloose : ∀ sp, ¬h.sel q → (c'.reg.data h.id).getSnapshotPage q = some sp → sp.isNonePte = true ∧ sp.dirty = false) :
    Restorable h c' := by
  obtain ⟨hsame, hothers, hqueued, -⟩ := ht.data h.id hR.live
  have hmmap := hF.mmap
  refine ⟨hs, ht.coherent, ?_, hF.freshMm.symm ▸ hR.used, hR.same.trans hsame, hqueued hR.queued, ?_, ?_, ?_, ?_, ?_⟩
  · rw [ht.live, hF.owner, hR.live]
  · intro a v hv
    rw [hF.vmaAt] at hv
    exact hR.kind a v hv
  · intro a ha hnot
    rw [hmmap] at hnot
    exact hR.gone a ha hnot
  · rw [hF.brk]
    exact hR.brk
  · intro p v₀ hp hv₀
    by_cases hpq : p = q
    · subst hpq
      exact hsel v₀ hp hv₀
    · rw [hothers p hpq]
      exact (hR.pages p v₀ hp hv₀).faulted hR.sane hF hpq
  · intro p sp hp hsp
    by_cases hpq : p = q
    · subst hpq
      exact hloose sp hp hsp
    · rw [hothers p hpq] at hsp
      exact hR.loose p sp hp hsp

/-- The kind of VMA behind a page does not change. -/
theorem Restorable.vma (hR : Restorable h c) (hv : (c.mem.mm h.m).vmaAt p = some v) (hv₀ : h.mm.vmaAt p = some v₀) :
    v.file = v₀.file ∧ v.shared = v₀.shared := by
  obtain ⟨v₁, hv₁, hfile, hshared⟩ := hR.kind p v hv
  obtain rfl : v₀ = v₁ := Option.some.inj (hv₀.symm.trans hv₁)
  exact ⟨hfile, hshared⟩

theorem Restorable.readFault (hR : Restorable h c) (hd : pageSize ∣ q) (hf : c.readFault env h.m q = some c') :
    Restorable h c' := by
  obtain ⟨v, hv, -, hcase⟩ := readFault_cases hf
  have hreg : c'.reg = c.reg := hcase.reg
  have hF := hcase.faulted hR.sane
  refine hR.faulted (hcase.sane hR.sane hd hv) hF ?_ (fun v₀ hsel hv₀ => ?_) fun sp hsel hsp => ?_
  · rw [hreg]
    exact .refl hR.coherent _ (.refl _)
  · have hk := hR.pages q v₀ hsel hv₀
    obtain ⟨hfile, hshared⟩ := hR.vma hv hv₀
    rw [hreg]
    generalize (c.reg.data h.id).getSnapshotPage q = o at hk
    cases hcase with
    | ready => exact hk
    | @mapped c' w hpte hw hmem hreg hoops =>
      have hpte' : (c'.mem.mm h.m).pte q = .present (c.mem.backing v₀ q) w := by
        rw [hmem, mm_setPte_self, pte_setPte_self, backing_congr rfl hfile]
      have hbacking : c'.mem.backing v₀ q = c.mem.backing v₀ q := backing_congr hF.pageCache rfl
      have hbase : c'.mem.frame (c.mem.backing v₀ q) = c.mem.frame (c.mem.backing v₀ q) :=
        hF.frame _ (hR.sane.backing_lt v₀ q).1
      refine ⟨fun hs => ?_, fun hs => ?_⟩ <;> rw [hbacking]
      · refine ⟨(hk.quiet hs).entry, Or.inr ⟨_, w, hpte', ?_⟩⟩
        rw [hbase]
        rcases (hk.quiet hs).bytes with ⟨-, hB⟩ | ⟨f, w', hp, -⟩
        · exact hB
        · rw [hpte] at hp
          cases hp
      · -- In a private mapping the entry is read-only.
        have hro : w = false := by
          cases w with
          | false => rfl
          | true => rw [hshared, hs] at hw; exact absurd (hw rfl) (by simp)
        have hbare : Bare c'.mem h.m q (c.mem.backing v₀ q) := Or.inr (hro ▸ hpte')
        cases hk.ok hs with
        | absent hb hB => exact .absent hbare (hbase ▸ hB)
        | untouched hnone hpriv hdirty hq hb hB => exact .untouched hnone hpriv hdirty hq hbare (hbase ▸ hB)
        | clean hnone hdirty hq hp hf hcopy hown =>
          rw [hpte] at hp
          cases hp
        | opened ho => exact .opened (hbase ▸ ho)
  · rw [hreg] at hsp
    exact hR.loose q sp hsel hsp

theorem Restorable.armed (hR : Restorable h c) (hv : (c.mem.mm h.m).vmaAt q = some v) (hs : v.shared = false) :
    c.Armed h.m q := by
  intro id sp f w hlive hsp hdirty hnone hpriv hpte
  obtain rfl : h.id = id := Option.some.inj (hR.live.symm.trans hlive)
  by_cases hsel : h.sel q
  · obtain ⟨v₀, hv₀, -, hshared⟩ := hR.kind q v hv
    have hk := (hR.pages q v₀ hsel hv₀).ok (hshared ▸ hs)
    rw [hsp] at hk
    cases hk with
    | untouched hnone' => simp [hnone] at hnone'
    | clean hnone hdirty hq hp hf hcopy hown =>
      rw [hpte] at hp
      cases hp
      exact hown hpriv
    | opened ho =>
      cases ho with
      | refreshed hnone' => simp [hnone] at hnone'
      | dirty hnone hdirty' => simp [hdirty] at hdirty'
  · have := (hR.loose q sp hsel hsp).1
    simp [hnone] at this

/-- A page whose entry is writable has been opened. -/
theorem PageOk.opened_of_write (hk : PageOk mem m p base C o) (hpte : (mem.mm m).pte p = .present f true) :
    Opened (mem.frame base).data C o := by
  have hcontra : ¬Bare mem m p base := by
    rintro (hb | hb) <;> rw [hpte] at hb <;> cases hb
  cases hk with
  | absent hb hB => exact absurd hb hcontra
  | untouched hnone hpriv hdirty hq hb hB => exact absurd hb hcontra
  | clean hnone hdirty hq hp hf hcopy hown =>
    rw [hpte] at hp
    cases hp
  | opened ho => exact ho

/-- The fault of a write opens a selected page. -/
theorem Restorable.opens (hok : h.Ok) (hR : Restorable h c) (hpage : env.pageData q = true)
    (hentry : env.snapshotPage q = true) (hsel : h.sel q) (hv₀ : h.mm.vmaAt q = some v₀)
    (hv : (c.mem.mm h.m).vmaAt q = some v) (hs : v.shared = false) (hcase : WriteFault env h.m q c v c') :
    Opened (c.mem.frame (c.mem.backing v₀ q)).data (h.content q) ((c'.reg.data h.id).getSnapshotPage q) := by
  obtain ⟨hfile, hshared⟩ := hR.vma hv hv₀
  have hk := (hR.pages q v₀ hsel hv₀).ok (hshared ▸ hs)
  have hin : ∀ d, SameButPages h.data d → d.isSnapshottedAddress q = true := fun d hd => by
    rw [isSnapshottedAddress_congr hd]
    exact (hok.sel q hsel).2.1
  have hanon : (c.mem.frame (c.mem.backing v₀ q)).anon = false := (hR.sane.backing_lt v₀ q).2
  cases hcase with
  | ready hpte => exact hk.opened_of_write hpte
  | @mkwrite f c' hpte hown hrec hmem hoops =>
    have hex : c.mem.Exclusive h.m q f := hown.resolve_left (by simp [hs])
    have hupd := hrec.data h.id hR.live
    rw [hupd.entry, hpte, hpage]
    exact (hk.recorded hpte).2 hex hanon
  | @copied f c₁ c' hpte hv' hrec hmem₁ hnoted hmem hoops hreuse =>
    have hupd := hrec.data h.id hR.live
    have hready := (hk.recorded hpte).1
    have hlive : c₁.reg.live (c₁.mem.mm h.m).owner = some h.id := by rw [hrec.live, hmem₁, hR.live]
    rcases hnoted.data h.id hlive with hupd' | ⟨halloc, -⟩
    · rw [hupd'.entry]
      refine Ready.noted ?_ (hin _ (hR.same.trans hupd.same))
      rw [hupd.entry, hpte, hpage]
      exact hready
    · rw [hentry] at halloc
      cases halloc
  | mapped hpte hv' => simp [hs] at hv'
  | fresh hpte hv' hnoted hmem hoops =>
    rcases hnoted.data h.id hR.live with hupd | ⟨halloc, -⟩
    · rw [hupd.entry]
      exact (hk.ready_of_none hpte).noted (hin _ hR.same)
    · rw [hentry] at halloc
      cases halloc

/-- Entries that were made on demand stay such. -/
def OnDemand (o : Option SnapshotPage) : Prop := ∀ sp, o = some sp → sp.isNonePte = true ∧ sp.dirty = false

theorem OnDemand.recorded (ho : OnDemand o) : OnDemand (o.map fun sp => sp.recorded B alloc) := by
  intro sp' hsp'
  obtain ⟨sp, hsp, rfl⟩ := Option.map_eq_some_iff.mp hsp'
  have := ho sp hsp
  rw [recorded_of_skip (by rw [this.1, Bool.or_true])]
  exact this

theorem OnDemand.noted {d : TaskData} (ho : OnDemand (d.getSnapshotPage q)) : OnDemand (d.notedEntry q) := by
  intro sp' hsp'
  unfold TaskData.notedEntry at hsp'
  cases hget : d.getSnapshotPage q with
  | none =>
    rw [hget] at hsp'
    dsimp only at hsp'
    split at hsp'
    · cases hsp'
      exact ⟨rfl, rfl⟩
    · cases hsp'
  | some sp =>
    rw [hget] at hsp'
    cases hsp'
    exact ho sp hget

theorem WriteFault.onDemand (hlive : c.reg.live (c.mem.mm m).owner = some h.id)
    (ho : OnDemand ((c.reg.data h.id).getSnapshotPage q)) (hcase : WriteFault env m q c v c') :
    OnDemand ((c'.reg.data h.id).getSnapshotPage q) := by
  have hnote : ∀ d d' : TaskData, OnDemand (d.getSnapshotPage q) →
      (PageUpdated d q (d.notedEntry q) d' ∨ env.snapshotPage q = false ∧ d' = d) → OnDemand (d'.getSnapshotPage q) := by
    rintro d d' ho (hupd | ⟨-, rfl⟩)
    · rw [hupd.entry]
      exact ho.noted
    · exact ho
  cases hcase with
  | ready => exact ho
  | mkwrite hpte hown hrec hmem hoops =>
    rw [(hrec.data h.id hlive).entry]
    exact ho.recorded
  | copied hpte hv' hrec hmem₁ hnoted hmem hoops hreuse =>
    refine hnote _ _ ?_ (hnoted.data h.id (by rw [hrec.live, hmem₁, hlive]))
    rw [(hrec.data h.id hlive).entry]
    exact ho.recorded
  | mapped hpte hv' hmem hreg hoops =>
    rw [hreg]
    exact ho
  | fresh hpte hv' hnoted hmem hoops => exact hnote _ _ ho (hnoted.data h.id hlive)

/-- What a write fault in a private mapping leaves. -/
structure Opens (h : Home) (q : Nat) (c c' : Core) : Prop where
  restorable : Restorable h c'
  faulted : c.mem.Faulted h.m q c'.mem
  touched : c.reg.Touched (some h.id) (OnlyPage q) c'.reg
  writable : ∃ f, (c'.mem.mm h.m).pte q = .present f true ∧ c'.mem.Exclusive h.m q f

theorem Restorable.writeFault (hok : h.Ok) (hR : Restorable h c) (henv : env.Allocates) (hreuse : env.ReuseSound)
    (hd : pageSize ∣ q) (hpriv : ∀ v, (c.mem.mm h.m).vmaAt q = some v → v.shared = false)
    (hf : c.writeFault env h.m q = some c') : Opens h q c c' := by
  obtain ⟨v, hv, -, hcase⟩ := writeFault_cases hR.coherent hreuse (fun v hv hs => hR.armed hv hs) hf
  have hs := hpriv v hv
  have hF := hcase.faulted hR.sane
  have ht := writeFault_touched hR.coherent hf
  have hsane' := hcase.sane hR.sane hd hv
  have hR' : Restorable h c' := by
    refine hR.faulted hsane' hF ht (fun v₀ hsel hv₀ => ?_) fun sp hsel hsp => ?_
    · refine ⟨fun hsh => ?_, fun _ => ?_⟩
      · rw [← (hR.vma hv hv₀).2, hs] at hsh
        cases hsh
      · have ho := hR.opens hok (henv.pageData q) (henv.snapshotPage q) hsel hv₀ hv hs hcase
        rw [backing_congr hF.pageCache rfl]
        rw [← hF.frame _ (hR.sane.backing_lt v₀ q).1] at ho
        exact .opened ho
    · exact hcase.onDemand hR.live (fun sp hsp => hR.loose q sp hsel hsp) sp hsp
  rw [hR.live] at ht
  obtain ⟨f, hf⟩ := hcase.writable
  exact ⟨hR', hF, ht, f, hf, hsane'.excl h.m q f v hf (hF.vmaAt ▸ hv) hs⟩

/-! ### Stores -/

theorem store_eq {g : Page → Page} (hpte : (c.mem.mm m).pte q = .present f w) :
    c.store m q g = c.setMem (c.mem.setFrame f { c.mem.frame f with data := g (c.mem.frame f).data }) := by
  unfold Core.store
  rw [hpte]

theorem setFrame_of_ne {g : Nat} {fr : Frame} (hg : g ≠ f) : (mem.setFrame f fr).frame g = mem.frame g :=
  Function.update_of_ne hg ..

/-- Bytes are stored through a writable entry of a private mapping. -/
theorem Restorable.store (hR : Restorable h c) {g : Page → Page}
    (hpriv : ∀ v, (c.mem.mm h.m).vmaAt q = some v → v.shared = false)
    (hpte : (c.mem.mm h.m).pte q = .present f true) (hex : c.mem.Exclusive h.m q f) :
    Restorable h (c.store h.m q g) := by
  rw [store_eq hpte]
  have hbase : ∀ v p, c.mem.backing v p ≠ f := fun v p heq => by
    have := (hR.sane.backing_lt v p).2
    rw [heq, hex.anon] at this
    cases this
  have hsane : (c.mem.setFrame f { c.mem.frame f with data := g (c.mem.frame f).data }).Sane := hR.sane.setFrame rfl
  refine ⟨hsane, hR.coherent, hR.live, hR.used, hR.same, hR.queued, hR.kind, hR.gone, hR.brk, fun p v₀ hsel hv₀ => ?_,
    hR.loose⟩
  have hk := hR.pages p v₀ hsel hv₀
  by_cases hpq : p = q
  · subst hpq
    obtain ⟨v, hv⟩ := Option.isSome_iff_exists.mp (Spans.find_isSome.mpr ((hR.sane.mms h.m).pte p f true hpte).2.2)
    have hs : v₀.shared = false := by rw [← (hR.vma hv hv₀).2, hpriv v hv]
    refine ⟨fun hsh => ?_, fun _ => ?_⟩
    · rw [hs] at hsh
      cases hsh
    · refine .opened ?_
      show Opened ((c.mem.setFrame f _).frame (c.mem.backing v₀ p)).data _ _
      rw [setFrame_of_ne (hbase v₀ p)]
      exact (hk.ok hs).opened_of_write hpte
  · refine hk.congr rfl rfl (congrArg Frame.data (setFrame_of_ne (hbase v₀ p))) (fun f' w' hp => ?_)
      fun f' w' hp hex' => hex'.restrict (hR.sane.pfn h.m p f' w' hp) (.setFrame rfl)
    refine congrArg Frame.data (setFrame_of_ne fun heq => hpq ?_)
    subst heq
    exact (hex.only h.m p w' hp).2

theorem pageBase_dvd (addr : Nat) : pageSize ∣ pageBase addr := Nat.dvd_sub_mod addr

/-- The process reads. -/
theorem Restorable.readByte (hR : Restorable h c) (addr : Nat) : Restorable h (c.readByte env h.m addr) := by
  unfold Core.readByte
  cases hf : c.readFault env h.m (pageBase addr) with
  | none => exact hR
  | some c' => exact hR.readFault (pageBase_dvd addr) hf

/-- The process writes to a private mapping. -/
theorem Restorable.writeByte (hok : h.Ok) (hR : Restorable h c) (henv : env.Allocates) (hreuse : env.ReuseSound)
    (addr : Nat) (byte : UInt8) (hpriv : ∀ v, (c.mem.mm h.m).vmaAt (pageBase addr) = some v → v.shared = false) :
    Restorable h (c.writeByte env h.m addr byte) := by
  unfold Core.writeByte
  cases hf : c.writeFault env h.m (pageBase addr) with
  | none => exact hR
  | some c' =>
    have ho := hR.writeFault hok henv hreuse (pageBase_dvd addr) hpriv hf
    obtain ⟨f, hpte, hex⟩ := ho.writable
    exact ho.restorable.store (fun v hv => hpriv v (ho.faulted.vmaAt ▸ hv)) hpte hex

end
end AflSnapshot
