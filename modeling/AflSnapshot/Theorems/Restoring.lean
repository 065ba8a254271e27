import AflSnapshot.Theorems.Restorable

/-! # The loop over the dirty pages

A round of the loop of `recover_memory_snapshot` brings its page to a state of rest and takes it off the dirty
list (`Settled`), and touches no other page. When the list is empty, the content of every selected page is back. -/

namespace AflSnapshot

/-- `d'` is `d` with a page's entry changed and taken off the dirty list. -/
structure Settled (d : TaskData) (page : Nat) (o : Option SnapshotPage) (d' : TaskData) : Prop where
  same : SameButPages d d'
  unique : d.Unique → d'.Unique
  others : ∀ q, q ≠ page → d'.getSnapshotPage q = d.getSnapshotPage q
  entry : d'.getSnapshotPage page = o
  free : ∀ sp, o = some sp → sp.inDirtyList = false
  dirtyPages : d'.ss.dirtyPages = d.ss.dirtyPages.erase page

section
variable {d d' : TaskData} {page q : Nat} {o : Option SnapshotPage} {sp : SnapshotPage}

theorem Settled.queued (h : Settled d page o d') (hd : d.Queued) : d'.Queued where
  nodup := by
    rw [h.dirtyPages]
    exact hd.nodup.erase page
  mem p := by
    rw [h.dirtyPages, hd.nodup.mem_erase_iff]
    by_cases hp : p = page
    · subst hp
      rw [h.entry]
      refine iff_of_false (fun hin => hin.1 rfl) ?_
      rintro ⟨sp, hsp, hq⟩
      rw [h.free sp hsp] at hq
      cases hq
    · rw [h.others p hp, and_iff_right hp]
      exact hd.mem p

/-- A change of the entry before it is taken off the list. -/
theorem settled_dequeue {f : SnapshotPage → SnapshotPage}
    (hd' : ∀ q, d'.getSnapshotPage q = if q = page then (d.getSnapshotPage q).map f else d.getSnapshotPage q)
    (hsame : SameButPages d d') (hlist : d'.ss.dirtyPages = d.ss.dirtyPages) (hunique : d.Unique → d'.Unique) :
    Settled d page ((d.getSnapshotPage page).map fun sp => (f sp).leaveDirtyList)
      ((d'.modifyPage page SnapshotPage.leaveDirtyList).delDirty page) where
  same := (hsame.trans sameButPages_modifyPage).trans sameButPages_delDirty
  unique hd := ((hunique hd).modifyPage (f := SnapshotPage.leaveDirtyList) fun _ h => h).delDirty
  others q hq := by
    rw [getSnapshotPage_delDirty, getSnapshotPage_modifyPage (f := SnapshotPage.leaveDirtyList) fun _ => rfl, if_neg hq, hd' q, if_neg hq]
  entry := by
    rw [getSnapshotPage_delDirty, getSnapshotPage_modifyPage (f := SnapshotPage.leaveDirtyList) fun _ => rfl,
      if_pos rfl, hd' page, if_pos rfl, Option.map_map]
    rfl
  free sp hsp := by
    obtain ⟨sp₀, -, rfl⟩ := Option.map_eq_some_iff.mp hsp
    rfl
  dirtyPages := congrArg (List.erase · page) hlist

end

/-! ### Changes of the record -/

section
variable {env : Env} {h : Home} {c c' : Core} {m id page q f : Nat} {sp : SnapshotPage} {v v₀ : VmArea} {x : Pte}
  {g g' : TaskData → TaskData}

theorem modifyData_modifyData : (c.modifyData id g).modifyData id g' = c.modifyData id fun d => g' (g d) := by
  unfold Core.modifyData Registry.setData
  simp

theorem setPte_same (mem : Memory) : mem.setPte m page ((mem.mm m).pte page) = mem := by
  simp [Memory.setPte, Memory.setMm, Mm.setPte]

theorem Settled.touched {reg : Registry} {d' : TaskData} {o : Option SnapshotPage} (h : Settled (reg.data id) page o d')
    (hc : reg.Coherent) (hlive : (reg.data id).haveSnapshot = true) :
    reg.Touched (some id) (OnlyPage page) (reg.setData id d') := by
  have htsk : d'.tsk = (reg.data id).tsk := by rw [h.same]
  have hmade : d'.haveSnapshot = (reg.data id).haveSnapshot := by rw [h.same]; rfl
  refine ⟨rfl, rfl, rfl, hc.setData htsk hmade fun hnot => absurd (hlive.symm.trans hnot) (by simp),
    (setData_live htsk hmade).2, .refl _, fun i hi => ?_, fun i hi => ?_⟩
  · exact setData_of_ne fun he => hi (by rw [he])
  · obtain rfl : id = i := Option.some.inj hi
    rw [setData_same]
    exact ⟨h.same, h.others, h.queued, h.unique⟩

/-- A selected page comes to rest, or another one is taken off the list. -/
theorem Restorable.settle (hR : Restorable h c) {d' : TaskData} {o : Option SnapshotPage}
    (hmem : c'.mem = c.mem.setPte h.m page x) (hreg : c'.reg = c.reg.setData h.id d')
    (hx : ∀ f w, x = .present f w → ∃ w', (c.mem.mm h.m).pte page = .present f w' ∧ (w = true → w' = true))
    (hd : Settled (c.reg.data h.id) page o d')
    (hsel : ∀ v₀, h.sel page → h.mm.vmaAt page = some v₀ →
      PageKept (c.mem.setPte h.m page x) h.m page v₀ (h.content page) o)
    (hloose : ∀ sp, ¬h.sel page → o = some sp → sp.isNonePte = true ∧ sp.dirty = false) : Restorable h c' := by
  have hF : c.mem.Faulted h.m page (c.mem.setPte h.m page x) := .setPte fun f w hf => by
    obtain ⟨w', hw', -⟩ := hx f w hf
    exact Or.inl ⟨w', hw'⟩
  have hsane : (c.mem.setPte h.m page x).Sane := hR.sane.weaken hx
  refine hR.faulted (hmem ▸ hsane) (hmem ▸ hF) ?_ (fun v₀ hp hv₀ => ?_) fun sp hp hsp => ?_
  · rw [hreg, hR.live]
    exact hd.touched hR.coherent (live_eq_some.mp hR.live).2
  · rw [hreg, setData_same, hd.entry, hmem]
    exact hsel v₀ hp hv₀
  · rw [hreg, setData_same, hd.entry] at hsp
    exact hloose sp hp hsp

/-! ### Writing a page back -/

variable (env) in
theorem writeFault_isSome (hv : (c.mem.mm m).vmaAt page = some v) (hw : v.writable = true) :
    ∃ c', c.writeFault env m page = some c' := by
  unfold Core.writeFault
  rw [hv]
  dsimp only
  rw [if_pos hw]
  cases (c.mem.mm m).pte page with
  | none => exact ⟨_, rfl⟩
  | present f w => cases w <;> exact ⟨_, rfl⟩

/-- The fault of a write to a dirty page changes nothing in its entry but `has_had_pte`. -/
theorem Fault.dirty_entry (hlive : c.reg.live (c.mem.mm m).owner = some id)
    (hsp : (c.reg.data id).getSnapshotPage page = some sp) (hdirty : sp.dirty = true) (hnone : sp.isNonePte = false)
    (hq : sp.inDirtyList = true) (hcase : Fault env m page c v c') :
    (∃ had, (c'.reg.data id).getSnapshotPage page = some { sp with hasHadPte := had }) ∧
      (c'.reg.data id).ss.dirtyPages = (c.reg.data id).ss.dirtyPages := by
  have hskip : ∀ B alloc, sp.recorded B alloc = sp := fun B alloc => recorded_of_skip (by rw [hdirty, Bool.true_or])
  have hnoted : sp.noted = { sp with hasHadPte := true } := by simp [SnapshotPage.noted, hnone]
  -- A queued entry is not queued again.
  have hlist : ∀ (d d' : TaskData) (o : Option SnapshotPage), PageUpdated d page o d' →
      (∃ sp, d.getSnapshotPage page = some sp ∧ sp.inDirtyList = true) → d'.ss.dirtyPages = d.ss.dirtyPages := by
    rintro d d' o hupd ⟨sp₁, hsp₁, hq₁⟩
    rcases hupd.dirtyPages with ⟨h, -⟩ | ⟨-, -, hfree⟩
    · exact h
    · rw [hfree sp₁ hsp₁] at hq₁
      cases hq₁
  have hrec : ∀ reg', c.Recorded env m page reg' → (reg'.data id).getSnapshotPage page = some sp ∧
      (reg'.data id).ss.dirtyPages = (c.reg.data id).ss.dirtyPages := fun reg' hr => by
    have hupd := hr.data id hlive
    refine ⟨?_, hlist _ _ _ hupd ⟨sp, hsp, hq⟩⟩
    rw [hupd.entry, hsp, Option.map_some, hskip]
  have hnote : ∀ d d' : TaskData, d.getSnapshotPage page = some sp →
      (PageUpdated d page (d.notedEntry page) d' ∨ env.snapshotPage page = false ∧ d' = d) →
      (∃ had, d'.getSnapshotPage page = some { sp with hasHadPte := had }) ∧ d'.ss.dirtyPages = d.ss.dirtyPages := by
    rintro d d' hd (hupd | ⟨-, rfl⟩)
    · refine ⟨⟨true, ?_⟩, hlist _ _ _ hupd ⟨sp, hd, hq⟩⟩
      rw [hupd.entry, TaskData.notedEntry, hd, ← hnoted]
    · exact ⟨⟨sp.hasHadPte, hd⟩, rfl⟩
  cases hcase with
  | ready => exact ⟨⟨sp.hasHadPte, hsp⟩, rfl⟩
  | mkwrite hpte hown hr hmem hoops =>
    obtain ⟨h1, h2⟩ := hrec _ hr
    exact ⟨⟨sp.hasHadPte, h1⟩, h2⟩
  | copied hpte hv' hr hmem₁ hn hmem hoops hreuse =>
    obtain ⟨h1, h2⟩ := hrec _ hr
    obtain ⟨h3, h4⟩ := hnote _ _ h1 (hn.data id (by rw [hr.live, hmem₁, hlive]))
    exact ⟨h3, h4.trans h2⟩
  | mapped hpte hv' hmem hreg hoops =>
    rw [hreg]
    exact ⟨⟨sp.hasHadPte, hsp⟩, rfl⟩
  | fresh hpte hv' hn hmem hoops => exact hnote _ _ hsp (hn.data id hlive)

/-! ### Records after a round -/

/-- The entry of a page that was written back. -/
def SnapshotPage.writtenBack (sp : SnapshotPage) : SnapshotPage :=
  ({ sp with dirty := false, hasHadPte := true } : SnapshotPage).setPrivate.leaveDirtyList

/-- The entry of a page that was emptied. -/
def SnapshotPage.emptied (sp : SnapshotPage) : SnapshotPage :=
  ({ sp.setNonePte with hasHadPte := false } : SnapshotPage).leaveDirtyList

def TaskData.writtenBack (d : TaskData) (page : Nat) : TaskData :=
  (((d.modifyPage page fun sp => { sp with dirty := false, hasHadPte := true }).modifyPage page
    SnapshotPage.setPrivate).modifyPage page SnapshotPage.leaveDirtyList).delDirty page

def TaskData.emptied (d : TaskData) (page : Nat) : TaskData :=
  ((d.modifyPage page fun sp => { sp.setNonePte with hasHadPte := false }).modifyPage page
    SnapshotPage.leaveDirtyList).delDirty page

theorem settled_writtenBack (d : TaskData) (page : Nat) :
    Settled d page ((d.getSnapshotPage page).map SnapshotPage.writtenBack) (d.writtenBack page) := by
  let clear : SnapshotPage → SnapshotPage := fun sp => { sp with dirty := false, hasHadPte := true }
  refine settled_dequeue (f := fun sp => (clear sp).setPrivate) (fun q => ?_)
    (sameButPages_modifyPage.trans sameButPages_modifyPage) rfl
    fun hu => (hu.modifyPage (f := clear) fun _ h => h).modifyPage (f := SnapshotPage.setPrivate) fun _ h => h
  rw [getSnapshotPage_modifyPage (f := SnapshotPage.setPrivate) fun _ => rfl,
    getSnapshotPage_modifyPage (f := clear) fun _ => rfl]
  split
  · exact Option.map_map ..
  · rfl

theorem settled_emptied (d : TaskData) (page : Nat) :
    Settled d page ((d.getSnapshotPage page).map SnapshotPage.emptied) (d.emptied page) := by
  let zapped : SnapshotPage → SnapshotPage := fun sp => { sp.setNonePte with hasHadPte := false }
  exact settled_dequeue (f := zapped) (fun q => getSnapshotPage_modifyPage (f := zapped) fun _ => rfl)
    sameButPages_modifyPage rfl fun hu => hu.modifyPage (f := zapped) fun _ h => h

variable (env id) in
/-- A page that has a slot after the copy is protected again. -/
theorem recoverPage_eq (hkey : sp.pageBase = page) {c₂ : Core}
    (hcopy : (c.copyToUser env m page (sp.pageData.getD fun _ => 0)).1 = c₂) (hslot : (c₂.mem.mm m).slot page = true) :
    (c.recoverPage env m id sp).mem = c₂.mem.setPte m page ((c₂.mem.mm m).pte page).wrprotect ∧
      (c.recoverPage env m id sp).reg = c₂.reg.setData id ((c₂.reg.data id).writtenBack page) := by
  unfold Core.recoverPage
  rw [hkey]
  dsimp only
  rw [hcopy]
  have hslot : ((c₂.modifyData id fun d => d.modifyPage page fun sp =>
      { sp with dirty := false, hasHadPte := true }).mem.mm m).slot page = true := hslot
  rw [if_pos hslot]
  exact ⟨rfl, by simp [Core.dequeue, Core.modifyData, Core.setMem, Registry.setData, TaskData.writtenBack]⟩

variable (id page) in
/-- A page that is not mapped has no entry to be zapped. -/
theorem recoverNonePte_eq (hok : (c.mem.mm m).Ok) :
    (c.recoverNonePte m id page).mem = c.mem.setPte m page .none ∧
      (c.recoverNonePte m id page).reg = c.reg.setData id ((c.reg.data id).emptied page) := by
  unfold Core.recoverNonePte Core.zapPage
  cases hv : (c.mem.mm m).vmaAt page with
  | some v => exact ⟨rfl, by simp [Core.dequeue, Core.modifyData, Core.setMem, Registry.setData, TaskData.emptied]⟩
  | none =>
    have hpte : (c.mem.mm m).pte page = .none := by
      cases hp : (c.mem.mm m).pte page with
      | none => rfl
      | present f w => exact absurd (hok.pte page f w hp).2.2 (Spans.find_eq_none.mp hv)
    refine ⟨?_, by simp [Core.dequeue, Core.modifyData, Registry.setData, TaskData.emptied]⟩
    show c.mem = _
    rw [← hpte, setPte_same]

/-! ### Rounds -/

/-- What a round of the loop leaves. -/
structure Round (h : Home) (page : Nat) (c c' : Core) : Prop where
  restorable : Restorable h c'
  dirtyPages : (c'.reg.data h.id).ss.dirtyPages = (c.reg.data h.id).ss.dirtyPages.erase page
  others : ∀ q, q ≠ page → (c'.reg.data h.id).getSnapshotPage q = (c.reg.data h.id).getSnapshotPage q
  mmap : (c'.mem.mm h.m).mmap = (c.mem.mm h.m).mmap
  brk : (c'.mem.mm h.m).brk = (c.mem.mm h.m).brk

/-- A saved page is written back and protected again. -/
theorem Restorable.recoverPage (hok : h.Ok) (hR : Restorable h c) (henv : env.Allocates) (hreuse : env.ReuseSound)
    (hsp : (c.reg.data h.id).getSnapshotPage page = some sp) (hsel : h.sel page)
    (hv : (c.mem.mm h.m).vmaAt page = some v) (hw : v.writable = true) (hs : v.shared = false)
    (hnone : sp.isNonePte = false) (hdirty : sp.dirty = true) (hq : sp.inDirtyList = true)
    (hdata : sp.pageData = some (h.content page)) :
    Round h page c (c.recoverPage env h.m h.id sp) := by
  have hkey : sp.pageBase = page := getSnapshotPage_key hsp
  have hd := (hok.sel page hsel).1
  have hpriv : ∀ v', (c.mem.mm h.m).vmaAt page = some v' → v'.shared = false := fun v' hv' =>
    Option.some.inj (hv.symm.trans hv') ▸ hs
  obtain ⟨c₁, hf⟩ := writeFault_isSome env hv hw
  have ho := hR.writeFault hok henv hreuse hd hpriv hf
  obtain ⟨f, hpte, hex⟩ := ho.writable
  have hcopy : c.copyToUser env h.m page (h.content page) = (c₁.store h.m page fun _ => h.content page, true) := by
    unfold Core.copyToUser
    rw [henv.copyToUser page, hf]
    rfl
  set c₂ := c₁.store h.m page fun _ => h.content page with hc₂
  have hR₂ : Restorable h c₂ := ho.restorable.store (fun v' hv' => hpriv v' (ho.faulted.vmaAt ▸ hv')) hpte hex
  obtain ⟨v', hv', -, hcase⟩ := fault_cases hR.coherent hf
  obtain ⟨⟨had, hentry⟩, hlist⟩ := hcase.dirty_entry hR.live hsp hdirty hnone hq
  have hstore := store_eq (g := fun _ => h.content page) hpte
  have hreg₂ : c₂.reg = c₁.reg := by rw [hc₂, hstore]; rfl
  have hmm₂ : c₂.mem.mm = c₁.mem.mm := by rw [hc₂, hstore]; rfl
  have hpte₂ : (c₂.mem.mm h.m).pte page = .present f true := by rw [hmm₂, hpte]
  have hslot₂ : (c₂.mem.mm h.m).slot page = true := ((hR₂.sane.mms h.m).pte page f true hpte₂).1
  have hbytes : (c₂.mem.frame f).data = h.content page := by
    rw [hc₂, hstore]
    show (Function.update c₁.mem.frame f _ f).data = _
    rw [Function.update_self]
  have hex₂ : c₂.mem.Exclusive h.m page f := by
    rw [hc₂, hstore]
    exact hex.restrict (ho.restorable.sane.pfn h.m page f true hpte) (.setFrame rfl)
  have hcopied : (c.copyToUser env h.m page (sp.pageData.getD fun _ => 0)).1 = c₂ := by rw [hdata, Option.getD_some, hcopy]
  have heq : (c.recoverPage env h.m h.id sp).mem = c₂.mem.setPte h.m page (.present f false) ∧
      (c.recoverPage env h.m h.id sp).reg = c₂.reg.setData h.id ((c₂.reg.data h.id).writtenBack page) := by
    have heq := recoverPage_eq env h.id hkey hcopied hslot₂
    rw [hpte₂] at heq
    exact heq
  have hsettled := settled_writtenBack (c₂.reg.data h.id) page
  rw [hreg₂, hentry, Option.map_some] at hsettled
  obtain ⟨hsame, hothers, hqueued, -⟩ := ho.touched.data h.id rfl
  refine ⟨hR₂.settle heq.1 heq.2 (fun g w hg => ?_) (hreg₂ ▸ hsettled) (fun v₀ _ hv₀ => ?_) fun _ hnsel => absurd hsel hnsel,
    ?_, fun q hne => ?_, ?_, ?_⟩
  · cases hg
    exact ⟨true, hpte₂, by simp⟩
  · have hs₀ : v₀.shared = false := by rw [← (hR.vma hv hv₀).2, hs]
    refine ⟨fun hsh => ?_, fun _ => ?_⟩
    · rw [hs₀] at hsh
      cases hsh
    · refine .clean (f := f) hnone rfl rfl (by rw [mm_setPte_self, pte_setPte_self]) hbytes (fun _ => hdata) fun _ => ?_
      exact hex₂.restrict (hR₂.sane.pfn h.m page f true hpte₂) (.weaken fun g w hg => by
        cases hg
        exact ⟨true, hpte₂, by simp⟩)
  · rw [heq.2, setData_same, hreg₂, hsettled.dirtyPages, hlist]
  · rw [heq.2, setData_same, hreg₂, hsettled.others q hne, hothers q hne]
  · rw [heq.1, mm_setPte_self, mmap_setPte, hmm₂, ho.faulted.mmap]
  · rw [heq.1, mm_setPte_self, brk_setPte, hmm₂, ho.faulted.brk]

/-! ### The other rounds -/

/-- A page that was not selected is taken off the list. -/
theorem Restorable.dequeue (hR : Restorable h c) (hsel : ¬h.sel page) : Round h page c (c.dequeue h.id page) := by
  have hsettled : Settled (c.reg.data h.id) page
      (((c.reg.data h.id).getSnapshotPage page).map SnapshotPage.leaveDirtyList)
      (((c.reg.data h.id).modifyPage page SnapshotPage.leaveDirtyList).delDirty page) :=
    settled_dequeue (f := fun sp => sp) (fun q => by split <;> simp) (.refl _) rfl id
  have hmem : (c.dequeue h.id page).mem = c.mem.setPte h.m page ((c.mem.mm h.m).pte page) := (setPte_same _).symm
  refine ⟨hR.settle hmem rfl (fun f w hf => ⟨w, hf, fun hw => hw⟩) hsettled (fun v₀ hp => absurd hp hsel)
    fun sp' _ hsp' => ?_, ?_, fun q hne => ?_, rfl, rfl⟩
  · obtain ⟨sp, hsp, rfl⟩ := Option.map_eq_some_iff.mp hsp'
    exact hR.loose page sp hsel hsp
  · show ((c.reg.setData h.id _).data h.id).ss.dirtyPages = _
    rw [setData_same, hsettled.dirtyPages]
  · show ((c.reg.setData h.id _).data h.id).getSnapshotPage q = _
    rw [setData_same, hsettled.others q hne]

/-- A page without an entry of its own at the take is emptied again. -/
theorem Restorable.recoverNonePte (hR : Restorable h c)
    (hsp : (c.reg.data h.id).getSnapshotPage page = some sp) (hdirty : sp.dirty = false)
    (hkept : ∀ v₀, h.sel page → h.mm.vmaAt page = some v₀ → v₀.shared = false ∧ sp.isPrivate = false ∧
      (c.mem.frame (c.mem.backing v₀ page)).data = h.content page) :
    Round h page c (c.recoverNonePte h.m h.id page) := by
  have hmem : (c.recoverNonePte h.m h.id page).mem = c.mem.setPte h.m page .none ∧
      (c.recoverNonePte h.m h.id page).reg = c.reg.setData h.id ((c.reg.data h.id).emptied page) :=
    recoverNonePte_eq h.id page (hR.sane.mms h.m)
  have hsettled := settled_emptied (c.reg.data h.id) page
  rw [hsp, Option.map_some] at hsettled
  refine ⟨hR.settle hmem.1 hmem.2 (fun f w hf => by cases hf) hsettled (fun v₀ hsel hv₀ => ?_) fun sp' _ hsp' => ?_,
    ?_, fun q hne => ?_, ?_, ?_⟩
  · obtain ⟨hs, hpriv, hB⟩ := hkept v₀ hsel hv₀
    refine ⟨fun hsh => ?_, fun _ => ?_⟩
    · rw [hs] at hsh
      cases hsh
    · exact .untouched rfl hpriv hdirty rfl (Or.inl (by rw [mm_setPte_self, pte_setPte_self])) hB
  · cases hsp'
    exact ⟨rfl, hdirty⟩
  · rw [hmem.2, setData_same, hsettled.dirtyPages]
  · rw [hmem.2, setData_same, hsettled.others q hne]
  · rw [hmem.1, mm_setPte_self, mmap_setPte]
  · rw [hmem.1, mm_setPte_self, brk_setPte]

/-- A page that was saved can be written back: it is mapped, and writable. -/
def WriteBack (h : Home) (c : Core) : Prop :=
  ∀ p sp, (c.reg.data h.id).getSnapshotPage p = some sp → sp.dirty = true →
    ∃ v, (c.mem.mm h.m).vmaAt p = some v ∧ v.writable = true

/-- A round of the loop. -/
theorem Restorable.recoverEntry (hok : h.Ok) (hR : Restorable h c) (henv : env.Allocates) (hreuse : env.ReuseSound)
    (hwb : WriteBack h c) (hin : page ∈ (c.reg.data h.id).ss.dirtyPages) :
    Round h page c (c.recoverEntry env h.m h.id page) := by
  obtain ⟨sp, hsp, hq⟩ := (hR.queued.mem page).mp hin
  unfold Core.recoverEntry
  rw [hsp]
  dsimp only
  by_cases hsel : h.sel page
  · obtain ⟨v₀, hv₀⟩ := (hok.sel page hsel).2.2
    have hk := hR.pages page v₀ hsel hv₀
    rw [hsp] at hk
    have hs₀ : v₀.shared = false := by
      cases hs : v₀.shared with
      | false => rfl
      | true => rw [((hk.quiet hs).entry sp rfl).2] at hq; cases hq
    have ho : Opened (c.mem.frame (c.mem.backing v₀ page)).data (h.content page) (some sp) := by
      cases hk.ok hs₀ with
      | untouched _ _ _ hq' => simp [hq] at hq'
      | clean _ _ hq' => simp [hq] at hq'
      | opened ho => exact ho
    cases ho with
    | refreshed hnone hpriv hdirty _ hhad hB =>
      rw [if_neg (by simp [hdirty]), if_neg (by simp [hpriv]), if_pos (by simp [hnone, hhad])]
      refine hR.recoverNonePte hsp hdirty fun v₁ _ hv₁ => ?_
      obtain rfl : v₀ = v₁ := Option.some.inj (hv₀.symm.trans hv₁)
      exact ⟨hs₀, hpriv, hB⟩
    | dirty hnone hdirty _ hcopied hdata =>
      rw [if_pos (by simp [hdirty, hcopied])]
      obtain ⟨v, hv, hw⟩ := hwb page sp hsp hdirty
      have hs : v.shared = false := by rw [(hR.vma hv hv₀).2, hs₀]
      exact hR.recoverPage hok henv hreuse hsp hsel hv hw hs hnone hdirty hq hdata
  · obtain ⟨hnone, hdirty⟩ := hR.loose page sp hsel hsp
    rw [if_neg (by simp [hdirty])]
    split
    · exact hR.dequeue hsel
    · split
      · exact hR.recoverNonePte hsp hdirty fun v₀ hp => absurd hp hsel
      · exact hR.dequeue hsel

/-- A dirty page is queued. -/
theorem Restorable.queued_of_dirty (hok : h.Ok) (hR : Restorable h c)
    (hsp : (c.reg.data h.id).getSnapshotPage page = some sp) (hdirty : sp.dirty = true) :
    page ∈ (c.reg.data h.id).ss.dirtyPages := by
  refine (hR.queued.mem page).mpr ⟨sp, hsp, ?_⟩
  by_cases hsel : h.sel page
  · obtain ⟨v₀, hv₀⟩ := (hok.sel page hsel).2.2
    have hk := hR.pages page v₀ hsel hv₀
    rw [hsp] at hk
    cases hs : v₀.shared with
    | true =>
      have := ((hk.quiet hs).entry sp rfl).1
      simp [hdirty] at this
    | false =>
      cases hk.ok hs with
      | untouched _ _ hdirty' => simp [hdirty] at hdirty'
      | clean _ hdirty' => simp [hdirty] at hdirty'
      | opened ho =>
        cases ho with
        | refreshed _ _ _ hq => exact hq
        | dirty _ _ hq => exact hq
  · have := (hR.loose page sp hsel hsp).2
    simp [hdirty] at this

/-- The loop. -/
theorem Restorable.recoverEntries (hok : h.Ok) (hR : Restorable h c) (henv : env.Allocates) (hreuse : env.ReuseSound)
    (hwb : WriteBack h c) (l : List Nat) (hl : (c.reg.data h.id).ss.dirtyPages = l) :
    Restorable h (l.foldl (Core.recoverEntry env h.m h.id) c) ∧
      ((l.foldl (Core.recoverEntry env h.m h.id) c).reg.data h.id).ss.dirtyPages = [] ∧
      ((l.foldl (Core.recoverEntry env h.m h.id) c).mem.mm h.m).mmap = (c.mem.mm h.m).mmap ∧
      ((l.foldl (Core.recoverEntry env h.m h.id) c).mem.mm h.m).brk = (c.mem.mm h.m).brk := by
  induction l generalizing c with
  | nil => exact ⟨hR, hl, rfl, rfl⟩
  | cons page l ih =>
    have hround : Round h page c (c.recoverEntry env h.m h.id page) :=
      hR.recoverEntry hok henv hreuse hwb (hl ▸ List.mem_cons_self)
    rw [List.foldl_cons]
    have hl' : ((c.recoverEntry env h.m h.id page).reg.data h.id).ss.dirtyPages = l := by
      rw [hround.dirtyPages, hl, List.erase_cons_head]
    have hwb' : WriteBack h (c.recoverEntry env h.m h.id page) := by
      intro p sp hsp hdirty
      have hne : p ≠ page := by
        rintro rfl
        have hin := hround.restorable.queued_of_dirty hok hsp hdirty
        have hnd := hR.queued.nodup
        rw [hl] at hnd
        rw [hl'] at hin
        exact (List.nodup_cons.mp hnd).1 hin
      rw [hround.others p hne] at hsp
      unfold Mm.vmaAt
      rw [hround.mmap]
      exact hwb p sp hsp hdirty
    obtain ⟨h1, h2, h3, h4⟩ := ih hround.restorable hwb' hl'
    exact ⟨h1, h2, h3.trans hround.mmap, h4.trans hround.brk⟩

/-- A selected page that is not queued holds what it did at the take. -/
theorem Restorable.content_of_not_queued (hok : h.Ok) (hR : Restorable h c) (hsel : h.sel page)
    (hnot : page ∉ (c.reg.data h.id).ss.dirtyPages) (hv : (c.mem.mm h.m).vmaAt page = some v) :
    c.mem.content h.m page = h.content page := by
  obtain ⟨v₀, hv₀⟩ := (hok.sel page hsel).2.2
  obtain ⟨hfile, -⟩ := hR.vma hv hv₀
  have hk := hR.pages page v₀ hsel hv₀
  have hfree : ∀ sp, (c.reg.data h.id).getSnapshotPage page = some sp → sp.inDirtyList ≠ true := fun sp hsp hq =>
    hnot ((hR.queued.mem page).mpr ⟨sp, hsp, hq⟩)
  have hbare : Bare c.mem h.m page (c.mem.backing v₀ page) → c.mem.content h.m page =
      (c.mem.frame (c.mem.backing v₀ page)).data := fun hb => by
    unfold Memory.content
    rcases hb with hb | hb <;> rw [hb, hv]
    dsimp only
    rw [backing_congr rfl hfile]
  generalize (c.reg.data h.id).getSnapshotPage page = o at hk hfree
  cases hs : v₀.shared with
  | true =>
    rcases (hk.quiet hs).bytes with ⟨hp, hB⟩ | ⟨f, w, hp, hC⟩
    · exact (hbare (Or.inl hp)).trans hB
    · unfold Memory.content
      rw [hp]
      exact hC
  | false =>
    cases hk.ok hs with
    | absent hb hB => exact (hbare hb).trans hB
    | untouched _ _ _ _ hb hB => exact (hbare hb).trans hB
    | clean _ _ _ hp hf =>
      unfold Memory.content
      rw [hp]
      exact hf
    | opened ho =>
      cases ho with
      | refreshed _ _ _ hq => exact absurd hq (hfree _ rfl)
      | dirty _ _ hq => exact absurd hq (hfree _ rfl)

/-- With an empty dirty list the content of every selected page that is mapped is what it was at the take. -/
theorem Restorable.content_eq (hok : h.Ok) (hR : Restorable h c) (hsel : h.sel page)
    (hempty : (c.reg.data h.id).ss.dirtyPages = []) (hv : (c.mem.mm h.m).vmaAt page = some v) :
    c.mem.content h.m page = h.content page :=
  hR.content_of_not_queued hok hsel (hempty ▸ List.not_mem_nil) hv

end
end AflSnapshot
