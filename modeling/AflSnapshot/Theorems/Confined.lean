import AflSnapshot.Theorems.Contents
import AflSnapshot.Theorems.Interleavings
import AflSnapshot.Theorems.Objects

/-! # How much memory a snapshot takes

Entries are made by a take and by `page_add_new_anon_rmap_hook`, for pages of linked VMAs only; what `record_dirty_page` and a
restore do to an entry they do where it is. A record so never has more entries, and more buffers, than its linked VMAs have
pages, however often it is restored (`snapshot_bounded`). -/

namespace AflSnapshot
open Spans Runs

/-- Table and dirty list are well formed, and only pages of linked VMAs have entries. -/
structure TaskData.Confined (d : TaskData) : Prop where
  wellFormed : d.WellFormed
  aligned : ∀ v ∈ d.ss.snapshottedVmas, pageSize ∣ v.vmStart ∧ pageSize ∣ v.vmEnd
  entries : ∀ p, (d.getSnapshotPage p).isSome → pageSize ∣ p ∧ Covers d.ss.snapshottedVmas p

/-- The bytes of the linked VMAs. -/
def TaskData.linkedBytes (d : TaskData) : Nat := (d.ss.snapshottedVmas.map fun v => v.vmEnd - v.vmStart).sum

def Core.Confined (c : Core) : Prop := ∀ u id, c.reg.live u = some id → (c.reg.data id).Confined

section
variable {d d' : TaskData} {page : Nat} {o : Option SnapshotPage} {f : SnapshotPage → SnapshotPage}

theorem isSnapshottedAddress_covers (h : d.isSnapshottedAddress page = true) : Covers d.ss.snapshottedVmas page := by
  have hgo : ∀ l, TaskData.isSnapshottedAddress.go page l = true → Covers l page := by
    intro l hl
    induction l with
    | nil => cases hl
    | cons v l ih =>
      rw [TaskData.isSnapshottedAddress.go] at hl
      split at hl
      · rename_i hin
        exact ⟨v, List.mem_cons_self, hin⟩
      split at hl
      · cases hl
      · exact covers_cons.mpr (Or.inr (ih hl))
  exact hgo _ h

theorem mem_keys_iff : page ∈ d.ss.ssPages.map SnapshotPage.pageBase ↔ (d.getSnapshotPage page).isSome := by
  rw [← not_iff_not, ← Keyed.get_eq_none, Option.not_isSome_iff_eq_none]
  rfl

namespace TaskData.Confined

/-- The dirty list is no longer than the table, and a buffer for each entry takes up no more than the linked VMAs. -/
theorem bounded (h : d.Confined) :
    d.ss.dirtyPages.length ≤ d.ss.ssPages.length ∧ d.ss.ssPages.length * pageSize ≤ d.linkedBytes := by
  have hdirty : d.ss.dirtyPages ⊆ d.ss.ssPages.map SnapshotPage.pageBase := by
    intro p hp
    obtain ⟨sp, hsp, -⟩ := (h.wellFormed.queued.mem p).mp hp
    rw [mem_keys_iff, hsp]
    rfl
  have hlist := h.wellFormed.queued.nodup.length_le_of_subset hdirty
  have htable := length_mul_le (k := pageSize) (by decide) h.aligned h.wellFormed.unique fun p hp => h.entries p (mem_keys_iff.mp hp)
  rw [List.length_map] at hlist htable
  exact ⟨hlist, htable⟩

theorem of_blank (h : d.Blank) : d.Confined := by
  obtain ⟨-, hvmas, hpages, hdirty⟩ := h
  have hnone : ∀ p, d.getSnapshotPage p = none := by
    intro p
    simp [TaskData.getSnapshotPage, hpages]
  refine ⟨⟨?_, ?_, fun p => ?_⟩, ?_, fun p hp => ?_⟩
  · simp [TaskData.Unique, hpages]
  · simp [hdirty]
  · simp [hdirty, hnone]
  · simp [hvmas]
  · simp [hnone] at hp

/-- Only these fields matter. -/
theorem of_tables (h : d.Confined) (hvmas : d'.ss.snapshottedVmas = d.ss.snapshottedVmas) (hpages : d'.ss.ssPages = d.ss.ssPages)
    (hdirty : d'.ss.dirtyPages = d.ss.dirtyPages) : d'.Confined := by
  have hget : ∀ p, d'.getSnapshotPage p = d.getSnapshotPage p := by
    intro p
    unfold TaskData.getSnapshotPage
    rw [hpages]
  refine ⟨⟨?_, hdirty ▸ h.wellFormed.queued.nodup, fun p => ?_⟩, hvmas ▸ h.aligned, fun p hp => ?_⟩
  · unfold TaskData.Unique
    rw [hpages]
    exact h.wellFormed.unique
  · rw [hdirty, hget]
    exact h.wellFormed.queued.mem p
  · rw [hvmas]
    exact h.entries p (hget p ▸ hp)

/-- Pages and dirty list change, and entries are made for pages of linked VMAs only. -/
theorem change (h : d.Confined) (hsame : SameButPages d d') (hw : d'.WellFormed)
    (hnew : ∀ p, (d'.getSnapshotPage p).isSome → (d.getSnapshotPage p).isSome ∨ pageSize ∣ p ∧ d.isSnapshottedAddress p = true) :
    d'.Confined := by
  have hvmas : d'.ss.snapshottedVmas = d.ss.snapshottedVmas := by rw [hsame]
  refine ⟨hw, hvmas ▸ h.aligned, fun p hp => ?_⟩
  rw [hvmas]
  rcases hnew p hp with hold | ⟨hd, hin⟩
  · exact h.entries p hold
  · exact ⟨hd, isSnapshottedAddress_covers hin⟩

theorem pageUpdated (h : d.Confined) (hupd : PageUpdated d page o d')
    (ho : o.isSome → (d.getSnapshotPage page).isSome ∨ pageSize ∣ page ∧ d.isSnapshottedAddress page = true) : d'.Confined := by
  refine h.change hupd.same ⟨hupd.unique h.wellFormed.unique, hupd.queued h.wellFormed.queued⟩ fun p hp => ?_
  by_cases hpage : p = page
  · subst hpage
    exact ho (hupd.entry ▸ hp)
  · exact Or.inl (hupd.others p hpage ▸ hp)

theorem pagesRecorded {original : Nat → Page} {alloc : Nat → Bool} {addrs : List Nat} (h : d.Confined)
    (hrec : PagesRecorded d original alloc addrs d') : d'.Confined := by
  refine h.change hrec.same ⟨hrec.unique h.wellFormed.unique, hrec.queued h.wellFormed.queued⟩ fun p hp => Or.inl ?_
  rw [hrec.entry p] at hp
  split at hp
  · rwa [Option.isSome_map] at hp
  · exact hp

theorem modifyPage (h : d.Confined) (hkey : ∀ sp, (f sp).pageBase = sp.pageBase)
    (hmark : ∀ sp, (f sp).inDirtyList = sp.inDirtyList) : (d.modifyPage page f).Confined := by
  refine h.change sameButPages_modifyPage ⟨h.wellFormed.unique.modifyPage fun sp hsp => (hkey sp).trans hsp,
    h.wellFormed.queued.modifyPage hkey hmark⟩ fun p hp => Or.inl ?_
  rw [getSnapshotPage_modifyPage hkey] at hp
  split at hp
  · rwa [Option.isSome_map] at hp
  · exact hp

theorem dequeue (h : d.Confined) : ((d.modifyPage page SnapshotPage.leaveDirtyList).delDirty page).Confined := by
  have hunique : (d.modifyPage page SnapshotPage.leaveDirtyList).Unique := h.wellFormed.unique.modifyPage fun _ hsp => hsp
  refine h.change (sameButPages_modifyPage.trans sameButPages_delDirty) ⟨hunique.delDirty, h.wellFormed.queued.dequeue⟩
    fun p hp => Or.inl ?_
  rw [getSnapshotPage_delDirty, getSnapshotPage_modifyPage (f := SnapshotPage.leaveDirtyList) fun _ => rfl] at hp
  split at hp
  · rwa [Option.isSome_map] at hp
  · exact hp

end TaskData.Confined
end

/-! ### Faults and calls -/

section
variable {env : Env} {m id page t config : Nat} {c c' : Core} {o : Option Nat} {R : TaskData → TaskData → Prop}
  {w w' w₀ : World} {f : SnapshotPage → SnapshotPage} {allow : World → Deed → Prop}

namespace Core.Confined

theorem of_reg (h : c.Confined) (hreg : c'.reg = c.reg) : c'.Confined := by
  intro u id hlive
  rw [hreg] at hlive ⊢
  exact h u id hlive

/-- The records that are listed, with a snapshot or without one. -/
theorem listed (h : c.Confined) (hc : c.reg.Coherent) (hid : id ∈ c.reg.taskDataList) : (c.reg.data id).Confined := by
  cases hmade : (c.reg.data id).haveSnapshot with
  | true => exact h _ id (live_eq_some.mpr ⟨getTaskData_of_mem hc hid, hmade⟩)
  | false => exact .of_blank (hc.blank id hid hmade)

theorem touched (h : c.Confined) (ht : c.reg.Touched o R c'.reg) (hR : ∀ d d', R d d' → d.Confined → d'.Confined) :
    c'.Confined := by
  intro u id hlive
  rw [ht.live] at hlive
  by_cases ho : o = some id
  · exact hR _ _ (ht.data id ho) (h u id hlive)
  · rw [ht.others id ho]
    exact h u id hlive

theorem recorded {reg' : Registry} (h : c.Confined) (hrec : c.Recorded env m page reg') (hreg : c'.reg = reg') : c'.Confined := by
  subst hreg
  exact h.touched hrec fun d d' hupd hd => hd.pageUpdated hupd fun hsome => Or.inl (by rwa [Option.isSome_map] at hsome)

theorem noted (h : c.Confined) (hd : pageSize ∣ page) (hnoted : c.Noted env m page c'.reg) : c'.Confined := by
  refine h.touched hnoted fun d d' hupd hconf => ?_
  have hnew := PageUpdated.isSome_noted hupd
  rcases hupd with hupd | ⟨-, rfl⟩
  · exact hconf.pageUpdated hupd fun hsome => (hnew (hupd.entry ▸ hsome)).imp_right fun hin => ⟨hd, hin⟩
  · exact hconf

theorem writeFault (h : c.Confined) (hc : c.reg.Coherent) (hd : pageSize ∣ page) (hf : c.writeFault env m page = some c') :
    c'.Confined := by
  obtain ⟨v, -, -, hcase⟩ := fault_cases hc hf
  cases hcase with
  | ready => exact h
  | mkwrite hpte hplace hrec => exact h.recorded hrec rfl
  | copied hpte hv hrec hmem₁ hnoted => exact (h.recorded hrec rfl).noted hd hnoted
  | mapped hpte hv hmem hreg => exact h.of_reg hreg
  | fresh hpte hv hnoted => exact h.noted hd hnoted

theorem store (h : c.Confined) (g : Page → Page) : (c.store m page g).Confined := by
  unfold Core.store
  split <;> exact h

theorem writeByte (h : c.Confined) (hc : c.reg.Coherent) (addr : Nat) (byte : UInt8) : (c.writeByte env m addr byte).Confined := by
  unfold Core.writeByte
  cases hf : c.writeFault env m (pageBase addr) with
  | none => exact h
  | some c₁ => exact (h.writeFault hc (pageBase_dvd addr) hf).store _

theorem readByte (h : c.Confined) (addr : Nat) : (c.readByte env m addr).Confined := by
  unfold Core.readByte
  cases hf : c.readFault env m (pageBase addr) with
  | none => exact h
  | some c₁ =>
    obtain ⟨v, -, -, hcase⟩ := readFault_cases hf
    exact h.of_reg hcase.reg

variable (env m) in
theorem copyToUser (h : c.Confined) (hc : c.reg.Coherent) (hd : pageSize ∣ page) (data : Page) :
    (c.copyToUser env m page data).1.Confined := by
  rcases copyToUser_cases hc data with ⟨-, heq⟩ | ⟨-, v, c₁, k, hcopy⟩
  · rw [heq]
    exact h
  · have hfault := h.writeFault hc hd hcopy.fault
    rw [hcopy.stored]
    exact hfault

variable (env m) in
theorem doMunmap (h : c.Confined) (hc : c.reg.Coherent) (start len : Nat) : (c.doMunmap env m start len).1.Confined := by
  obtain ⟨ht, -, -⟩ := doMunmapHook_spec env m start len hc
  have hhook : (c.doMunmapHook env m start len).Confined := h.touched ht fun _ _ hrec hd => hd.pagesRecorded hrec
  exact hhook.of_reg doMunmap_reg

/-! ### The loop over the dirty pages -/

theorem modifyData {g : TaskData → TaskData} (h : c.Confined) (hsame : ∀ d, SameButPages d (g d))
    (hg : ∀ d, d.Confined → (g d).Confined) : (c.modifyData id g).Confined := by
  have hd := hsame (c.reg.data id)
  have htsk : (g (c.reg.data id)).tsk = (c.reg.data id).tsk := by rw [hd]
  have hmade : (g (c.reg.data id)).haveSnapshot = (c.reg.data id).haveSnapshot := by
    rw [hd]
    rfl
  intro u i hlive
  have hlive' : (c.reg.setData id (g (c.reg.data id))).live u = some i := hlive
  rw [(setData_live htsk hmade).2] at hlive'
  show ((c.reg.setData id (g (c.reg.data id))).data i).Confined
  by_cases hi : i = id
  · subst hi
    rw [setData_same]
    exact hg _ (h u i hlive')
  · rw [setData_of_ne hi]
    exact h u i hlive'

variable (id page) in
theorem modifyPage (h : c.Confined) (hkey : ∀ sp, (f sp).pageBase = sp.pageBase)
    (hmark : ∀ sp, (f sp).inDirtyList = sp.inDirtyList) : (c.modifyData id fun d => d.modifyPage page f).Confined :=
  h.modifyData (fun _ => sameButPages_modifyPage) fun _ hd => hd.modifyPage hkey hmark

theorem dequeue (h : c.Confined) : (c.dequeue id page).Confined :=
  h.modifyData (fun _ => sameButPages_modifyPage.trans sameButPages_delDirty) fun _ hd => hd.dequeue

theorem recoverPage {sp : SnapshotPage} (h : c.Confined) (hc : c.reg.Coherent) (hd : pageSize ∣ sp.pageBase) :
    (c.recoverPage env m id sp).Confined := by
  have hcopy := h.copyToUser env m hc hd (sp.pageData.getD fun _ => 0)
  have hclear := hcopy.modifyPage id sp.pageBase (f := fun sp => { sp with dirty := false, hasHadPte := true })
    (fun _ => rfl) fun _ => rfl
  unfold Core.recoverPage
  dsimp only
  split
  · have hprotect : (((c.copyToUser env m sp.pageBase (sp.pageData.getD fun _ => 0)).1.modifyData id fun d =>
        d.modifyPage sp.pageBase fun sp => { sp with dirty := false, hasHadPte := true }).setMem _).Confined := hclear
    exact (hprotect.modifyPage id sp.pageBase (f := SnapshotPage.setPrivate) (fun _ => rfl) fun _ => rfl).dequeue
  · exact hclear

theorem recoverNonePte (h : c.Confined) : (c.recoverNonePte m id page).Confined := by
  have hzap : (c.zapPage m page).Confined := by
    unfold Core.zapPage
    split <;> exact h
  have hset := hzap.modifyPage id page (f := fun sp => { sp.setNonePte with hasHadPte := false })
    (fun _ => rfl) fun _ => rfl
  exact hset.dequeue

variable (env m id) in
theorem recoverEntry (h : c.Confined) (hc : c.reg.Coherent) (hd : pageSize ∣ page) : (c.recoverEntry env m id page).Confined := by
  unfold Core.recoverEntry
  split
  · exact h
  rename_i sp hsp
  split
  · exact h.recoverPage hc (getSnapshotPage_key hsp ▸ hd)
  split
  · exact h.dequeue
  split
  · exact h.recoverNonePte
  · exact h.dequeue

theorem recoverEntries {l : List Nat} (h : c.Confined) (hc : c.reg.Coherent) (hl : ∀ p ∈ l, pageSize ∣ p) :
    (l.foldl (Core.recoverEntry env m id) c).Confined := by
  induction l generalizing c with
  | nil => exact h
  | cons page l ih =>
    have hnext := h.recoverEntry env m id hc (hl page List.mem_cons_self)
    exact ih hnext (steady_recoverEntry env m page id hc).coherent fun p hp => hl p (List.mem_cons_of_mem page hp)

end Core.Confined

/-! ### Restore and take -/

/-- What the calls of a restore and of a process keep. -/
structure Core.Bounded (c : Core) : Prop where
  coherent : c.reg.Coherent
  mapped : c.mem.Mapped
  confined : c.Confined

namespace Core.Bounded

theorem steady (h : c.Bounded) (hs : c.Steady env c') (hconf : c'.Confined) : c'.Bounded := ⟨hs.coherent, hs.mapped h.mapped, hconf⟩

variable (env m) in
theorem doMunmap (h : c.Bounded) (start len : Nat) : (c.doMunmap env m start len).1.Bounded :=
  have hs : c.Steady env (c.doMunmap env m start len).1 := steady_doMunmap h.coherent
  h.steady hs (h.confined.doMunmap env m h.coherent start len)

theorem setMem {mem : Memory} (h : c.Bounded) (hmem : mem.Mapped) : (c.setMem mem).Bounded := ⟨h.coherent, hmem, h.confined⟩

/-- The calls before the loop over the dirty list. -/
theorem beforeLoop (h : c.Bounded) (hd : ∀ i, (c.reg.data i).Kept) : (c.beforeLoop env m id).1.Bounded := by
  have hsteady : c.Steady env (c.restoreBrk env m (c.reg.data id).ss.oldbrk).1 := steady_restoreBrk h.coherent (hd id).oldbrk
  have hmap : ∀ (c : Core) (start end_ prot : Nat), c.Bounded → pageSize ∣ start → pageSize ∣ end_ → start < end_ →
      end_ < ulongMax → (c.mem.mm m).unmapped start end_ = true →
      (c.setMem (c.mem.setMm m ((c.mem.mm m).mapAnon start end_ prot))).Bounded :=
    fun c₁ start end_ prot h₁ hs he hse htop hfree => h₁.setMem (h₁.mapped.mapAnon hs he hse htop hfree prot)
  have hbrk : (c.restoreBrk env m (c.reg.data id).ss.oldbrk).1.Bounded :=
    restoreBrk_keeps (I := Core.Bounded) (hd id).oldbrk (fun c₁ h₁ => ⟨h₁.coherent, (h₁.mapped m).1⟩)
      (fun c₁ start len h₁ => h₁.doMunmap env m start len) hmap
      (fun c₁ h₁ => h₁.setMem (h₁.mapped.setMm (h₁.mapped m).1 (hd id).oldbrk)) h
  exact sweptVmas_keeps (I := Core.Bounded) ((hd id).congr (hsteady.data id)).allVmas
    (fun c₁ start len h₁ => h₁.doMunmap env m start len) hmap (fun c₁ h₁ => ⟨h₁.coherent, h₁.mapped, h₁.confined⟩) hbrk

variable (env m) in
theorem restore (h : c.Bounded) (hd : ∀ i, (c.reg.data i).Kept) (hid : id ∈ c.reg.taskDataList) :
    (c.restore id env m).Bounded := by
  have hbefore : (c.beforeLoop env m id).1.Bounded := h.beforeLoop hd
  have hlist := (steady_beforeLoop env m id h.coherent h.mapped hd).taskDataList
  rw [restore_eq]
  split
  swap
  · exact hbefore
  generalize (c.beforeLoop env m id).1 = c₁ at hbefore hlist
  have hconf := hbefore.confined.listed hbefore.coherent (hlist ▸ hid)
  unfold Core.recoverPages
  refine hbefore.steady (steady_recoverEntries hbefore.coherent _) (hbefore.confined.recoverEntries hbefore.coherent fun p hp => ?_)
  obtain ⟨sp, hsp, -⟩ := (hconf.wellFormed.queued.mem p).mp hp
  exact (hconf.entries p (hsp ▸ rfl)).1

end Core.Bounded

/-- A page gets at most one entry from a walk. -/
theorem unique_kept (alloc : TakeAlloc) : WalkKeeps alloc fun s => s.data.Unique where
  cached _ _ h := h
  page s p h := unique_makeSnapshotPage h s.mm (alloc.snapshotPage p)
  vma _ _ _ _ h := h

/-- A walk leaves entries for pages of linked VMAs, none of them in the list. -/
theorem Taken.confined {alloc : TakeAlloc} {d : TaskData} {mm : Mm} {done rest : List VmArea} {x : Nat} {s : WalkState}
    (h : Taken alloc d mm done x s) (hm : mm.Sorted) (hdone : mm.mmap = done ++ rest) (hd : d.Blank) (hunique : s.data.Unique) :
    s.data.Confined := by
  have hin : ∀ v ∈ done, v ∈ mm.mmap := fun v hv => hdone ▸ List.mem_append_left rest hv
  have hdirty : s.data.ss.dirtyPages = [] := by
    rw [h.same]
    exact hd.2.2.2
  refine ⟨⟨hunique, hdirty ▸ List.nodup_nil, fun p => ?_⟩, fun v hv => ?_, fun p hp => ?_⟩
  · rw [hdirty]
    refine iff_of_false List.not_mem_nil ?_
    rintro ⟨sp, hsp, hq⟩
    rcases h.page p with ⟨hnone, -⟩ | ⟨hentry, -⟩
    · rw [hnone] at hsp
      cases hsp
    · rw [hentry] at hsp
      cases hsp
      cases hq
  · rw [h.linked] at hv
    obtain ⟨u, hu, rfl⟩ := List.mem_map.mp hv
    exact hm.aligned u (hin u (List.mem_filter.mp hu).1)
  · rcases h.page p with ⟨hnone, -⟩ | ⟨-, -, hvis, v, hv, hpv⟩
    · rw [hnone] at hp
      cases hp
    · obtain ⟨u, hu, hpu, hskip⟩ := hvis.walked
      obtain rfl := hm.ordered.eq_of_in hu (hin v hv) hpu hpv
      have hlinked : TaskData.snapshotVmaOf u (alloc.garbage u.vmStart) ∈ s.data.ss.snapshottedVmas := by
        rw [h.linked]
        exact List.mem_map_of_mem (List.mem_filter.mpr ⟨hv, by simp [hskip]⟩)
      exact ⟨hvis.aligned, _, hlinked, hpu⟩

/-- What a take leaves. -/
theorem Took.confined {d₀ : TaskData} (hT : Took env t config w id d₀ w') (h : w.Kept) (hconf : w.core.Confined) :
    w'.core.Confined := by
  have hblank : (w.initialized t config d₀).Blank := hT.fresh.2.2
  obtain ⟨done, rest, x, s, hdone, hs, hres, -⟩ := take_taken env.take (h.sorted t) hblank
  have hres : (w.taking env t config d₀).1 = (s.data, s.mm) := hres
  have hunique : s.data.Unique := by
    have hstart : (w.initialized t config d₀).Unique := (TaskData.Confined.of_blank hblank).wellFormed.unique
    have hwalk := (unique_kept env.take).takeVmas (w.mmOf t).mmap (s := ⟨w.initialized t config d₀, w.mmOf t, ⟨0, 0⟩⟩) hstart
    have hdata : (w.taking env t config d₀).1.1 = s.data := congrArg Prod.fst hres
    rw [← hdata]
    exact hwalk
  have hmade := hs.confined (h.sorted t) hdone hblank hunique
  intro u i hlive
  by_cases hu : u = t
  · subst hu
    obtain rfl : id = i := Option.some.inj (hT.live.symm.trans hlive)
    rw [hT.data, hres]
    exact hmade.of_tables rfl rfl rfl
  · have hid : i ≠ id := by
      rintro rfl
      exact hu ((getTaskData_spec (live_eq_some.mp hlive).1).2.symm.trans (getTaskData_spec (live_eq_some.mp hT.live).1).2)
    rw [hT.records i hid]
    exact hconf u i (hT.others u hu ▸ hlive)

/-! ### Steps -/

/-- A step outside the device. -/
theorem confined_quiet (h : w.Kept) (hconf : w.core.Confined) {op : Op} (hop : op.Quiet) : (w.step env t op).core.Confined := by
  have hbounded : w.core.Bounded := ⟨h.coherent, h.mapped, hconf⟩
  cases op with
  | read addr => exact hconf.readByte addr
  | write addr byte => exact hconf.writeByte h.coherent addr byte
  | discard addr =>
    show (w.core.zapPage (w.task t).mm (pageBase addr)).Confined
    unfold Core.zapPage
    split <;> exact hconf
  | munmap start len => exact hconf.doMunmap env (w.task t).mm h.coherent start len
  | brk brk =>
    have hkeep := brkShrink_keeps (I := fun c => c.reg.Coherent ∧ c.Confined) (m := (w.task t).mm)
      (fun c start len hc => ⟨(steady_doMunmap hc.1 : c.Steady env _).coherent, hc.2.doMunmap env _ hc.1 start len⟩)
      (fun c brk hc => hc) ⟨h.coherent, hconf⟩ brk
    exact hkeep.2
  | mprotect start len prot =>
    show (w.core.mprotect env (w.task t).mm start len prot).Confined
    unfold Core.mprotect
    split <;> exact hconf
  | mmap start len prot object shared =>
    have hkeep := mmapFixed_keeps (I := Core.Bounded) (fun c hc => ⟨hc.coherent, (hc.mapped (w.task t).mm).1⟩)
      (fun c start len hc => hc.doMunmap env _ start len)
      (fun c start end_ flags file hc hs he hse htop hfree => hc.setMem (hc.mapped.setMm ((hc.mapped _).1.insert hs he hse htop rfl
        ((Mm.unmapped_iff (hc.mapped _).1 hse).mp hfree)) (hc.mapped _).2)) hbounded start len prot object shared
    exact hkeep.confined
  | movePages old new len =>
    show (w.core.movePages (w.task t).mm old new len).Confined
    unfold Core.movePages
    dsimp only
    split <;> exact hconf
  | swapIn addr data write =>
    show (w.core.swapIn (w.task t).mm (pageBase addr) data write).Confined
    unfold Core.swapIn
    split
    · split <;> exact hconf
    · exact hconf
  | file op => exact hconf
  | fork => exact hconf
  | ioctl cmd => exact hop.elim
  | exit => exact hop.elim
  | exitGroup => exact hop.elim

theorem confined_addVmrange (h : w.Kept) (hconf : w.core.Confined) (f : RangeLists → RangeLists) :
    (w.addVmrange env t f).core.Confined := by
  have hgiven := addVmrange_given env t h.coherent f
  intro u id hlive
  rw [hgiven.live] at hlive
  obtain ⟨⟨ranges, hranges⟩, -⟩ := hgiven.data u id hlive
  rw [hranges]
  exact (hconf u id hlive).of_tables rfl rfl rfl

theorem confined_take (h : w.Kept) (hconf : w.core.Confined) : (w.takeSnapshot env t config).1.core.Confined := by
  rcases takeSnapshot_cases env t config h.coherent (h.sorted t) with ⟨id, -, heq⟩ | ⟨-, -, heq⟩ | ⟨id, d₀, -, hT, -⟩
  · rw [heq]
    exact hconf
  · rw [heq]
    exact hconf
  · exact hT.confined h hconf

theorem confined_restore (h : w.Kept) (hconf : w.core.Confined) (hget : w.core.reg.getTaskData t = some id) :
    (w.restoreSnapshot env t id).core.Confined := by
  have hbounded : w.core.Bounded := ⟨h.coherent, h.mapped, hconf⟩
  rw [(restoreSnapshot_core env w t id).1]
  exact (hbounded.restore env (w.task t).mm h.records (getTaskData_spec hget).1).confined

theorem confined_clean (h : w.Kept) (hconf : w.core.Confined) (t : Nat) : (w.cleanSnapshot t).core.Confined := by
  have hcleaned := cleanSnapshot_cleaned h.coherent t
  intro u id hlive
  by_cases hu : u = t
  · rw [hu, live_of_getTaskData_none hcleaned.none] at hlive
    cases hlive
  · rw [hcleaned.others u hu] at hlive
    have htsk := (getTaskData_spec (live_eq_some.mp hlive).1).2
    rw [hcleaned.data id (htsk.trans_ne hu)]
    exact hconf u id hlive

theorem confined_exit (h : w.Kept) (hconf : w.core.Confined) (t : Nat) : (w.doExitHook t).core.Confined := by
  rcases doExitHook_cases w t with heq | heq <;> rw [heq]
  · exact hconf
  · exact confined_clean h hconf t

theorem confined_exitGroup (h : w.Kept) (hconf : w.core.Confined) : (w.sysExitGroupHook env t).core.Confined := by
  have hexit : ∀ w : World, w.Kept → w.core.Confined → ((w.recoverThreadsSnapshot t).doExitHook t).core.Confined := by
    intro w h hconf
    refine confined_exit (h.recoverThreads t) ?_ t
    rw [(recoverThreads_same w t).core]
    exact hconf
  rcases sysExitGroupHook_cases env w t with ⟨id, hget, -, -, heq⟩ | heq | heq <;> rw [heq]
  · exact confined_restore h hconf hget
  · exact hexit _ (h.clean t) (confined_clean h hconf t)
  · exact hexit w h hconf

variable (env t) in
theorem confined_step (h : w.Kept) (hconf : w.core.Confined) (op : Op) : (w.step env t op).core.Confined := by
  cases op with
  | ioctl cmd =>
    have hrange : ∀ f, (if env.copyFromUser then (w.addVmrange env t f, (0 : Int)) else (w, -22)).1.core.Confined := by
      intro f
      split
      · exact confined_addVmrange h hconf f
      · exact hconf
    cases cmd with
    | excludeVmrange start end_ => exact hrange _
    | includeVmrange start end_ => exact hrange _
    | take config => exact confined_take h hconf
    | do_ => exact confined_take h hconf
    | restore =>
      show (w.recoverSnapshot env t).1.core.Confined
      unfold World.recoverSnapshot
      split
      · exact hconf
      · exact confined_restore h hconf ‹_›
    | clean => exact confined_clean h hconf t
  | exit => exact confined_exit h hconf t
  | exitGroup => exact confined_exitGroup h hconf
  | _ => exact confined_quiet h hconf trivial

theorem confined_happen (h : w.Kept) (hconf : w.core.Confined) (a : Deed) : (w.happen a).core.Confined := by
  cases a with
  | move env tsk op =>
    unfold World.happen
    dsimp only
    split
    · exact confined_step env tsk h hconf op
    · exact hconf
  | fork parent child =>
    unfold World.happen
    dsimp only
    split <;> exact hconf
  | clone parent child =>
    unfold World.happen
    dsimp only
    split <;> exact hconf
  | lookup cpu tsk =>
    have hsame : w.core.reg.SameButCaches (w.lookup cpu tsk).core.reg := (withCache_spec h.coherent cpu tsk).1
    intro u id hlive
    have hlive : (w.lookup cpu tsk).core.reg.live u = some id := hlive
    rw [hsame.live] at hlive
    show ((w.lookup cpu tsk).core.reg.data id).Confined
    rw [hsame.data]
    exact hconf u id hlive

/-! ### Runs -/

/-- A page is written before and after a take, and between two restores, and another one after them. -/
def restoresTwice : List Deed :=
  [.move .calm 1 (.write 4096 1), .move .calm 1 (.ioctl (.take 0)), .move .calm 1 (.write 4096 7),
    .move .calm 1 (.ioctl .restore), .move .calm 1 (.write 4096 8), .move .calm 1 (.ioctl .restore),
    .move .calm 1 (.write 8192 9)]

def twiceRestored : World := restoresTwice.foldl World.happen (World.boot heapMm [1])

end
end AflSnapshot
