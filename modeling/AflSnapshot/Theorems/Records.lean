import AflSnapshot.Restore

/-! # What the hooks do to the records

A hook changes at most the entry of one page, and the dirty list with it: `PageUpdated`. -/

namespace AflSnapshot

/-- The dirty list holds the entries that say so, once each. -/
structure TaskData.Queued (d : TaskData) : Prop where
  nodup : d.ss.dirtyPages.Nodup
  mem : ∀ p, p ∈ d.ss.dirtyPages ↔ ∃ sp, d.getSnapshotPage p = some sp ∧ sp.inDirtyList = true

/-- The table has one entry for a page at most. -/
def TaskData.Unique (d : TaskData) : Prop := (d.ss.ssPages.map SnapshotPage.pageBase).Nodup

/-- `d'` differs from `d` in the entry of one page, which is `o` now; an entry that is marked as queued has just
    been appended to the dirty list, or was queued before. -/
structure PageUpdated (d : TaskData) (page : Nat) (o : Option SnapshotPage) (d' : TaskData) : Prop where
  same : SameButPages d d'
  unique : d.Unique → d'.Unique
  others : ∀ q, q ≠ page → d'.getSnapshotPage q = d.getSnapshotPage q
  entry : d'.getSnapshotPage page = o
  keeps : ∀ sp, d.getSnapshotPage page = some sp → sp.inDirtyList = true → ∃ sp', o = some sp' ∧ sp'.inDirtyList = true
  dirtyPages : d'.ss.dirtyPages = d.ss.dirtyPages ∧
      (∀ sp', o = some sp' → sp'.inDirtyList = true → ∃ sp, d.getSnapshotPage page = some sp ∧ sp.inDirtyList = true) ∨
    d'.ss.dirtyPages = d.ss.dirtyPages ++ [page] ∧ (∃ sp', o = some sp' ∧ sp'.inDirtyList = true) ∧
      ∀ sp, d.getSnapshotPage page = some sp → sp.inDirtyList = false

namespace SnapshotPage
variable (sp : SnapshotPage)

/-- The entry after `record_dirty_page`. -/
def recorded (original : Page) (alloc : Bool) : SnapshotPage :=
  if sp.dirty || sp.isNonePte then sp
  else if sp.hasBeenCopied then { sp with dirty := true, inDirtyList := true }
  else if sp.pageData.isSome || alloc then
    { sp with dirty := true, inDirtyList := true, pageData := some original, hasBeenCopied := true }
  else { sp with dirty := true, inDirtyList := true }

/-- The entry after `page_add_new_anon_rmap_hook`. -/
def noted : SnapshotPage := { sp with hasHadPte := true, inDirtyList := sp.isNonePte || sp.inDirtyList }

end SnapshotPage

section
variable {d d' : TaskData} {page q : Nat} {o : Option SnapshotPage} {sp : SnapshotPage}

theorem TaskData.Unique.modifyPage {f : SnapshotPage → SnapshotPage} (h : d.Unique)
    (hf : ∀ sp, sp.pageBase = page → (f sp).pageBase = page) : (d.modifyPage page f).Unique := by
  show ((Keyed.modify SnapshotPage.pageBase d.ss.ssPages page f).map SnapshotPage.pageBase).Nodup
  rw [Keyed.map_modify hf]
  exact h

theorem TaskData.Unique.setPage (h : d.Unique) : (d.setPage sp).Unique := h.modifyPage fun _ _ => rfl

theorem TaskData.Unique.hashAdd (h : d.Unique) (hnone : d.getSnapshotPage sp.pageBase = none) :
    (d.hashAdd sp).Unique := List.nodup_cons.mpr ⟨Keyed.get_eq_none.mp hnone, h⟩

theorem TaskData.Unique.addDirty (h : d.Unique) : (d.addDirty page).Unique := h

theorem TaskData.Unique.delDirty (h : d.Unique) : (d.delDirty page).Unique := h

theorem PageUpdated.refl (d : TaskData) (page : Nat) : PageUpdated d page (d.getSnapshotPage page) d where
  same := .refl d
  unique h := h
  others _ _ := rfl
  entry := rfl
  keeps sp h hq := ⟨sp, h, hq⟩
  dirtyPages := Or.inl ⟨rfl, fun sp h hq => ⟨sp, h, hq⟩⟩

/-- An entry stored back under its page, the mark for the dirty list as it was. -/
theorem pageUpdated_setPage (h : d.getSnapshotPage page = some sp) {sp' : SnapshotPage} (hkey : sp'.pageBase = page)
    (hq : sp'.inDirtyList = sp.inDirtyList) : PageUpdated d page (some sp') (d.setPage sp') where
  same := sameButPages_setPage
  unique h := h.setPage
  others q hne := getSnapshotPage_setPage_of_ne (hkey ▸ hne)
  entry := getSnapshotPage_setPage_self h hkey
  keeps sp₁ h₁ hq₁ := by
    obtain rfl : sp = sp₁ := Option.some.inj (h.symm.trans h₁)
    exact ⟨sp', rfl, hq.trans hq₁⟩
  dirtyPages := by
    refine Or.inl ⟨rfl, fun sp₁ h₁ hq₁ => ⟨sp, h, ?_⟩⟩
    obtain rfl : sp' = sp₁ := Option.some.inj h₁
    exact hq.symm.trans hq₁

/-- An entry stored back, and appended to the dirty list. -/
theorem pageUpdated_enqueue (h : ∀ sp, d.getSnapshotPage page = some sp → sp.inDirtyList = false)
    {sp' : SnapshotPage} (hq : sp'.inDirtyList = true) (hd : SameButPages d d') (hunique : d.Unique → d'.Unique)
    (hothers : ∀ q, q ≠ page → d'.getSnapshotPage q = d.getSnapshotPage q)
    (hentry : d'.getSnapshotPage page = some sp') (hlist : d'.ss.dirtyPages = d.ss.dirtyPages ++ [page]) :
    PageUpdated d page (some sp') d' where
  same := hd
  unique := hunique
  others := hothers
  entry := hentry
  keeps sp h₁ hq₁ := by
    rw [h sp h₁] at hq₁
    cases hq₁
  dirtyPages := Or.inr ⟨hlist, ⟨sp', rfl, hq⟩, h⟩

theorem PageUpdated.queued (h : PageUpdated d page o d') (hd : d.Queued) : d'.Queued := by
  have hmem : page ∈ d.ss.dirtyPages ↔ ∃ sp, d.getSnapshotPage page = some sp ∧ sp.inDirtyList = true := hd.mem page
  rcases h.dirtyPages with ⟨hlist, hback⟩ | ⟨hlist, hnew, hold⟩
  · refine ⟨hlist ▸ hd.nodup, fun p => ?_⟩
    rw [hlist]
    by_cases hp : p = page
    · subst hp
      rw [hmem, h.entry]
      constructor
      · rintro ⟨sp, hsp, hq⟩
        exact h.keeps sp hsp hq
      · rintro ⟨sp', hsp', hq⟩
        exact hback sp' hsp' hq
    · rw [h.others p hp]
      exact hd.mem p
  · have hnot : page ∉ d.ss.dirtyPages := fun hin => by
      obtain ⟨sp, hsp, hq⟩ := hmem.mp hin
      rw [hold sp hsp] at hq
      cases hq
    refine ⟨?_, fun p => ?_⟩
    · rw [hlist]
      exact List.nodup_append'.mpr ⟨hd.nodup, List.nodup_singleton _, by simpa using hnot⟩
    · rw [hlist, List.mem_append, List.mem_singleton]
      by_cases hp : p = page
      · subst hp
        rw [h.entry]
        exact iff_of_true (Or.inr rfl) hnew
      · rw [h.others p hp, or_iff_left hp]
        exact hd.mem p

/-- `record_dirty_page` marks the entry; it returns the entry where a recorded page has its copy. -/
theorem recordDirtyPage_spec (d : TaskData) (page : Nat) (original : Page) (alloc : Bool) :
    PageUpdated d page ((d.getSnapshotPage page).map fun sp => sp.recorded original alloc)
      (d.recordDirtyPage page original alloc).1 ∧
    (d.recordDirtyPage page original alloc).2 = (d.getSnapshotPage page).bind fun sp =>
      if sp.dirty || sp.isNonePte then none
      else if sp.hasBeenCopied || sp.pageData.isSome || alloc then some (sp.recorded original alloc) else none := by
  unfold TaskData.recordDirtyPage
  cases hget : d.getSnapshotPage page with
  | none =>
    have hrefl := PageUpdated.refl d page
    rw [hget] at hrefl
    exact ⟨hrefl, rfl⟩
  | some sp =>
    have hkey : sp.pageBase = page := getSnapshotPage_key hget
    simp only [Option.map_some, Option.bind_some, SnapshotPage.recorded]
    by_cases hskip : (sp.dirty || sp.isNonePte) = true
    · simp only [hskip, if_true]
      have hrefl := PageUpdated.refl d page
      rw [hget] at hrefl
      exact ⟨hrefl, trivial⟩
    simp only [hskip]
    -- Whatever else happens to the entry, it is queued now.
    have hupd : ∀ sp' : SnapshotPage, sp'.pageBase = page → sp'.inDirtyList = true →
        PageUpdated d page (some sp') ((if sp.inDirtyList then d else d.addDirty page).setPage sp') := by
      intro sp' hkey' hq'
      cases hq : sp.inDirtyList with
      | true => exact pageUpdated_setPage hget hkey' (hq'.trans hq.symm)
      | false =>
        refine pageUpdated_enqueue (fun sp₁ h₁ => ?_) hq' (sameButPages_addDirty.trans sameButPages_setPage)
          (fun hu => hu.addDirty.setPage) (fun q hne => ?_) ?_ rfl
        · obtain rfl : sp = sp₁ := Option.some.inj (hget.symm.trans h₁)
          exact hq
        · exact getSnapshotPage_setPage_of_ne (hkey' ▸ hne)
        · exact getSnapshotPage_setPage_self hget hkey'
    cases hcopied : sp.hasBeenCopied with
    | true => exact ⟨hupd _ hkey rfl, rfl⟩
    | false =>
      cases hbuf : sp.pageData.isSome || alloc with
      | true =>
        have h := hupd { sp with dirty := true, inDirtyList := true, pageData := some original, hasBeenCopied := true }
          hkey rfl
        exact ⟨by simpa [hcopied] using h, by simp only [Bool.false_or, hbuf, if_true]; rfl⟩
      | false =>
        have h := hupd { sp with dirty := true, inDirtyList := true } hkey rfl
        exact ⟨by simpa [hcopied] using h, by simp [hbuf]⟩

theorem notePte_eq : d.notePte sp =
    if sp.isNonePte && !sp.inDirtyList then (d.setPage sp.noted).addDirty sp.pageBase else d.setPage sp.noted := by
  unfold TaskData.notePte SnapshotPage.noted SnapshotPage.isNonePte
  cases hn : sp.pageProt.snapshotNonePte <;> cases sp.inDirtyList <;> simp [hn]

theorem notePte_spec (h : d.getSnapshotPage page = some sp) : PageUpdated d page (some sp.noted) (d.notePte sp) := by
  have hkey : sp.pageBase = page := getSnapshotPage_key h
  rw [notePte_eq]
  by_cases hnew : (sp.isNonePte && !sp.inDirtyList) = true
  · obtain ⟨hnone, hq⟩ := Bool.and_eq_true_iff.mp hnew
    rw [if_pos hnew, hkey]
    refine pageUpdated_enqueue (fun sp₁ h₁ => ?_) (by simp [SnapshotPage.noted, hnone])
      (sameButPages_setPage.trans sameButPages_addDirty) (fun hu => hu.setPage.addDirty) (fun q hne => ?_) (getSnapshotPage_setPage_self h hkey) rfl
    · obtain rfl : sp = sp₁ := Option.some.inj (h.symm.trans h₁)
      simpa using hq
    · exact getSnapshotPage_setPage_of_ne (show q ≠ sp.noted.pageBase from hkey ▸ hne)
  · rw [if_neg hnew]
    have hnoted : sp.noted.pageBase = page := hkey
    refine pageUpdated_setPage h hnoted ?_
    show (sp.isNonePte || sp.inDirtyList) = sp.inDirtyList
    cases hn : sp.isNonePte <;> cases hq : sp.inDirtyList <;> simp_all

/-- A new entry for a page that gets its page-table entry. -/
def SnapshotPage.onDemand (page : Nat) : SnapshotPage := (SnapshotPage.blank page none false).setNonePte.noted

/-- The entry of a page after `page_add_new_anon_rmap_hook`. -/
def TaskData.notedEntry (d : TaskData) (page : Nat) : Option SnapshotPage :=
  match d.getSnapshotPage page with
  | some sp => some sp.noted
  | none => if d.isSnapshottedAddress page then some (.onDemand page) else none

/-- `page_add_new_anon_rmap_hook` notes the page-table entry, and makes an entry for a page of the snapshot that has
    none; without memory for it, it fails. -/
theorem pageAddNewAnonRmap_spec (d : TaskData) (page : Nat) (alloc : Bool) :
    (∃ d', d.pageAddNewAnonRmap page alloc = some d' ∧ PageUpdated d page (d.notedEntry page) d') ∨
    alloc = false ∧ d.pageAddNewAnonRmap page alloc = none := by
  unfold TaskData.pageAddNewAnonRmap TaskData.notedEntry
  cases hget : d.getSnapshotPage page with
  | some sp => exact Or.inl ⟨_, rfl, notePte_spec hget⟩
  | none =>
    cases hin : d.isSnapshottedAddress page with
    | false =>
      have hrefl := PageUpdated.refl d page
      rw [hget] at hrefl
      exact Or.inl ⟨d, rfl, hrefl⟩
    | true =>
      cases alloc with
      | false => exact Or.inr ⟨rfl, by simp [TaskData.addSnapshotPage]⟩
      | true =>
        refine Or.inl ⟨_, rfl, ?_⟩
        show PageUpdated d page (some (.onDemand page))
          ((((d.hashAdd (.blank page none false)).setPage (SnapshotPage.blank page none false).setNonePte).setPage
            (.onDemand page)).addDirty page)
        refine pageUpdated_enqueue (fun sp h => ?_) rfl
          (((sameButPages_hashAdd.trans sameButPages_setPage).trans sameButPages_setPage).trans sameButPages_addDirty)
          (fun hu => (hu.hashAdd hget).setPage.setPage.addDirty) (fun q hne => ?_) ?_ rfl
        · rw [hget] at h
          cases h
        · rw [getSnapshotPage_addDirty, getSnapshotPage_setPage_of_ne (show q ≠ (SnapshotPage.onDemand page).pageBase from hne),
            getSnapshotPage_setPage_of_ne hne, getSnapshotPage_hashAdd]
          exact if_neg hne.symm
        · have h₁ : (d.hashAdd (.blank page none false)).getSnapshotPage page = some (.blank page none false) := by
            rw [getSnapshotPage_hashAdd]
            exact if_pos rfl
          have h₂ : ((d.hashAdd (.blank page none false)).setPage
              (SnapshotPage.blank page none false).setNonePte).getSnapshotPage page = some _ :=
            getSnapshotPage_setPage_self h₁ rfl
          exact getSnapshotPage_setPage_self h₂ rfl

/-! ### The pages of an unmapped range -/

/-- `record_dirty_page` for all pages of a list. -/
structure PagesRecorded (d : TaskData) (original : Nat → Page) (alloc : Nat → Bool) (addrs : List Nat)
    (d' : TaskData) : Prop where
  same : SameButPages d d'
  entry : ∀ q, d'.getSnapshotPage q = if q ∈ addrs then
    (d.getSnapshotPage q).map fun sp => sp.recorded (original q) (alloc q) else d.getSnapshotPage q
  queued : d.Queued → d'.Queued
  unique : d.Unique → d'.Unique

theorem recorded_recorded (original : Page) (alloc : Bool) :
    (sp.recorded original alloc).recorded original alloc = sp.recorded original alloc := by
  have hskip : ∀ sp' : SnapshotPage, (sp'.dirty || sp'.isNonePte) = true → sp'.recorded original alloc = sp' :=
    fun sp' h => by rw [SnapshotPage.recorded, if_pos h]
  refine hskip _ ?_
  unfold SnapshotPage.recorded
  split
  · assumption
  · split
    · rfl
    · split <;> rfl

theorem recordDirtyPages_spec (d : TaskData) (original : Nat → Page) (alloc : Nat → Bool) (addrs : List Nat) :
    PagesRecorded d original alloc addrs (d.recordDirtyPages original alloc addrs) := by
  induction addrs generalizing d with
  | nil => exact ⟨.refl d, fun q => by simp [TaskData.recordDirtyPages], id, id⟩
  | cons a addrs ih =>
    obtain ⟨hupd, -⟩ := recordDirtyPage_spec d a (original a) (alloc a)
    obtain ⟨hsame, hentry, hqueued, hunique⟩ := ih (d.recordDirtyPage a (original a) (alloc a)).1
    refine ⟨hupd.same.trans hsame, fun q => ?_, fun hd => hqueued (hupd.queued hd), fun hu => hunique (hupd.unique hu)⟩
    rw [TaskData.recordDirtyPages, List.foldl_cons]
    refine (hentry q).trans ?_
    by_cases hqa : q = a
    · subst hqa
      rw [hupd.entry, if_pos List.mem_cons_self]
      split
      · rw [Option.map_map]
        exact congrArg (fun f => Option.map f _) (funext fun sp => recorded_recorded ..)
      · rfl
    · rw [hupd.others q hqa]
      simp [hqa]

end

/-! ### The registry -/

/-- `reg'` is `reg` after a hook: the caches and at most the entries of one record, chosen by `o`, differ. -/
structure Registry.Touched (reg : Registry) (o : Option Nat) (R : TaskData → TaskData → Prop) (reg' : Registry) : Prop where
  taskDataList : reg'.taskDataList = reg.taskDataList
  fresh : reg'.fresh = reg.fresh
  rcu : reg'.rcu = reg.rcu
  coherent : reg'.Coherent
  live : ∀ t, reg'.live t = reg.live t
  caches : reg.CachesFrom reg'
  others : ∀ id, o ≠ some id → reg'.data id = reg.data id
  data : ∀ id, o = some id → R (reg.data id) (reg'.data id)

/-- A record whose entries for other pages are as before. -/
structure OnlyPage (page : Nat) (d d' : TaskData) : Prop where
  same : SameButPages d d'
  others : ∀ q, q ≠ page → d'.getSnapshotPage q = d.getSnapshotPage q
  queued : d.Queued → d'.Queued
  unique : d.Unique → d'.Unique

theorem PageUpdated.onlyPage {d d' : TaskData} {page : Nat} {o : Option SnapshotPage} (h : PageUpdated d page o d') :
    OnlyPage page d d' := ⟨h.same, h.others, h.queued, h.unique⟩

theorem OnlyPage.refl (page : Nat) (d : TaskData) : OnlyPage page d d := ⟨.refl d, fun _ _ => rfl, fun h => h, fun h => h⟩

theorem OnlyPage.trans {page : Nat} {d₁ d₂ d₃ : TaskData} (h₁ : OnlyPage page d₁ d₂) (h₂ : OnlyPage page d₂ d₃) :
    OnlyPage page d₁ d₃ where
  same := h₁.same.trans h₂.same
  others q hq := (h₂.others q hq).trans (h₁.others q hq)
  queued h := h₂.queued (h₁.queued h)
  unique h := h₂.unique (h₁.unique h)

section
variable {env : Env} {m page start len : Nat} {c c' : Core} {R R' : TaskData → TaskData → Prop} {id : Nat}

theorem Registry.Touched.refl {reg : Registry} (h : reg.Coherent) (o : Option Nat) (hR : ∀ d, R d d) : reg.Touched o R reg :=
  ⟨rfl, rfl, rfl, h, fun _ => rfl, .refl reg, fun _ _ => rfl, fun _ _ => hR _⟩

theorem Registry.Touched.mono {reg reg' : Registry} {o : Option Nat} (h : reg.Touched o R reg')
    (hR : ∀ id, o = some id → R (reg.data id) (reg'.data id) → R' (reg.data id) (reg'.data id)) :
    reg.Touched o R' reg' where
  taskDataList := h.taskDataList
  fresh := h.fresh
  rcu := h.rcu
  coherent := h.coherent
  live := h.live
  caches := h.caches
  others := h.others
  data id hid := hR id hid (h.data id hid)

theorem Registry.Touched.trans {reg₁ reg₂ reg₃ : Registry} {o : Option Nat} (h₁ : reg₁.Touched o R reg₂)
    (h₂ : reg₂.Touched o R' reg₃) : reg₁.Touched o (fun d d' => ∃ d₁, R d d₁ ∧ R' d₁ d') reg₃ where
  taskDataList := h₂.taskDataList.trans h₁.taskDataList
  fresh := h₂.fresh.trans h₁.fresh
  rcu := h₂.rcu.trans h₁.rcu
  coherent := h₂.coherent
  live t := (h₂.live t).trans (h₁.live t)
  caches := h₁.caches.trans h₂.caches h₁.taskDataList
  others id hid := (h₂.others id hid).trans (h₁.others id hid)
  data id hid := ⟨_, h₁.data id hid, h₂.data id hid⟩

theorem LookedUp.touched (h : LookedUp c c') {o : Option Nat} (hR : ∀ id, o = some id → R (c.reg.data id) (c.reg.data id)) :
    c.reg.Touched o R c'.reg where
  taskDataList := by rw [h.reg]
  fresh := by rw [h.reg]
  rcu := by rw [h.reg]
  coherent := h.coherent
  live _ := h.reg.live
  caches := h.caches
  others _ _ := by rw [h.reg.data]
  data id hid := by
    rw [h.reg.data]
    exact hR id hid

theorem LookedUp.touched_setData (h : LookedUp c c') {d : TaskData} (hmade : (c.reg.data id).haveSnapshot = true)
    (hd : SameButPages (c.reg.data id) d) (hR : R (c.reg.data id) d) : c.reg.Touched (some id) R (c'.reg.setData id d) := by
  have hdata : c'.reg.data = c.reg.data := h.reg.data
  have htsk : d.tsk = (c'.reg.data id).tsk := by rw [hd, hdata]
  have hlive : d.haveSnapshot = (c'.reg.data id).haveSnapshot := by rw [hd, hdata]; rfl
  have hlive' : (c'.reg.data id).haveSnapshot = true := hdata ▸ hmade
  refine ⟨?_, ?_, ?_, h.coherent.setData htsk hlive fun hnot => absurd (hlive'.symm.trans hnot) (by simp), fun t => ?_,
    h.caches, fun i hi => ?_, fun i hi => ?_⟩
  · show c'.reg.taskDataList = _
    rw [h.reg]
  · show c'.reg.fresh = _
    rw [h.reg]
  · show c'.reg.rcu = _
    rw [h.reg]
  · rw [(setData_live htsk hlive).2, h.reg.live]
  · rw [setData_of_ne fun he => hi (by rw [he]), hdata]
  · obtain rfl : id = i := Option.some.inj hi
    rw [setData_same]
    exact hR

/-- A registry after `do_wp_page_hook` for a page. -/
def Core.Recorded (env : Env) (m page : Nat) (c : Core) (reg' : Registry) : Prop :=
  c.reg.Touched (c.reg.live (c.mem.mm m).owner) (fun d d' => PageUpdated d page ((d.getSnapshotPage page).map
    fun sp => sp.recorded (c.mem.frame ((c.mem.mm m).pte page).pfn).data (env.pageData page)) d') reg'

theorem Core.Recorded.onlyPage {reg' : Registry} (h : c.Recorded env m page reg') :
    c.reg.Touched (c.reg.live (c.mem.mm m).owner) (OnlyPage page) reg' := h.mono fun _ _ => PageUpdated.onlyPage

/-- A registry after `page_add_new_anon_rmap_hook` for a page. -/
def Core.Noted (env : Env) (m page : Nat) (c : Core) (reg' : Registry) : Prop :=
  c.reg.Touched (c.reg.live (c.mem.mm m).owner) (fun d d' => PageUpdated d page (d.notedEntry page) d' ∨
    env.snapshotPage page = false ∧ d' = d) reg'

theorem Core.Noted.onlyPage {reg' : Registry} (h : c.Noted env m page reg') :
    c.reg.Touched (c.reg.live (c.mem.mm m).owner) (OnlyPage page) reg' := h.mono fun _ _ hR => by
  rcases hR with hupd | ⟨-, heq⟩
  · exact hupd.onlyPage
  · rw [heq]
    exact .refl page _

variable (env m page) in
/-- `do_wp_page_hook` records the page. It makes the entry writable where the page was recorded, clean and private. -/
theorem doWpPageHook_spec (h : c.reg.Coherent) :
    c.Recorded env m page (c.doWpPageHook env m page).1.reg ∧
    (c.doWpPageHook env m page).1.oops = c.oops ∧
    ((c.doWpPageHook env m page).2 = false ∧ (c.doWpPageHook env m page).1.mem = c.mem ∨
      (c.doWpPageHook env m page).2 = true ∧
      (c.doWpPageHook env m page).1.mem = c.mem.setPte m page ((c.mem.mm m).pte page).mkwrite ∧
      ∃ id sp, c.reg.live (c.mem.mm m).owner = some id ∧ (c.reg.data id).getSnapshotPage page = some sp ∧
        sp.dirty = false ∧ sp.isNonePte = false ∧ sp.isPrivate = true) := by
  obtain ⟨hup, hlive⟩ := ownerLive_spec env m h
  unfold Core.Recorded Core.doWpPageHook
  rcases hc : c.ownerLive env m with ⟨c₁, o⟩
  rw [hc] at hup hlive
  have hlive : o = c.reg.live (c.mem.mm m).owner := hlive
  have hmem : c₁.mem = c.mem := hup.mem
  have hdata : c₁.reg.data = c.reg.data := hup.reg.data
  rw [← hlive]
  cases o with
  | none => exact ⟨hup.touched (by simp), hup.oops, Or.inl ⟨rfl, hmem⟩⟩
  | some id =>
    obtain ⟨hupd, hres⟩ := recordDirtyPage_spec (c.reg.data id) page
      (c.mem.frame ((c.mem.mm m).pte page).pfn).data (env.pageData page)
    have htouched := hup.touched_setData (R := fun d d' => PageUpdated d page ((d.getSnapshotPage page).map
      fun sp => sp.recorded (c.mem.frame ((c.mem.mm m).pte page).pfn).data (env.pageData page)) d') (live_eq_some.mp hlive.symm).2
      hupd.same hupd
    dsimp only
    rw [hmem, hdata]
    rcases hr : (c.reg.data id).recordDirtyPage page (c.mem.frame ((c.mem.mm m).pte page).pfn).data
      (env.pageData page) with ⟨d', r⟩
    rw [hr] at htouched hres
    cases r with
    | none => exact ⟨htouched, hup.oops, Or.inl ⟨rfl, rfl⟩⟩
    | some sp' =>
      have hres : some sp' = _ := hres
      cases hpriv : sp'.isPrivate with
      | false =>
        simp only [hpriv]
        exact ⟨htouched, hup.oops, Or.inl ⟨rfl, rfl⟩⟩
      | true =>
        simp only [hpriv]
        refine ⟨htouched, hup.oops, Or.inr ⟨rfl, rfl, id, ?_⟩⟩
        obtain ⟨sp, hsp, hsome⟩ := Option.bind_eq_some_iff.mp hres.symm
        by_cases hskip : (sp.dirty || sp.isNonePte) = true
        · rw [if_pos hskip] at hsome
          cases hsome
        · rw [if_neg hskip] at hsome
          obtain ⟨hd, hn⟩ : sp.dirty = false ∧ sp.isNonePte = false := by simpa using hskip
          refine ⟨sp, rfl, hsp, hd, hn, ?_⟩
          split at hsome
          · obtain rfl := Option.some.inj hsome
            rw [← hpriv]
            unfold SnapshotPage.recorded
            split
            · rfl
            · split
              · rfl
              · split <;> rfl
          · cases hsome

variable (env m page) in
/-- `page_add_new_anon_rmap_hook` notes the page. -/
theorem pageAddNewAnonRmapHook_spec (h : c.reg.Coherent) :
    c.Noted env m page (c.pageAddNewAnonRmapHook env m page).reg ∧
    (c.pageAddNewAnonRmapHook env m page).mem = c.mem ∧
    (env.snapshotPage page = true → (c.pageAddNewAnonRmapHook env m page).oops = c.oops) := by
  obtain ⟨hup, hlive⟩ := ownerLive_spec env m h
  unfold Core.Noted Core.pageAddNewAnonRmapHook
  rcases hc : c.ownerLive env m with ⟨c₁, o⟩
  rw [hc] at hup hlive
  have hlive : o = c.reg.live (c.mem.mm m).owner := hlive
  have hdata : c₁.reg.data = c.reg.data := hup.reg.data
  rw [← hlive]
  cases o with
  | none => exact ⟨hup.touched (by simp), hup.mem, fun _ => hup.oops⟩
  | some id =>
    dsimp only
    rw [hdata]
    rcases pageAddNewAnonRmap_spec (c.reg.data id) page (env.snapshotPage page) with ⟨d', hd', hupd⟩ | ⟨halloc, hnone⟩
    · rw [hd']
      exact ⟨hup.touched_setData (live_eq_some.mp hlive.symm).2 hupd.same (Or.inl hupd), hup.mem, fun _ => hup.oops⟩
    · rw [hnone]
      refine ⟨hup.touched fun i _ => Or.inr ⟨halloc, rfl⟩, hup.mem, fun hok => ?_⟩
      rw [halloc] at hok
      cases hok

variable (env m start len) in
/-- `__do_munmap_hook` records the pages of the range. -/
theorem doMunmapHook_spec (h : c.reg.Coherent) :
    c.reg.Touched (c.reg.live (c.mem.mm m).owner) (fun d d' => PagesRecorded d
        (fun addr => (c.mem.frame ((c.mem.mm m).pte addr).pfn).data) env.pageData
        (walkPageRange (c.mem.mm m) start (start + len)) d') (c.doMunmapHook env m start len).reg ∧
    (c.doMunmapHook env m start len).mem = c.mem ∧ (c.doMunmapHook env m start len).oops = c.oops := by
  obtain ⟨hup, hlive⟩ := ownerLive_spec env m h
  unfold Core.doMunmapHook
  rcases hc : c.ownerLive env m with ⟨c₁, o⟩
  rw [hc] at hup hlive
  have hlive : o = c.reg.live (c.mem.mm m).owner := hlive
  have hmem : c₁.mem = c.mem := hup.mem
  have hdata : c₁.reg.data = c.reg.data := hup.reg.data
  rw [← hlive]
  cases o with
  | none => exact ⟨hup.touched (by simp), hmem, hup.oops⟩
  | some id =>
    dsimp only
    rw [hmem, hdata]
    have hrec := recordDirtyPages_spec (c.reg.data id) (fun addr => (c.mem.frame ((c.mem.mm m).pte addr).pfn).data)
      env.pageData (walkPageRange (c.mem.mm m) start (start + len))
    exact ⟨hup.touched_setData (live_eq_some.mp hlive.symm).2 hrec.same hrec, rfl, hup.oops⟩

end
end AflSnapshot
