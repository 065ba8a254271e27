import AflSnapshot.Ranges

/-! The entries of a snapshot: the functions of `memory.c` that look up, make, record and queue the
snapshot's pages, for one `task_data`. An entry is read, changed and stored back under its page.

An argument `alloc` says whether the allocation that the function may make succeeds. -/

namespace AflSnapshot

namespace TaskData
variable (data : TaskData)

/-! ### The table and the dirty list -/

def getSnapshotPage (page : Nat) : Option SnapshotPage :=
  Keyed.get SnapshotPage.pageBase data.ss.ssPages page

/-- Store an entry of the table back. -/
def setPage (sp : SnapshotPage) : TaskData :=
  { data with ss := { data.ss with
      ssPages := Keyed.modify SnapshotPage.pageBase data.ss.ssPages sp.pageBase fun _ => sp } }

/-- Change the entry of a page where it is. -/
def modifyPage (page : Nat) (f : SnapshotPage → SnapshotPage) : TaskData :=
  { data with ss := { data.ss with ssPages := Keyed.modify SnapshotPage.pageBase data.ss.ssPages page f } }

/-- `hash_add`. -/
def hashAdd (sp : SnapshotPage) : TaskData :=
  { data with ss := { data.ss with ssPages := sp :: data.ss.ssPages } }

/-- `list_add_tail(&sp->dirty_list, &data->ss.dirty_pages)`. -/
def addDirty (page : Nat) : TaskData :=
  { data with ss := { data.ss with dirtyPages := data.ss.dirtyPages ++ [page] } }

/-- `list_del(&sp->dirty_list)`. -/
def delDirty (page : Nat) : TaskData :=
  { data with ss := { data.ss with dirtyPages := data.ss.dirtyPages.erase page } }

def isSnapshottedAddress (page : Nat) : Bool := go data.ss.snapshottedVmas
where
  go : List SnapshotVma → Bool
    | [] => false
    | v :: l =>
      if v.vmStart ≤ page ∧ page < v.vmEnd then true
      else if v.vmStart > page then false
      else go l

/-! ### Making and recording entries -/

/-- `add_snapshot_page`; no result when the entry cannot be allocated. -/
def addSnapshotPage (page : Nat) (attemptReuse alloc : Bool) : Option (TaskData × SnapshotPage) :=
  match if attemptReuse then data.getSnapshotPage page else none with
  | some sp =>
    let sp := { sp with pageProt := ⟨false, false, false⟩, hasBeenCopied := false, dirty := false,
                        inDirtyList := false }
    some (data.setPage sp, sp)
  | none =>
    if alloc then
      -- `kmalloc` leaves `has_had_pte` unset; every caller sets it.
      let sp := { pageBase := page, pageProt := ⟨false, false, false⟩, pageData := none,
                  hasBeenCopied := false, hasHadPte := false, dirty := false, inDirtyList := false }
      some (data.hashAdd sp, sp)
    else none

/-- `make_snapshot_page`. -/
def makeSnapshotPage (mm : Mm) (addr : Nat) (alloc : Bool) : (TaskData × Mm) × Int :=
  match data.addSnapshotPage addr true alloc with
  | none => ((data, mm), -12)
  | some (data, sp) =>
    let pte := mm.pte addr
    if pte.isNone then ((data.setPage ({ sp with hasHadPte := false } : SnapshotPage).setNonePte, mm), 0)
    else if pte.write then
      ((data.setPage ({ sp with hasHadPte := true } : SnapshotPage).setPrivate, mm.setPte addr pte.wrprotect), 0)
    else ((data.setPage ({ sp with hasHadPte := true } : SnapshotPage).setCow, mm), 0)

/-- `record_dirty_page`; `original` are the bytes of the frame in the given page-table entry. -/
def recordDirtyPage (page : Nat) (original : Page) (alloc : Bool) : TaskData × Option SnapshotPage :=
  match data.getSnapshotPage page with
  | none => (data, none)
  | some sp =>
    if sp.dirty || sp.isNonePte then (data, none)
    else
      let data := if sp.inDirtyList then data else data.addDirty page
      let sp := { sp with dirty := true, inDirtyList := true }
      if sp.hasBeenCopied then (data.setPage sp, some sp)
      else if sp.pageData.isSome || alloc then
        let sp := { sp with pageData := some original, hasBeenCopied := true }
        (data.setPage sp, some sp)
      else (data.setPage sp, none)

/-- The end of `page_add_new_anon_rmap_hook`: the page has a page-table entry now. -/
def notePte (sp : SnapshotPage) : TaskData :=
  let sp := { sp with hasHadPte := true }
  if sp.isNonePte && !sp.inDirtyList then
    (data.setPage { sp with inDirtyList := true }).addDirty sp.pageBase
  else data.setPage sp

/-- `page_add_new_anon_rmap_hook` for a task with a live snapshot. No result where the entry cannot be
    allocated: the hook then writes through a null pointer. -/
def pageAddNewAnonRmap (page : Nat) (alloc : Bool) : Option TaskData :=
  match data.getSnapshotPage page with
  | some sp => some (data.notePte sp)
  | none =>
    if data.isSnapshottedAddress page then
      match data.addSnapshotPage page false alloc with
      | none => none
      | some (data, sp) => some ((data.setPage sp.setNonePte).notePte sp.setNonePte)
    else some data

/-- What `add_snapshot_vma` fills in. `garbage` is what the allocated memory holds in `prot`, which is only
    or-ed to. -/
def snapshotVmaOf (vma : VmArea) (garbage : Nat) : SnapshotVma where
  vmStart := vma.vmStart
  vmEnd := vma.vmEnd
  isAnonymousPrivate := vma.isAnonymous && !vma.shared
  -- `vma->vm_flags | VM_READ ? PROT_READ : 0`
  prot := garbage ||| (if vma.vmFlags ||| vmRead ≠ 0 then protRead else 0) |||
    (if vma.vmFlags ||| vmWrite ≠ 0 then protWrite else 0) |||
    (if vma.vmFlags ||| vmExec ≠ 0 then protExec else 0)

/-- `add_snapshot_vma`. -/
def addSnapshotVma (vma : VmArea) (garbage : Nat) (alloc : Bool) : Option (TaskData × SnapshotVma) :=
  if alloc then
    let ssVma := snapshotVmaOf vma garbage
    some ({ data with ss := { data.ss with allVmas := data.ss.allVmas ++ [ssVma] } }, ssVma)
  else none

end TaskData

/-! ### What the functions change -/

section
variable {data : TaskData} {sp : SnapshotPage} {page q : Nat}

/-- `data'` is `data` but for its table and its dirty list. -/
def SameButPages (data data' : TaskData) : Prop :=
  data' = { data with ss := { data.ss with ssPages := data'.ss.ssPages, dirtyPages := data'.ss.dirtyPages } }

theorem SameButPages.refl (data : TaskData) : SameButPages data data := rfl

theorem SameButPages.trans {d₁ d₂ d₃ : TaskData} (h₁ : SameButPages d₁ d₂) (h₂ : SameButPages d₂ d₃) :
    SameButPages d₁ d₃ := by
  unfold SameButPages at h₁ h₂ ⊢
  rw [h₂, h₁]

theorem SameButPages.symm {d₁ d₂ : TaskData} (h : SameButPages d₁ d₂) : SameButPages d₂ d₁ := by
  unfold SameButPages at h ⊢
  rw [h]

theorem SameButPages.allVmas {d₁ d₂ : TaskData} (h : SameButPages d₁ d₂) : d₂.ss.allVmas = d₁.ss.allVmas := by
  unfold SameButPages at h
  rw [h]

theorem getSnapshotPage_key (h : data.getSnapshotPage page = some sp) : sp.pageBase = page := Keyed.get_key h

theorem getSnapshotPage_setPage :
    (data.setPage sp).getSnapshotPage q =
      if q = sp.pageBase then (data.getSnapshotPage q).map fun _ => sp else data.getSnapshotPage q :=
  Keyed.get_modify fun _ _ => rfl

theorem getSnapshotPage_setPage_self {sp₀ : SnapshotPage} (h : data.getSnapshotPage page = some sp₀)
    (hsp : sp.pageBase = page) : (data.setPage sp).getSnapshotPage page = some sp := by
  rw [getSnapshotPage_setPage, if_pos hsp.symm, h, Option.map_some]

theorem getSnapshotPage_setPage_of_ne (h : q ≠ sp.pageBase) :
    (data.setPage sp).getSnapshotPage q = data.getSnapshotPage q := by
  rw [getSnapshotPage_setPage, if_neg h]

/-- A change of an entry that leaves it where it is. -/
theorem getSnapshotPage_modifyPage {f : SnapshotPage → SnapshotPage} (hf : ∀ sp, (f sp).pageBase = sp.pageBase) :
    (data.modifyPage page f).getSnapshotPage q =
      if q = page then (data.getSnapshotPage q).map f else data.getSnapshotPage q :=
  Keyed.get_modify fun sp h => (hf sp).trans h

theorem getSnapshotPage_hashAdd :
    (data.hashAdd sp).getSnapshotPage q = if sp.pageBase = q then some sp else data.getSnapshotPage q :=
  Keyed.get_cons

@[simp] theorem getSnapshotPage_addDirty : (data.addDirty page).getSnapshotPage q = data.getSnapshotPage q := rfl
@[simp] theorem getSnapshotPage_delDirty : (data.delDirty page).getSnapshotPage q = data.getSnapshotPage q := rfl
@[simp] theorem setPage_dirtyPages : (data.setPage sp).ss.dirtyPages = data.ss.dirtyPages := rfl
@[simp] theorem hashAdd_dirtyPages : (data.hashAdd sp).ss.dirtyPages = data.ss.dirtyPages := rfl

theorem sameButPages_setPage : SameButPages data (data.setPage sp) := rfl
theorem sameButPages_modifyPage {f : SnapshotPage → SnapshotPage} : SameButPages data (data.modifyPage page f) := rfl
theorem sameButPages_hashAdd : SameButPages data (data.hashAdd sp) := rfl
theorem sameButPages_addDirty : SameButPages data (data.addDirty page) := rfl
theorem sameButPages_delDirty : SameButPages data (data.delDirty page) := rfl

/-- The entry that `make_snapshot_page` makes of a page-table entry. -/
def SnapshotPage.ofPte (page : Nat) (pte : Pte) (pageData : Option Page) : SnapshotPage where
  pageBase := page
  pageProt := ⟨pte.write, !pte.isNone && !pte.write, pte.isNone⟩
  pageData := pageData
  hasBeenCopied := false
  hasHadPte := !pte.isNone
  dirty := false
  inDirtyList := false

/-- What an `add_snapshot_page` that goes through does. -/
structure PageAdded (data : TaskData) (page : Nat) (sp : SnapshotPage) (data' : TaskData) : Prop where
  same : SameButPages data data'
  dirtyPages : data'.ss.dirtyPages = data.ss.dirtyPages
  others : ∀ q, q ≠ page → data'.getSnapshotPage q = data.getSnapshotPage q
  entry : data'.getSnapshotPage page = some sp

theorem PageAdded.setPage {data' : TaskData} {sp' : SnapshotPage} (h : PageAdded data page sp data')
    (hsp : sp'.pageBase = page) : PageAdded data page sp' (data'.setPage sp') where
  same := h.same.trans sameButPages_setPage
  dirtyPages := h.dirtyPages
  others q hq := by rw [getSnapshotPage_setPage_of_ne (hsp ▸ hq), h.others q hq]
  entry := getSnapshotPage_setPage_self h.entry hsp

/-- An entry that was just set up: of what it was before it keeps the buffer and `has_had_pte`. -/
def SnapshotPage.blank (page : Nat) (pageData : Option Page) (hasHadPte : Bool) : SnapshotPage where
  pageBase := page
  pageProt := ⟨false, false, false⟩
  pageData := pageData
  hasBeenCopied := false
  hasHadPte := hasHadPte
  dirty := false
  inDirtyList := false

theorem addSnapshotPage_spec {attemptReuse alloc : Bool} {data' : TaskData}
    (h : data.addSnapshotPage page attemptReuse alloc = some (data', sp)) :
    PageAdded data page sp data' ∧ ∃ had, sp = .blank page
      (if attemptReuse then (data.getSnapshotPage page).bind SnapshotPage.pageData else none) had := by
  unfold TaskData.addSnapshotPage at h
  cases hold : if attemptReuse then data.getSnapshotPage page else none with
  | some old =>
    rw [hold] at h
    cases attemptReuse with
    | false => cases hold
    | true =>
      have hget : data.getSnapshotPage page = some old := hold
      have hkey : old.pageBase = page := getSnapshotPage_key hget
      cases h
      refine ⟨⟨rfl, rfl, fun q hq => ?_, getSnapshotPage_setPage_self hget hkey⟩, old.hasHadPte, ?_⟩
      · rw [getSnapshotPage_setPage, if_neg (hkey ▸ hq)]
      · simp [SnapshotPage.blank, hget, hkey]
  | none =>
    rw [hold] at h
    cases alloc with
    | false => cases h
    | true =>
      cases h
      refine ⟨⟨rfl, rfl, fun q hq => ?_, ?_⟩, false, ?_⟩
      · rw [getSnapshotPage_hashAdd, if_neg hq.symm]
      · rw [getSnapshotPage_hashAdd, if_pos rfl]
      · cases attemptReuse with
        | false => rfl
        | true =>
          have hget : data.getSnapshotPage page = none := hold
          simp [SnapshotPage.blank, hget]

theorem addSnapshotPage_eq_none {attemptReuse alloc : Bool} (h : data.addSnapshotPage page attemptReuse alloc = none) :
    alloc = false := by
  unfold TaskData.addSnapshotPage at h
  split at h
  · cases h
  · cases alloc with
    | false => rfl
    | true => cases h

/-- `make_snapshot_page` makes the entry that the page-table entry calls for and write-protects the latter, or
    cannot allocate and does nothing. -/
theorem makeSnapshotPage_spec (mm : Mm) (alloc : Bool) :
    (∃ data', PageAdded data page
        (.ofPte page (mm.pte page) ((data.getSnapshotPage page).bind SnapshotPage.pageData)) data' ∧
      data.makeSnapshotPage mm page alloc = ((data', mm.setPte page (mm.pte page).wrprotect), 0)) ∨
    (alloc = false ∧ data.makeSnapshotPage mm page alloc = ((data, mm), -12)) := by
  unfold TaskData.makeSnapshotPage
  cases hadd : data.addSnapshotPage page true alloc with
  | none => exact Or.inr ⟨addSnapshotPage_eq_none hadd, rfl⟩
  | some r =>
    obtain ⟨data', sp⟩ := r
    obtain ⟨hadded, had, rfl⟩ := addSnapshotPage_spec hadd
    have hsame : mm.setPte page (mm.pte page) = mm := by simp [Mm.setPte]
    refine Or.inl ?_
    cases hpte : mm.pte page with
    | none =>
      rw [hpte] at hsame
      refine ⟨_, hadded.setPage rfl, ?_⟩
      simp only [Pte.isNone, Pte.wrprotect, hsame]
      rfl
    | present f w =>
      cases w with
      | true => exact ⟨_, hadded.setPage rfl, rfl⟩
      | false =>
        rw [hpte] at hsame
        refine ⟨_, hadded.setPage rfl, ?_⟩
        simp only [Pte.isNone, Pte.write, Pte.wrprotect, hsame]
        rfl

theorem isSnapshottedAddress_congr {data' : TaskData} (h : SameButPages data data') :
    data'.isSnapshottedAddress page = data.isSnapshottedAddress page := by
  have : data'.ss.snapshottedVmas = data.ss.snapshottedVmas := by rw [h]
  simp only [TaskData.isSnapshottedAddress, this]

/-- The search with its early exit finds a range around the address where there is one, the ranges being in
    increasing order. -/
theorem isSnapshottedAddress_iff (h : Spans.Ordered data.ss.snapshottedVmas) :
    data.isSnapshottedAddress page = true ↔ Spans.Covers data.ss.snapshottedVmas page := by
  unfold TaskData.isSnapshottedAddress
  generalize data.ss.snapshottedVmas = l at h
  induction l with
  | nil => simp [TaskData.isSnapshottedAddress.go]
  | cons v l ih =>
    have hpos : v.vmStart < v.vmEnd := h.head_pos
    rw [TaskData.isSnapshottedAddress.go, Spans.covers_cons]
    by_cases hin : v.vmStart ≤ page ∧ page < v.vmEnd
    · rw [if_pos hin]
      exact iff_of_true rfl (Or.inl hin)
    · rw [if_neg hin]
      by_cases hgt : v.vmStart > page
      · rw [if_pos hgt]
        refine iff_of_false (by simp) ?_
        rintro (hv | ⟨w, hw, hlo, -⟩)
        · exact hin hv
        · -- The later ranges start above the address too.
          have : v.vmEnd ≤ w.vmStart := h.head_le hw
          have : w.vmStart ≤ page := hlo
          omega
      · rw [if_neg hgt, ih h.tail]
        exact ⟨Or.inr, fun hc => hc.resolve_left hin⟩

end
end AflSnapshot
