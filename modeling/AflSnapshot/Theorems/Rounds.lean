import AflSnapshot.Theorems.Restoring

/-! # One round of a restore

A round of the loop of `recover_memory_snapshot`, whatever the entry of its page says: a page that was saved is copied to
(`copyToUser_cases`), and then the page is settled (`recoverEntry_cases`). -/

namespace AflSnapshot

/-- The page-table entry of a page is replaced, and its entry in the record `id` is changed. -/
structure Core.Settles (m id page : Nat) (x : Pte) (g : SnapshotPage → SnapshotPage) (c c' : Core) : Prop where
  mem : c'.mem = c.mem.setPte m page x
  data : ∃ d', c'.reg = c.reg.setData id d' ∧ SameButPages (c.reg.data id) d' ∧
    (∀ q, q ≠ page → d'.getSnapshotPage q = (c.reg.data id).getSnapshotPage q) ∧
    d'.getSnapshotPage page = ((c.reg.data id).getSnapshotPage page).map g

/-- The entry of a page whose tables are gone when it is written back. -/
def SnapshotPage.cleared (sp : SnapshotPage) : SnapshotPage := { sp with dirty := false, hasHadPte := true }

section
variable {env : Env} {c c' : Core} {m id page q : Nat} {sp : SnapshotPage} {x : Pte} {g : SnapshotPage → SnapshotPage}
  {v : VmArea} {d' : TaskData}

theorem Settled.settles (h : Settled (c.reg.data id) page (((c.reg.data id).getSnapshotPage page).map g) d')
    (hmem : c'.mem = c.mem.setPte m page x) (hreg : c'.reg = c.reg.setData id d') : c.Settles m id page x g c' :=
  ⟨hmem, d', hreg, h.same, h.others, h.entry⟩

theorem Core.Settles.entry (h : c.Settles m id page x g c') :
    (c'.reg.data id).getSnapshotPage page = ((c.reg.data id).getSnapshotPage page).map g := by
  obtain ⟨d', hreg, -, -, hentry⟩ := h.data
  rw [hreg, setData_same, hentry]

theorem Core.Settles.frame (h : c.Settles m id page x g c') : c'.mem.frame = c.mem.frame := by
  rw [h.mem]
  rfl

/-! ### The copy -/

theorem Fault.writable {c' : Core} (h : Fault env m page c v c') : ∃ f, (c'.mem.mm m).pte page = .present f true := by
  cases h with
  | ready hpte => exact ⟨_, hpte⟩
  | mkwrite _ _ _ hmem => exact ⟨_, by rw [hmem, mm_setPte_self, pte_setPte_self]⟩
  | copied _ _ _ _ _ hmem => exact ⟨_, by rw [hmem, mm_setPte_self, pte_setPte_self]⟩
  | mapped _ _ hmem => exact ⟨_, by rw [hmem, mm_setPte_self, pte_setPte_self]⟩
  | fresh _ _ _ hmem => exact ⟨_, by rw [hmem, mm_setPte_self, pte_setPte_self]⟩

/-- The copy to a page: the fault of a write, and the bytes. -/
structure CopyDone (env : Env) (m page : Nat) (data : Page) (c c' : Core) (v : VmArea) (c₁ : Core) (f : Nat) : Prop where
  vma : (c.mem.mm m).vmaAt page = some v
  writable : v.writable = true
  fault : c.writeFault env m page = some c₁
  cases : Fault env m page c v c₁
  pte : (c₁.mem.mm m).pte page = .present f true
  stored : c' = c₁.setMem (c₁.mem.setFrame f { c₁.mem.frame f with data := data })

/-- `copy_to_user` fails, or copies all. -/
theorem copyToUser_cases (hc : c.reg.Coherent) (data : Page) :
    ((env.copyToUser page = false ∨ ∀ v, (c.mem.mm m).vmaAt page = some v → v.writable = false) ∧
      (c.copyToUser env m page data).1 = c) ∨
    env.copyToUser page = true ∧ ∃ v c₁ f, CopyDone env m page data c (c.copyToUser env m page data).1 v c₁ f := by
  unfold Core.copyToUser
  by_cases hcall : env.copyToUser page = true
  swap
  · rw [if_neg hcall]
    exact Or.inl ⟨Or.inl (by simpa using hcall), rfl⟩
  rw [if_pos hcall]
  cases hf : c.writeFault env m page with
  | none =>
    refine Or.inl ⟨Or.inr fun v hv => ?_, rfl⟩
    by_contra hw
    obtain ⟨c₁, hc₁⟩ := writeFault_isSome env hv (by simpa using hw)
    rw [hf] at hc₁
    cases hc₁
  | some c₁ =>
    obtain ⟨v, hv, hw, hcase⟩ := fault_cases hc hf
    obtain ⟨f, hpte⟩ := hcase.writable
    exact Or.inr ⟨hcall, v, c₁, f, hv, hw, hf, hcase, hpte, store_eq (g := fun _ => data) hpte⟩

/-! ### The page comes to rest -/

variable (env id) in
theorem recoverPage_cases (hkey : sp.pageBase = page) {c₁ : Core}
    (hcopy : (c.copyToUser env m page (sp.pageData.getD fun _ => 0)).1 = c₁) :
    (c₁.mem.mm m).slot page = true ∧
      c₁.Settles m id page ((c₁.mem.mm m).pte page).wrprotect SnapshotPage.writtenBack (c.recoverPage env m id sp) ∨
    (c₁.mem.mm m).slot page = false ∧
      c₁.Settles m id page ((c₁.mem.mm m).pte page) SnapshotPage.cleared (c.recoverPage env m id sp) := by
  cases hslot : (c₁.mem.mm m).slot page with
  | true =>
    obtain ⟨hmem, hreg⟩ := recoverPage_eq env id hkey hcopy hslot
    exact Or.inl ⟨rfl, (settled_writtenBack _ page).settles hmem hreg⟩
  | false =>
    have heq : c.recoverPage env m id sp = c₁.modifyData id fun d => d.modifyPage page SnapshotPage.cleared := by
      subst hkey hcopy
      exact if_neg (by rw [← Bool.not_eq_true] at hslot; exact hslot)
    have hentry : ∀ q, ((c₁.reg.data id).modifyPage page SnapshotPage.cleared).getSnapshotPage q =
        if q = page then ((c₁.reg.data id).getSnapshotPage q).map SnapshotPage.cleared
        else (c₁.reg.data id).getSnapshotPage q := fun q =>
      getSnapshotPage_modifyPage (f := SnapshotPage.cleared) fun _ => rfl
    refine Or.inr ⟨rfl, ?_, (c₁.reg.data id).modifyPage page SnapshotPage.cleared, ?_, sameButPages_modifyPage, fun q hq => ?_, ?_⟩
    · rw [heq, setPte_same]
      rfl
    · rw [heq]
      rfl
    · rw [hentry, if_neg hq]
    · rw [hentry, if_pos rfl]

theorem settles_dequeue (c : Core) (m id page : Nat) :
    c.Settles m id page ((c.mem.mm m).pte page) SnapshotPage.leaveDirtyList (c.dequeue id page) := by
  have hset : Settled (c.reg.data id) page (((c.reg.data id).getSnapshotPage page).map SnapshotPage.leaveDirtyList)
      (((c.reg.data id).modifyPage page SnapshotPage.leaveDirtyList).delDirty page) :=
    settled_dequeue (f := fun sp => sp) (fun q => by split <;> simp) (.refl _) rfl fun hu => hu
  exact hset.settles (setPte_same c.mem).symm rfl

variable (env) in
/-- A round for a page that has an entry. -/
theorem recoverEntry_cases (hok : (c.mem.mm m).Ok) (hsp : (c.reg.data id).getSnapshotPage page = some sp) :
    sp.dirty = true ∧ sp.hasBeenCopied = true ∧ c.recoverEntry env m id page = c.recoverPage env m id sp ∨
    ¬(sp.dirty = true ∧ sp.hasBeenCopied = true) ∧
      (c.Settles m id page ((c.mem.mm m).pte page) SnapshotPage.leaveDirtyList (c.recoverEntry env m id page) ∨
        sp.isPrivate = false ∧ sp.isNonePte = true ∧ sp.hasHadPte = true ∧
          c.Settles m id page .none SnapshotPage.emptied (c.recoverEntry env m id page)) := by
  unfold Core.recoverEntry
  rw [hsp]
  dsimp only
  split
  · rename_i hflags
    rw [Bool.and_eq_true] at hflags
    exact Or.inl ⟨hflags.1, hflags.2, rfl⟩
  rename_i hflags
  rw [Bool.and_eq_true] at hflags
  refine Or.inr ⟨hflags, ?_⟩
  split
  · exact Or.inl (settles_dequeue c m id page)
  rename_i hpriv
  split
  · rename_i hnone
    rw [Bool.and_eq_true] at hnone
    obtain ⟨hmem, hreg⟩ := recoverNonePte_eq id page hok
    exact Or.inr ⟨by simpa using hpriv, hnone.1, hnone.2, (settled_emptied _ page).settles hmem hreg⟩
  · exact Or.inl (settles_dequeue c m id page)

/-- Nothing is left in the entry that is to be written back. -/
theorem Core.Settles.done (h : c.Settles m id page x g c') (hg : ∀ sp : SnapshotPage, (c.reg.data id).getSnapshotPage page = some sp →
    ¬((g sp).dirty = true ∧ (g sp).hasBeenCopied = true)) {sp' : SnapshotPage}
    (hsp' : (c'.reg.data id).getSnapshotPage page = some sp') : ¬(sp'.dirty = true ∧ sp'.hasBeenCopied = true) := by
  rw [h.entry] at hsp'
  obtain ⟨sp, hsp, rfl⟩ := Option.map_eq_some_iff.mp hsp'
  exact hg sp hsp

end
end AflSnapshot
