import AflSnapshot.Restore

/-! # Frames and page tables

`Memory.Sane` is what the kernel keeps of the memory of all processes: an entry lies in a mapping and has a slot,
and a frame that a private mapping may be written through is anonymous and mapped there only. The steps of the
kernel keep it, so the module's one way to break it is to make an entry writable itself. -/

namespace AflSnapshot

/-- An address space as the kernel keeps it. -/
structure Mm.Ok (mm : Mm) : Prop where
  vmas : VmasOk mm.freshVma mm.mmap
  pte : ∀ p f w, mm.pte p = .present f w → mm.slot p = true ∧ pageSize ∣ p ∧ Spans.Covers mm.mmap p

structure Memory.Sane (mem : Memory) : Prop where
  zero : zeroPfn < mem.freshPfn ∧ (mem.frame zeroPfn).anon = false
  cache : ∀ f p, mem.pageCache f p < mem.freshPfn ∧ (mem.frame (mem.pageCache f p)).anon = false
  mms : ∀ m, (mem.mm m).Ok
  pfn : ∀ m p f w, (mem.mm m).pte p = .present f w → f < mem.freshPfn
  excl : ∀ m p f v, (mem.mm m).pte p = .present f true → (mem.mm m).vmaAt p = some v → v.shared = false →
    mem.Exclusive m p f
  unused : ∀ m, mem.freshMm ≤ m → (mem.mm m).mmap = []

section
variable {mem mem' : Memory} {m m' p q page f g : Nat} {w : Bool} {x : Pte} {mm : Mm} {v : VmArea}

/-! ### Address spaces -/

theorem mm_setMm : (mem.setMm m mm).mm m' = if m' = m then mm else mem.mm m' := Function.update_apply ..

@[simp] theorem mm_setMm_self : (mem.setMm m mm).mm m = mm := Function.update_self ..

theorem mm_setMm_of_ne (h : m' ≠ m) : (mem.setMm m mm).mm m' = mem.mm m' := Function.update_of_ne h ..

theorem setMm_setMm (mem : Memory) (m : Nat) (mm mm' : Mm) : (mem.setMm m mm).setMm m mm' = mem.setMm m mm' := by
  simp [Memory.setMm]

theorem mm_setPte_of_ne (h : m' ≠ m) : (mem.setPte m page x).mm m' = mem.mm m' := mm_setMm_of_ne h

@[simp] theorem mm_setPte_self : (mem.setPte m page x).mm m = (mem.mm m).setPte page x := mm_setMm_self

theorem pte_setPte : (mm.setPte page x).pte q = if q = page then x else mm.pte q := Function.update_apply ..

@[simp] theorem pte_setPte_self : (mm.setPte page x).pte page = x := Function.update_self ..

theorem pte_setPte_of_ne (h : q ≠ page) : (mm.setPte page x).pte q = mm.pte q := Function.update_of_ne h ..

@[simp] theorem mmap_setPte : (mm.setPte page x).mmap = mm.mmap := rfl
@[simp] theorem brk_setPte : (mm.setPte page x).brk = mm.brk := rfl
@[simp] theorem slot_setPte : (mm.setPte page x).slot q = mm.slot q := rfl
@[simp] theorem vmaAt_setPte : (mm.setPte page x).vmaAt q = mm.vmaAt q := rfl
@[simp] theorem mmap_populate : (mm.populate page).mmap = mm.mmap := rfl
@[simp] theorem pte_populate : (mm.populate page).pte q = mm.pte q := rfl
@[simp] theorem vmaAt_populate : (mm.populate page).vmaAt q = mm.vmaAt q := rfl

theorem slot_populate_self : (mm.populate page).slot page = true := by
  simp [Mm.slot, Mm.populate, populateLevel]

theorem slot_populate (h : mm.slot q = true) : (mm.populate page).slot q = true := by
  simp only [Mm.slot, Mm.populate, populateLevel, Bool.and_eq_true, Bool.or_eq_true] at h ⊢
  obtain ⟨⟨⟨h1, h2⟩, h3⟩, h4⟩ := h
  exact ⟨⟨⟨Or.inr h1, Or.inr h2⟩, Or.inr h3⟩, Or.inr h4⟩

theorem covers_of_vmaAt (h : mm.vmaAt q = some v) : Spans.Covers mm.mmap q :=
  let ⟨hv, hin⟩ := Spans.find_mem h
  ⟨v, hv, hin⟩

theorem Mm.Ok.populate (h : mm.Ok) : (mm.populate page).Ok where
  vmas := h.vmas
  pte p f w hp := by
    obtain ⟨hs, hd, hc⟩ := h.pte p f w hp
    exact ⟨slot_populate hs, hd, hc⟩

theorem Mm.Ok.setPte (h : mm.Ok) (hx : ∀ f w, x = .present f w →
    mm.slot page = true ∧ pageSize ∣ page ∧ Spans.Covers mm.mmap page) : (mm.setPte page x).Ok where
  vmas := h.vmas
  pte p f w hp := by
    rw [pte_setPte] at hp
    split at hp
    · rename_i hpp
      rw [hpp]
      exact hx f w hp
    · exact h.pte p f w hp

/-! ### Fewer entries -/

/-- The entries of `mem'` are entries of `mem`, or such made read-only. -/
structure Memory.Restricts (mem mem' : Memory) : Prop where
  freshPfn : mem.freshPfn ≤ mem'.freshPfn
  anon : ∀ f, f < mem.freshPfn → (mem'.frame f).anon = (mem.frame f).anon
  pageCache : mem'.pageCache = mem.pageCache
  pte : ∀ m p f w, (mem'.mm m).pte p = .present f w →
    (∃ w', (mem.mm m).pte p = .present f w' ∧ (w = true → w' = true)) ∧
      ∀ v', (mem'.mm m).vmaAt p = some v' → ∃ v, (mem.mm m).vmaAt p = some v ∧ v.shared = v'.shared

theorem Memory.Exclusive.restrict (h : mem.Exclusive m p f) (hf : f < mem.freshPfn) (hr : mem.Restricts mem') :
    mem'.Exclusive m p f where
  anon := (hr.anon f hf).trans h.anon
  only m' p' w hp := by
    obtain ⟨⟨w', hp', -⟩, -⟩ := hr.pte m' p' f w hp
    exact h.only m' p' w' hp'

theorem Memory.Sane.restrict (h : mem.Sane) (hr : mem.Restricts mem') (hmms : ∀ m, (mem'.mm m).Ok)
    (hunused : ∀ m, mem'.freshMm ≤ m → (mem'.mm m).mmap = []) : mem'.Sane where
  zero := ⟨lt_of_lt_of_le h.zero.1 hr.freshPfn, (hr.anon _ h.zero.1).trans h.zero.2⟩
  cache f p := by
    rw [hr.pageCache]
    obtain ⟨h1, h2⟩ := h.cache f p
    exact ⟨lt_of_lt_of_le h1 hr.freshPfn, (hr.anon _ h1).trans h2⟩
  mms := hmms
  pfn m p f w hp := by
    obtain ⟨⟨w', hp', -⟩, -⟩ := hr.pte m p f w hp
    exact lt_of_lt_of_le (h.pfn m p f w' hp') hr.freshPfn
  excl m p f v hp hv hs := by
    obtain ⟨⟨w', hp', hw⟩, hvma⟩ := hr.pte m p f true hp
    obtain ⟨v₀, hv₀, hs₀⟩ := hvma v hv
    rw [hw rfl] at hp'
    exact (h.excl m p f v₀ hp' hv₀ (hs₀.trans hs)).restrict (h.pfn m p f true hp') hr
  unused := hunused

/-- A new address space that keeps the mappings and has no more entries. -/
theorem Memory.Restricts.setMm (hpte : ∀ p f w, mm.pte p = .present f w →
      (∃ w', (mem.mm m).pte p = .present f w' ∧ (w = true → w' = true)) ∧
        ∀ v', mm.vmaAt p = some v' → ∃ v, (mem.mm m).vmaAt p = some v ∧ v.shared = v'.shared) :
    mem.Restricts (mem.setMm m mm) where
  freshPfn := le_rfl
  anon _ _ := rfl
  pageCache := rfl
  pte m' p f w hp := by
    rw [mm_setMm] at hp ⊢
    by_cases hm : m' = m
    · subst hm
      simp only [if_true] at hp ⊢
      exact hpte p f w hp
    · simp only [if_neg hm] at hp ⊢
      exact ⟨⟨w, hp, fun h => h⟩, fun v' hv' => ⟨v', hv', rfl⟩⟩

theorem Memory.Sane.setMm (h : mem.Sane) (hok : mm.Ok) (hr : mem.Restricts (mem.setMm m mm))
    (hunused : mem.freshMm ≤ m → mm.mmap = []) : (mem.setMm m mm).Sane := by
  refine h.restrict hr (fun m' => ?_) fun m' hm' => ?_
  · rw [mm_setMm]
    split
    · exact hok
    · exact h.mms m'
  · rw [mm_setMm]
    split
    · rename_i hm
      exact hunused (hm ▸ hm')
    · exact h.unused m' hm'

theorem Memory.Restricts.populate : mem.Restricts (mem.setMm m ((mem.mm m).populate page)) :=
  .setMm fun _ _ w hp => ⟨⟨w, hp, fun h => h⟩, fun v' hv' => ⟨v', hv', rfl⟩⟩

theorem Memory.Sane.populate (h : mem.Sane) : (mem.setMm m ((mem.mm m).populate page)).Sane :=
  h.setMm (h.mms m).populate .populate fun hm => h.unused m hm

/-- An entry becomes empty or read-only. -/
theorem Memory.Restricts.weaken (hx : ∀ f w, x = .present f w →
    ∃ w', (mem.mm m).pte page = .present f w' ∧ (w = true → w' = true)) : mem.Restricts (mem.setPte m page x) :=
  .setMm fun p f w hp => by
    refine ⟨?_, fun v' hv' => ⟨v', hv', rfl⟩⟩
    rw [pte_setPte] at hp
    split at hp
    · rename_i hpp
      rw [hpp]
      exact hx f w hp
    · exact ⟨w, hp, fun h => h⟩

theorem Memory.Sane.weaken (h : mem.Sane) (hx : ∀ f w, x = .present f w →
    ∃ w', (mem.mm m).pte page = .present f w' ∧ (w = true → w' = true)) : (mem.setPte m page x).Sane :=
  h.setMm ((h.mms m).setPte fun f w hfw => by
    obtain ⟨w', hp, -⟩ := hx f w hfw
    exact (h.mms m).pte page f w' hp) (.weaken hx) fun hm => h.unused m hm

theorem wrprotect_weakens (pte : Pte) : ∀ f w, pte.wrprotect = .present f w →
    ∃ w', pte = .present f w' ∧ (w = true → w' = true) := by
  intro f w hw
  cases pte with
  | none => cases hw
  | present g b =>
    cases hw
    exact ⟨b, rfl, by simp⟩

/-! ### Frames -/

theorem Memory.Restricts.setFrame {fr : Frame} (ha : fr.anon = (mem.frame f).anon) :
    mem.Restricts (mem.setFrame f fr) where
  freshPfn := le_rfl
  anon g _ := by
    by_cases hg : g = f
    · subst hg
      exact (congrArg Frame.anon (Function.update_self ..)).trans ha
    · exact congrArg Frame.anon (Function.update_of_ne hg ..)
  pageCache := rfl
  pte _ _ _ w hp := ⟨⟨w, hp, fun h => h⟩, fun v' hv' => ⟨v', hv', rfl⟩⟩

theorem Memory.Restricts.newFrame {data : Page} : mem.Restricts (mem.newFrame data) where
  freshPfn := Nat.le_succ _
  anon _ hg := congrArg Frame.anon (Function.update_of_ne hg.ne ..)
  pageCache := rfl
  pte _ _ _ w hp := ⟨⟨w, hp, fun h => h⟩, fun v' hv' => ⟨v', hv', rfl⟩⟩

theorem Memory.Sane.setFrame (h : mem.Sane) {fr : Frame} (ha : fr.anon = (mem.frame f).anon) :
    (mem.setFrame f fr).Sane := h.restrict (.setFrame ha) h.mms h.unused

theorem Memory.Sane.newFrame (h : mem.Sane) {data : Page} : (mem.newFrame data).Sane :=
  h.restrict .newFrame h.mms h.unused

theorem Memory.Sane.exclusive_newFrame (h : mem.Sane) {data : Page} :
    (mem.newFrame data).Exclusive m page mem.freshPfn where
  anon := by
    show (Function.update mem.frame mem.freshPfn ⟨data, true⟩ mem.freshPfn).anon = true
    rw [Function.update_self]
  only m' p' w hp := absurd (h.pfn m' p' _ w hp) (lt_irrefl _)

theorem Memory.Sane.backing_lt (h : mem.Sane) (v : VmArea) (page : Nat) :
    mem.backing v page < mem.freshPfn ∧ (mem.frame (mem.backing v page)).anon = false := by
  unfold Memory.backing
  split
  · exact h.cache _ _
  · exact h.zero

/-! ### A new entry -/

/-- A page gets an entry: for a frame that it alone maps, or for one that is not anonymous, or for the one that
    it mapped before. -/
theorem Memory.Sane.setPte (h : mem.Sane) (hf : f < mem.freshPfn) (hslot : (mem.mm m).slot page = true)
    (hd : pageSize ∣ page) (hv : (mem.mm m).vmaAt page = some v)
    (hw : w = true → v.shared = true ∨ mem.Exclusive m page f)
    (hother : (mem.frame f).anon = false ∨ mem.Exclusive m page f ∨ ∃ w₀, (mem.mm m).pte page = .present f w₀) :
    (mem.setPte m page (.present f w)).Sane where
  zero := h.zero
  cache := h.cache
  mms m' := by
    by_cases hm : m' = m
    · rw [hm, mm_setPte_self]
      exact (h.mms m).setPte fun _ _ _ => ⟨hslot, hd, covers_of_vmaAt hv⟩
    · rw [mm_setPte_of_ne hm]
      exact h.mms m'
  pfn m' p g w' hp := by
    by_cases hm : m' = m
    · rw [hm, mm_setPte_self, pte_setPte] at hp
      split at hp
      · cases hp
        exact hf
      · exact h.pfn m p g w' hp
    · rw [mm_setPte_of_ne hm] at hp
      exact h.pfn m' p g w' hp
  excl m' p g v' hp hv' hs := by
    -- The new entry is no second one for a frame that belongs to another page.
    have hkeep : mem.Exclusive m' p g → (g = f → m' = m ∧ p = page) →
        (mem.setPte m page (.present f w)).Exclusive m' p g := fun hex hback => by
      refine ⟨hex.anon, fun m₁ p₁ w₁ hp₁ => ?_⟩
      by_cases hm : m₁ = m
      · subst hm
        rw [mm_setPte_self, pte_setPte] at hp₁
        split at hp₁
        · rename_i hpp
          cases hp₁
          obtain ⟨hm', hp'⟩ := hback rfl
          exact ⟨hm'.symm, hpp.trans hp'.symm⟩
        · exact hex.only m₁ p₁ w₁ hp₁
      · rw [mm_setPte_of_ne hm] at hp₁
        exact hex.only m₁ p₁ w₁ hp₁
    by_cases hself : m' = m ∧ p = page
    · obtain ⟨rfl, rfl⟩ := hself
      rw [mm_setPte_self, pte_setPte_self] at hp
      cases hp
      rw [mm_setPte_self, vmaAt_setPte] at hv'
      obtain rfl : v = v' := Option.some.inj (hv.symm.trans hv')
      refine hkeep ((hw rfl).resolve_left fun hsh => ?_) fun _ => ⟨rfl, rfl⟩
      rw [hsh] at hs
      cases hs
    · have hold : (mem.mm m').pte p = .present g true ∧ (mem.mm m').vmaAt p = some v' := by
        by_cases hm : m' = m
        · subst hm
          rw [mm_setPte_self] at hp hv'
          exact ⟨(pte_setPte_of_ne fun hpp => hself ⟨rfl, hpp⟩).symm.trans hp, hv'⟩
        · rw [mm_setPte_of_ne hm] at hp hv'
          exact ⟨hp, hv'⟩
      have hex := h.excl m' p g v' hold.1 hold.2 hs
      refine hkeep hex fun hgf => ?_
      subst hgf
      rcases hother with hanon | hex' | ⟨w₀, hw₀⟩
      · rw [hex.anon] at hanon
        cases hanon
      · exact hex'.only m' p true hold.1
      · obtain ⟨hm, hpp⟩ := hex.only m page w₀ hw₀
        exact ⟨hm.symm, hpp.symm⟩
  unused m' hm' := by
    by_cases hm : m' = m
    · rw [hm, mm_setPte_self]
      exact h.unused m (hm ▸ hm')
    · rw [mm_setPte_of_ne hm]
      exact h.unused m' hm'

end
end AflSnapshot
