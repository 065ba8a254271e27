import AflSnapshot.Theorems.Records
import AflSnapshot.Theorems.Memory

/-! # Page faults

What the fault of a read or a write can do (`ReadFault`, `WriteFault`), and what it leaves as it is
(`Memory.Faulted`). Everything that is later said about faults is said by these cases. -/

namespace AflSnapshot

/-- But for one page's entry, and for frames that were not there, `mem'` is `mem`. The new entry takes no frame from
    another page. -/
structure Memory.Faulted (mem : Memory) (m page : Nat) (mem' : Memory) : Prop where
  frame : ∀ f, f < mem.freshPfn → mem'.frame f = mem.frame f
  freshPfn : mem.freshPfn ≤ mem'.freshPfn
  pageCache : mem'.pageCache = mem.pageCache
  freshMm : mem'.freshMm = mem.freshMm
  mm : ∀ m', m' ≠ m → mem'.mm m' = mem.mm m'
  mmap : (mem'.mm m).mmap = (mem.mm m).mmap
  brk : (mem'.mm m).brk = (mem.mm m).brk
  owner : (mem'.mm m).owner = (mem.mm m).owner
  others : ∀ q, q ≠ page → (mem'.mm m).pte q = (mem.mm m).pte q
  slot : ∀ q, (mem.mm m).slot q = true → (mem'.mm m).slot q = true
  entry : ∀ f w, (mem'.mm m).pte page = .present f w →
    (∃ w₀, (mem.mm m).pte page = .present f w₀) ∨ f < mem.freshPfn ∧ (mem.frame f).anon = false ∨ mem.freshPfn ≤ f

section
variable {mem mem' mem₁ mem₂ : Memory} {m m' page q f : Nat} {x : Pte}

namespace Memory.Faulted

theorem refl (mem : Memory) (m page : Nat) : mem.Faulted m page mem where
  frame _ _ := rfl
  freshPfn := le_rfl
  pageCache := rfl
  freshMm := rfl
  mm _ _ := rfl
  mmap := rfl
  brk := rfl
  owner := rfl
  others _ _ := rfl
  slot _ h := h
  entry _ w h := Or.inl ⟨w, h⟩

theorem trans (h₁ : mem.Faulted m page mem₁) (h₂ : mem₁.Faulted m page mem₂) : mem.Faulted m page mem₂ where
  frame f hf := (h₂.frame f (lt_of_lt_of_le hf h₁.freshPfn)).trans (h₁.frame f hf)
  freshPfn := le_trans h₁.freshPfn h₂.freshPfn
  pageCache := h₂.pageCache.trans h₁.pageCache
  freshMm := h₂.freshMm.trans h₁.freshMm
  mm m' hm := (h₂.mm m' hm).trans (h₁.mm m' hm)
  mmap := h₂.mmap.trans h₁.mmap
  brk := h₂.brk.trans h₁.brk
  owner := h₂.owner.trans h₁.owner
  others q hq := (h₂.others q hq).trans (h₁.others q hq)
  slot q hq := h₂.slot q (h₁.slot q hq)
  entry f w hf := by
    rcases h₂.entry f w hf with ⟨w₀, h⟩ | ⟨hlt, hanon⟩ | hle
    · exact h₁.entry f w₀ h
    · by_cases hold : f < mem.freshPfn
      · exact Or.inr (Or.inl ⟨hold, h₁.frame f hold ▸ hanon⟩)
      · exact Or.inr (Or.inr (Nat.le_of_not_lt hold))
    · exact Or.inr (Or.inr (le_trans h₁.freshPfn hle))

theorem setPte (hx : ∀ f w, x = .present f w → (∃ w₀, (mem.mm m).pte page = .present f w₀) ∨
    f < mem.freshPfn ∧ (mem.frame f).anon = false ∨ mem.freshPfn ≤ f) : mem.Faulted m page (mem.setPte m page x) where
  frame _ _ := rfl
  freshPfn := le_rfl
  pageCache := rfl
  freshMm := rfl
  mm _ hm := mm_setPte_of_ne hm
  mmap := by rw [mm_setPte_self]; rfl
  brk := by rw [mm_setPte_self]; rfl
  owner := by rw [mm_setPte_self]; rfl
  others q hq := by rw [mm_setPte_self, pte_setPte_of_ne hq]
  slot q hq := by rwa [mm_setPte_self]
  entry f w h := by
    rw [mm_setPte_self, pte_setPte_self] at h
    exact hx f w h

theorem populate : mem.Faulted m page (mem.setMm m ((mem.mm m).populate page)) where
  frame _ _ := rfl
  freshPfn := le_rfl
  pageCache := rfl
  freshMm := rfl
  mm _ hm := mm_setMm_of_ne hm
  mmap := by rw [mm_setMm_self]; rfl
  brk := by rw [mm_setMm_self]; rfl
  owner := by rw [mm_setMm_self]; rfl
  others q _ := by rw [mm_setMm_self]; rfl
  slot q hq := by
    rw [mm_setMm_self]
    exact slot_populate hq
  entry f w h := by
    rw [mm_setMm_self] at h
    exact Or.inl ⟨w, h⟩

/-- A new frame is installed. -/
theorem newFrame (data : Page) (w : Bool) :
    mem.Faulted m page ((mem.newFrame data).setPte m page (.present mem.freshPfn w)) where
  frame _ hf := Function.update_of_ne hf.ne ..
  freshPfn := Nat.le_succ _
  pageCache := rfl
  freshMm := rfl
  mm _ hm := mm_setPte_of_ne hm
  mmap := by rw [mm_setPte_self]; rfl
  brk := by rw [mm_setPte_self]; rfl
  owner := by rw [mm_setPte_self]; rfl
  others q hq := by
    rw [mm_setPte_self, pte_setPte_of_ne hq]
    rfl
  slot q hq := by
    rw [mm_setPte_self]
    exact hq
  entry f w h := by
    rw [mm_setPte_self, pte_setPte_self] at h
    cases h
    exact Or.inr (Or.inr le_rfl)

/-- A frame that a page has for itself stays its own. -/
theorem exclusive (h : mem.Faulted m page mem') (hex : mem.Exclusive m' q f) (hf : f < mem.freshPfn) :
    mem'.Exclusive m' q f where
  anon := by rw [h.frame f hf, hex.anon]
  only m₁ p₁ w hp := by
    by_cases hm : m₁ = m
    · subst hm
      by_cases hpp : p₁ = page
      · subst hpp
        rcases h.entry f w hp with ⟨w₀, hold⟩ | ⟨-, hanon⟩ | hle
        · exact hex.only m₁ p₁ w₀ hold
        · rw [hex.anon] at hanon
          cases hanon
        · exact absurd hf (Nat.not_lt.mpr hle)
      · rw [h.others p₁ hpp] at hp
        exact hex.only m₁ p₁ w hp
    · rw [h.mm m₁ hm] at hp
      exact hex.only m₁ p₁ w hp

theorem vmaAt (h : mem.Faulted m page mem') : (mem'.mm m).vmaAt q = (mem.mm m).vmaAt q := by
  unfold Mm.vmaAt
  rw [h.mmap]

end Memory.Faulted
end

/-! ### Cases -/

/-- Why a fault leaves a page its frame: the mapping is shared, the kernel says so, or the hook does, which goes by the
    owner's entry for the page. -/
def Core.InPlace (env : Env) (m page : Nat) (c : Core) (v : VmArea) : Prop :=
  v.shared = true ∨ env.wpReuse c.mem m page = true ∨ ∃ id sp, c.reg.live (c.mem.mm m).owner = some id ∧
    (c.reg.data id).getSnapshotPage page = some sp ∧ sp.dirty = false ∧ sp.isNonePte = false ∧ sp.isPrivate = true

/-- What a write fault can do in the VMA `v`, whatever the entries say. -/
inductive Fault (env : Env) (m page : Nat) (c : Core) (v : VmArea) : Core → Prop
  | ready {f : Nat} (hpte : (c.mem.mm m).pte page = .present f true) : Fault env m page c v c
  | mkwrite {f : Nat} {c' : Core} (hpte : (c.mem.mm m).pte page = .present f false) (hplace : c.InPlace env m page v)
      (hrec : c.Recorded env m page c'.reg) (hmem : c'.mem = c.mem.setPte m page (.present f true))
      (hoops : c'.oops = c.oops) : Fault env m page c v c'
  | copied {f : Nat} {c₁ c' : Core} (hpte : (c.mem.mm m).pte page = .present f false) (hv : v.shared = false)
      (hrec : c.Recorded env m page c₁.reg) (hmem₁ : c₁.mem = c.mem) (hnoted : c₁.Noted env m page c'.reg)
      (hmem : c'.mem = (c.mem.newFrame (c.mem.frame f).data).setPte m page (.present c.mem.freshPfn true))
      (hoops : env.snapshotPage page = true → c'.oops = c.oops)
      (hreuse : env.wpReuse c.mem m page = false) : Fault env m page c v c'
  | mapped {c' : Core} (hpte : (c.mem.mm m).pte page = .none) (hv : v.shared = true)
      (hmem : c'.mem = (c.mem.setMm m ((c.mem.mm m).populate page)).setPte m page
        (.present (c.mem.backing v page) true))
      (hreg : c'.reg = c.reg) (hoops : c'.oops = c.oops) : Fault env m page c v c'
  | fresh {c' : Core} (hpte : (c.mem.mm m).pte page = .none) (hv : v.shared = false)
      (hnoted : c.Noted env m page c'.reg)
      (hmem : c'.mem = ((c.mem.setMm m ((c.mem.mm m).populate page)).newFrame
        (c.mem.frame (c.mem.backing v page)).data).setPte m page (.present c.mem.freshPfn true))
      (hoops : env.snapshotPage page = true → c'.oops = c.oops) : Fault env m page c v c'

/-- What a write fault can do in the VMA `v` where a page that the hook makes writable has its frame for itself. -/
inductive WriteFault (env : Env) (m page : Nat) (c : Core) (v : VmArea) : Core → Prop
  /-- The entry is writable already. -/
  | ready {f : Nat} (hpte : (c.mem.mm m).pte page = .present f true) : WriteFault env m page c v c
  /-- The hook or the kernel makes it writable. -/
  | mkwrite {f : Nat} {c' : Core} (hpte : (c.mem.mm m).pte page = .present f false)
      (hown : v.shared = true ∨ c.mem.Exclusive m page f) (hrec : c.Recorded env m page c'.reg)
      (hmem : c'.mem = c.mem.setPte m page (.present f true)) (hoops : c'.oops = c.oops) : WriteFault env m page c v c'
  /-- The kernel copies the frame. -/
  | copied {f : Nat} {c₁ c' : Core} (hpte : (c.mem.mm m).pte page = .present f false) (hv : v.shared = false)
      (hrec : c.Recorded env m page c₁.reg) (hmem₁ : c₁.mem = c.mem) (hnoted : c₁.Noted env m page c'.reg)
      (hmem : c'.mem = (c.mem.newFrame (c.mem.frame f).data).setPte m page (.present c.mem.freshPfn true))
      (hoops : env.snapshotPage page = true → c'.oops = c.oops)
      (hreuse : env.wpReuse c.mem m page = false) : WriteFault env m page c v c'
  /-- The object's page is mapped. -/
  | mapped {c' : Core} (hpte : (c.mem.mm m).pte page = .none) (hv : v.shared = true)
      (hmem : c'.mem = (c.mem.setMm m ((c.mem.mm m).populate page)).setPte m page
        (.present (c.mem.backing v page) true))
      (hreg : c'.reg = c.reg) (hoops : c'.oops = c.oops) : WriteFault env m page c v c'
  /-- An empty entry gets a new frame. -/
  | fresh {c' : Core} (hpte : (c.mem.mm m).pte page = .none) (hv : v.shared = false)
      (hnoted : c.Noted env m page c'.reg)
      (hmem : c'.mem = ((c.mem.setMm m ((c.mem.mm m).populate page)).newFrame
        (c.mem.frame (c.mem.backing v page)).data).setPte m page (.present c.mem.freshPfn true))
      (hoops : env.snapshotPage page = true → c'.oops = c.oops) : WriteFault env m page c v c'

/-- Where the live snapshot of the owner has a clean private entry for a page, the page has its frame for itself. -/
def Core.Armed (c : Core) (m page : Nat) : Prop :=
  ∀ id sp f w, c.reg.live (c.mem.mm m).owner = some id → (c.reg.data id).getSnapshotPage page = some sp →
    sp.dirty = false → sp.isNonePte = false → sp.isPrivate = true → (c.mem.mm m).pte page = .present f w →
    c.mem.Exclusive m page f

section
variable {env : Env} {m page : Nat} {c c' : Core} {v : VmArea}

variable (env m page) in
theorem newAnonPage_spec (h : c.reg.Coherent) (source : Nat) :
    c.Noted env m page (c.newAnonPage env m page source).reg ∧
    (c.newAnonPage env m page source).mem =
      (c.mem.newFrame (c.mem.frame source).data).setPte m page (.present c.mem.freshPfn true) ∧
    (env.snapshotPage page = true → (c.newAnonPage env m page source).oops = c.oops) := by
  obtain ⟨hnoted, hmem, hoops⟩ := pageAddNewAnonRmapHook_spec env m page h
  refine ⟨hnoted, ?_, hoops⟩
  unfold Core.newAnonPage Core.setMem
  dsimp only
  rw [hmem]

theorem fault_cases (hc : c.reg.Coherent) (h : c.writeFault env m page = some c') :
    ∃ v, (c.mem.mm m).vmaAt page = some v ∧ v.writable = true ∧ Fault env m page c v c' := by
  unfold Core.writeFault at h
  cases hv : (c.mem.mm m).vmaAt page with
  | none => simp [hv] at h
  | some v =>
    rw [hv] at h
    dsimp only at h
    cases hw : v.writable with
    | false => simp [hw] at h
    | true =>
      rw [hw, if_pos rfl] at h
      refine ⟨v, rfl, hw, ?_⟩
      cases hpte : (c.mem.mm m).pte page with
      | none =>
        rw [hpte] at h
        dsimp only at h
        obtain rfl := Option.some.inj h
        cases hs : v.shared with
        | true =>
          rw [if_pos rfl]
          exact .mapped hpte hs rfl rfl rfl
        | false =>
          rw [if_neg (by simp)]
          set c₁ := c.setMem (c.mem.setMm m ((c.mem.mm m).populate page)) with hc₁
          obtain ⟨hnoted, hmem, hoops⟩ :=
            newAnonPage_spec env m page (show c₁.reg.Coherent from hc) (c₁.mem.backing v page)
          refine .fresh hpte hs ?_ hmem hoops
          have howner : (c₁.mem.mm m).owner = (c.mem.mm m).owner := by
            have hmm : c₁.mem.mm m = (c.mem.mm m).populate page := mm_setMm_self
            rw [hmm]
            rfl
          unfold Core.Noted at hnoted
          rw [howner] at hnoted
          exact hnoted
      | present f w =>
        rw [hpte] at h
        cases w with
        | true =>
          obtain rfl := Option.some.inj h
          exact .ready hpte
        | false =>
          dsimp only at h
          obtain rfl := Option.some.inj h
          obtain ⟨hrec, hoops, hres⟩ := doWpPageHook_spec env m page hc
          unfold Core.doWpPage
          rcases hook : c.doWpPageHook env m page with ⟨c₁, b⟩
          rw [hook] at hrec hoops hres
          rcases hres with ⟨hb, hmem⟩ | ⟨hb, hmem, id, sp, hlive, hsp, hclean, hnone, hpriv⟩
          · have hb : b = false := hb
            have hmem : c₁.mem = c.mem := hmem
            subst hb
            dsimp only
            rw [hmem]
            cases hs : v.shared with
            | true => exact .mkwrite hpte (Or.inl hs) hrec rfl hoops
            | false =>
              cases hr : env.wpReuse c.mem m page with
              | true => exact .mkwrite hpte (Or.inr (Or.inl hr)) hrec rfl hoops
              | false =>
                obtain ⟨hnoted, hmem', hoops'⟩ :=
                  newAnonPage_spec env m page hrec.coherent f
                rw [hmem] at hmem'
                exact .copied hpte hs hrec hmem hnoted hmem' (fun ha => (hoops' ha).trans hoops) hr
          · have hb : b = true := hb
            subst hb
            rw [hpte] at hmem
            exact .mkwrite hpte (Or.inr (Or.inr ⟨id, sp, hlive, hsp, hclean, hnone, hpriv⟩)) hrec hmem hoops

theorem Fault.writeFault (hreuse : env.ReuseSound) (harmed : v.shared = false → c.Armed m page)
    (h : Fault env m page c v c') : WriteFault env m page c v c' := by
  cases h with
  | ready hpte => exact .ready hpte
  | @mkwrite f _ hpte hplace hrec hmem hoops =>
    refine .mkwrite hpte ?_ hrec hmem hoops
    cases hs : v.shared with
    | true => exact Or.inl rfl
    | false =>
      rcases hplace with hsh | hr | ⟨id, sp, hlive, hsp, hclean, hnone, hpriv⟩
      · rw [hs] at hsh
        cases hsh
      · exact Or.inr (hreuse c.mem m page f false hpte hr)
      · exact Or.inr (harmed hs id sp f false hlive hsp hclean hnone hpriv hpte)
  | copied hpte hv hrec hmem₁ hnoted hmem hoops hreuse => exact .copied hpte hv hrec hmem₁ hnoted hmem hoops hreuse
  | mapped hpte hv hmem hreg hoops => exact .mapped hpte hv hmem hreg hoops
  | fresh hpte hv hnoted hmem hoops => exact .fresh hpte hv hnoted hmem hoops

theorem writeFault_cases (hc : c.reg.Coherent) (hreuse : env.ReuseSound)
    (harmed : ∀ v, (c.mem.mm m).vmaAt page = some v → v.shared = false → c.Armed m page)
    (h : c.writeFault env m page = some c') :
    ∃ v, (c.mem.mm m).vmaAt page = some v ∧ v.writable = true ∧ WriteFault env m page c v c' := by
  obtain ⟨v, hv, hw, hf⟩ := fault_cases hc h
  exact ⟨v, hv, hw, hf.writeFault hreuse (harmed v hv)⟩

theorem WriteFault.faulted (hs : c.mem.Sane) (h : WriteFault env m page c v c') : c.mem.Faulted m page c'.mem := by
  cases h with
  | ready => exact .refl c.mem m page
  | mkwrite hpte hown hrec hmem hoops =>
    rw [hmem]
    exact .setPte fun g w hg => by
      cases hg
      exact Or.inl ⟨false, hpte⟩
  | copied hpte hv hrec hmem₁ hnoted hmem hoops hreuse =>
    rw [hmem]
    exact .newFrame _ true
  | mapped hpte hv hmem hreg hoops =>
    rw [hmem]
    refine Memory.Faulted.populate.trans (.setPte fun g w hg => ?_)
    cases hg
    exact Or.inr (Or.inl (hs.backing_lt v page))
  | fresh hpte hv hnoted hmem hoops =>
    rw [hmem]
    exact Memory.Faulted.populate.trans (.newFrame _ true)

/-- Afterwards the entry is writable. -/
theorem WriteFault.writable (h : WriteFault env m page c v c') : ∃ f, (c'.mem.mm m).pte page = .present f true := by
  cases h with
  | ready hpte => exact ⟨_, hpte⟩
  | mkwrite hpte hown hrec hmem hoops => exact ⟨_, by rw [hmem, mm_setPte_self, pte_setPte_self]⟩
  | copied hpte hv hrec hmem₁ hnoted hmem hoops hreuse => exact ⟨_, by rw [hmem, mm_setPte_self, pte_setPte_self]⟩
  | mapped hpte hv hmem hreg hoops => exact ⟨_, by rw [hmem, mm_setPte_self, pte_setPte_self]⟩
  | fresh hpte hv hnoted hmem hoops => exact ⟨_, by rw [hmem, mm_setPte_self, pte_setPte_self]⟩

theorem WriteFault.sane (hs : c.mem.Sane) (hd : pageSize ∣ page) (hvma : (c.mem.mm m).vmaAt page = some v)
    (h : WriteFault env m page c v c') : c'.mem.Sane := by
  cases h with
  | ready => exact hs
  | mkwrite hpte hown hrec hmem hoops =>
    rw [hmem]
    obtain ⟨hslot, -, -⟩ := (hs.mms m).pte page _ _ hpte
    exact hs.setPte (hs.pfn m page _ _ hpte) hslot hd hvma (fun _ => hown) (Or.inr (Or.inr ⟨false, hpte⟩))
  | copied hpte hv hrec hmem₁ hnoted hmem hoops hreuse =>
    rw [hmem]
    obtain ⟨hslot, -, -⟩ := (hs.mms m).pte page _ _ hpte
    exact hs.newFrame.setPte (Nat.lt_succ_self _) hslot hd hvma (fun _ => Or.inr hs.exclusive_newFrame)
      (Or.inr (Or.inl hs.exclusive_newFrame))
  | mapped hpte hv hmem hreg hoops =>
    rw [hmem]
    have hback := hs.backing_lt v page
    refine hs.populate.setPte (v := v) hback.1 ?_ hd ?_ (fun _ => Or.inl hv) (Or.inl hback.2)
    · rw [mm_setMm_self, slot_populate_self]
    · rw [mm_setMm_self, vmaAt_populate, hvma]
  | fresh hpte hv hnoted hmem hoops =>
    rw [hmem]
    have hpop : (c.mem.setMm m ((c.mem.mm m).populate page)).Sane := hs.populate
    refine hpop.newFrame.setPte (v := v) (Nat.lt_succ_self _) ?_ hd ?_ (fun _ => Or.inr hpop.exclusive_newFrame)
      (Or.inr (Or.inl hpop.exclusive_newFrame))
    · show ((c.mem.setMm m ((c.mem.mm m).populate page)).mm m).slot page = true
      rw [mm_setMm_self, slot_populate_self]
    · show ((c.mem.setMm m ((c.mem.mm m).populate page)).mm m).vmaAt page = some v
      rw [mm_setMm_self, vmaAt_populate, hvma]

theorem Fault.touched (hc : c.reg.Coherent) (h : Fault env m page c v c') :
    c.reg.Touched (c.reg.live (c.mem.mm m).owner) (OnlyPage page) c'.reg := by
  have hrefl : c.reg.Touched (c.reg.live (c.mem.mm m).owner) (OnlyPage page) c.reg :=
    .refl hc _ (.refl _)
  cases h with
  | ready => exact hrefl
  | mkwrite hpte hplace hrec hmem hoops => exact hrec.onlyPage
  | copied hpte hv hrec hmem₁ hnoted hmem hoops hreuse =>
    have hrec := hrec.onlyPage
    have hnoted := hnoted.onlyPage
    rw [hmem₁, hrec.live] at hnoted
    exact (hrec.trans hnoted).mono fun _ _ ⟨d, h₁, h₂⟩ => h₁.trans h₂
  | mapped hpte hv hmem hreg hoops =>
    rw [hreg]
    exact hrefl
  | fresh hpte hv hnoted hmem hoops => exact hnoted.onlyPage

theorem writeFault_touched (hc : c.reg.Coherent) (h : c.writeFault env m page = some c') :
    c.reg.Touched (c.reg.live (c.mem.mm m).owner) (OnlyPage page) c'.reg :=
  let ⟨_, _, _, hf⟩ := fault_cases hc h
  hf.touched hc

/-! ### Reads -/

/-- What a read fault can do in the VMA `v`. -/
inductive ReadFault (env : Env) (m page : Nat) (c : Core) (v : VmArea) : Core → Prop
  | ready {f : Nat} {w : Bool} (hpte : (c.mem.mm m).pte page = .present f w) : ReadFault env m page c v c
  | mapped {c' : Core} {w : Bool} (hpte : (c.mem.mm m).pte page = .none) (hw : w = true → v.shared = true)
      (hmem : c'.mem = (c.mem.setMm m ((c.mem.mm m).populate page)).setPte m page
        (.present (c.mem.backing v page) w))
      (hreg : c'.reg = c.reg) (hoops : c'.oops = c.oops) : ReadFault env m page c v c'

theorem readFault_cases (h : c.readFault env m page = some c') :
    ∃ v, (c.mem.mm m).vmaAt page = some v ∧ v.readable = true ∧ ReadFault env m page c v c' := by
  unfold Core.readFault at h
  cases hv : (c.mem.mm m).vmaAt page with
  | none => simp [hv] at h
  | some v =>
    rw [hv] at h
    dsimp only at h
    cases hr : v.readable with
    | false => simp [hr] at h
    | true =>
      rw [hr, if_pos rfl] at h
      refine ⟨v, rfl, hr, ?_⟩
      cases hpte : (c.mem.mm m).pte page with
      | none =>
        rw [hpte] at h
        obtain rfl := Option.some.inj h
        exact .mapped hpte (fun hw => by simp at hw; exact hw.1.1) rfl rfl rfl
      | present f w =>
        rw [hpte] at h
        obtain rfl := Option.some.inj h
        exact .ready hpte

theorem ReadFault.faulted (hs : c.mem.Sane) (h : ReadFault env m page c v c') : c.mem.Faulted m page c'.mem := by
  cases h with
  | ready => exact .refl c.mem m page
  | mapped hpte hw hmem hreg hoops =>
    rw [hmem]
    refine Memory.Faulted.populate.trans (.setPte fun g w hg => ?_)
    cases hg
    exact Or.inr (Or.inl (hs.backing_lt v page))

theorem ReadFault.sane (hs : c.mem.Sane) (hd : pageSize ∣ page) (hvma : (c.mem.mm m).vmaAt page = some v)
    (h : ReadFault env m page c v c') : c'.mem.Sane := by
  cases h with
  | ready => exact hs
  | mapped hpte hw hmem hreg hoops =>
    rw [hmem]
    have hback := hs.backing_lt v page
    refine hs.populate.setPte (v := v) hback.1 ?_ hd ?_ (fun h => Or.inl (hw h)) (Or.inl hback.2)
    · rw [mm_setMm_self, slot_populate_self]
    · rw [mm_setMm_self, vmaAt_populate, hvma]

theorem ReadFault.reg (h : ReadFault env m page c v c') : c'.reg = c.reg := by
  cases h with
  | ready => rfl
  | mapped hpte hw hmem hreg hoops => exact hreg

end
end AflSnapshot
