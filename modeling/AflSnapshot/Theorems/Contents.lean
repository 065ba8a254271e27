import AflSnapshot.Theorems.Mappings
import AflSnapshot.Theorems.Steady

/-! # What the pages hold

What every page of a process reads as after a fault, a store, and a restore that finds the mappings as they were. `Holds`
gives the bytes of all pages at once; `Lapses` is what a restore does to the pages that were not selected. -/

namespace AflSnapshot

/-! ### What the pages hold -/

/-- What a page reads as where it has no entry. -/
def Memory.base (mem : Memory) (m page : Nat) : Page :=
  match (mem.mm m).vmaAt page with
  | some v => (mem.frame (mem.backing v page)).data
  | none => fun _ => 0

/-- The mappings and what is behind them stay, and the pages come to hold `bytes`. -/
structure Holds (m : Nat) (mem : Memory) (bytes : Nat → Page) (mem' : Memory) : Prop where
  mmap : (mem'.mm m).mmap = (mem.mm m).mmap
  base : ∀ p, mem'.base m p = mem.base m p
  content : ∀ p, mem'.content m p = bytes p

/-- One page comes to hold `B`; the other pages keep their entries and what they hold. -/
structure Puts (m q : Nat) (mem : Memory) (B : Page) (mem' : Memory) : Prop where
  mmap : (mem'.mm m).mmap = (mem.mm m).mmap
  base : ∀ p, mem'.base m p = mem.base m p
  content : mem'.content m q = B
  pte : ∀ p, p ≠ q → (mem'.mm m).pte p = (mem.mm m).pte p
  others : ∀ p, p ≠ q → mem'.content m p = mem.content m p

section
variable {mem mem' mem₁ : Memory} {m p q f : Nat} {x : Pte} {bytes bytes' : Nat → Page} {env : Env} {c c' : Core}
  {v : VmArea} {g : Page → Page} {addr : Nat} {byte : UInt8} {h : Home} {B B' : Page}

theorem content_of_none (hp : (mem.mm m).pte p = .none) : mem.content m p = mem.base m p := by
  unfold Memory.content Memory.base
  rw [hp]
  cases (mem.mm m).vmaAt p <;> rfl

theorem content_of_present {w : Bool} (hp : (mem.mm m).pte p = .present f w) : mem.content m p = (mem.frame f).data := by
  unfold Memory.content
  rw [hp]

theorem base_of_vmaAt (hv : (mem.mm m).vmaAt p = some v) : mem.base m p = (mem.frame (mem.backing v p)).data := by
  unfold Memory.base
  rw [hv]

namespace Holds

theorem refl (m : Nat) (mem : Memory) : Holds m mem (mem.content m) mem := ⟨rfl, fun _ => rfl, fun _ => rfl⟩

theorem trans (h₁ : Holds m mem bytes mem₁) (h₂ : Holds m mem₁ bytes' mem') : Holds m mem bytes' mem' :=
  ⟨h₂.mmap.trans h₁.mmap, fun p => (h₂.base p).trans (h₁.base p), h₂.content⟩

end Holds

namespace Puts

theorem refl (m q : Nat) (mem : Memory) : Puts m q mem (mem.content m q) mem :=
  ⟨rfl, fun _ => rfl, rfl, fun _ _ => rfl, fun _ _ => rfl⟩

theorem trans (h₁ : Puts m q mem B mem₁) (h₂ : Puts m q mem₁ B' mem') : Puts m q mem B' mem' where
  mmap := h₂.mmap.trans h₁.mmap
  base p := (h₂.base p).trans (h₁.base p)
  content := h₂.content
  pte p hp := (h₂.pte p hp).trans (h₁.pte p hp)
  others p hp := (h₂.others p hp).trans (h₁.others p hp)

theorem holds (h : Puts m q mem B mem') : Holds m mem (Function.update (mem.content m) q B) mem' := by
  refine ⟨h.mmap, h.base, fun p => ?_⟩
  by_cases hp : p = q
  · rw [hp, Function.update_self, h.content]
  · rw [Function.update_of_ne hp, h.others p hp]

theorem same (h : Puts m q mem (mem.content m q) mem') : Holds m mem (mem.content m) mem' := by
  have hholds := h.holds
  rw [Function.update_eq_self] at hholds
  exact hholds

end Puts

/-- What is behind a page stays where the mappings and the frames of the objects do. -/
theorem base_congr (hmmap : (mem'.mm m).mmap = (mem.mm m).mmap) (hcache : mem'.pageCache = mem.pageCache)
    (hframe : ∀ v p, (mem'.frame (mem.backing v p)).data = (mem.frame (mem.backing v p)).data) (p : Nat) :
    mem'.base m p = mem.base m p := by
  unfold Memory.base Mm.vmaAt
  rw [hmmap]
  cases Spans.find (mem.mm m).mmap p with
  | none => rfl
  | some v => exact (congrArg (fun f => (mem'.frame f).data) (backing_congr hcache rfl)).trans (hframe v p)

/-- A fault changes at most what its page holds. -/
theorem Memory.Faulted.puts (hF : mem.Faulted m q mem') (hs : mem.Sane) (hB : mem'.content m q = B) : Puts m q mem B mem' := by
  have hbase : ∀ p, mem'.base m p = mem.base m p :=
    base_congr hF.mmap hF.pageCache fun v p => congrArg Frame.data (hF.frame _ (hs.backing_lt v p).1)
  refine ⟨hF.mmap, hbase, hB, hF.others, fun p hp => ?_⟩
  cases hpte : (mem.mm m).pte p with
  | none => rw [content_of_none hpte, content_of_none ((hF.others p hp).trans hpte), hbase]
  | present f w =>
    rw [content_of_present hpte, content_of_present ((hF.others p hp).trans hpte), hF.frame f (hs.pfn m p f w hpte)]

/-- A page is protected or made writable. -/
theorem puts_protect (hs : mem.Sane) {w w₀ : Bool} (hpte : (mem.mm m).pte q = .present f w₀) :
    Puts m q mem (mem.content m q) (mem.setPte m q (.present f w)) := by
  refine Memory.Faulted.puts (.setPte fun _ _ hf => by cases hf; exact Or.inl ⟨w₀, hpte⟩) hs ?_
  rw [content_of_present hpte, content_of_present (by rw [mm_setPte_self, pte_setPte_self])]
  rfl

/-- A page loses its entry. -/
theorem puts_zap (hs : mem.Sane) (m q : Nat) : Puts m q mem (mem.base m q) (mem.setPte m q .none) := by
  have hmmap : ((mem.setPte m q .none).mm m).mmap = (mem.mm m).mmap := by rw [mm_setPte_self, mmap_setPte]
  refine Memory.Faulted.puts (.setPte fun _ _ hf => by cases hf) hs ?_
  rw [content_of_none (by rw [mm_setPte_self, pte_setPte_self])]
  exact base_congr hmmap rfl (fun _ _ => rfl) q

/-! ### Accesses -/

theorem ReadFault.puts (hs : c.mem.Sane) (hv : (c.mem.mm m).vmaAt q = some v) (hf : ReadFault env m q c v c') :
    Puts m q c.mem (c.mem.content m q) c'.mem := by
  refine (hf.faulted hs).puts hs ?_
  cases hf with
  | ready => rfl
  | mapped hpte hw hmem hreg hoops =>
    rw [content_of_none hpte, base_of_vmaAt hv, hmem, content_of_present (by rw [mm_setPte_self, pte_setPte_self])]
    rfl

theorem WriteFault.puts (hs : c.mem.Sane) (hv : (c.mem.mm m).vmaAt q = some v) (hf : WriteFault env m q c v c') :
    Puts m q c.mem (c.mem.content m q) c'.mem := by
  refine (hf.faulted hs).puts hs ?_
  have hnew : ∀ (mem : Memory) data x, ((mem.newFrame data).setPte m q (.present mem.freshPfn x)).content m q = data := by
    intro mem data x
    rw [content_of_present (by rw [mm_setPte_self, pte_setPte_self])]
    show (Function.update mem.frame mem.freshPfn ⟨data, true⟩ mem.freshPfn).data = data
    rw [Function.update_self]
  cases hf with
  | ready => rfl
  | mkwrite hpte hown hrec hmem hoops =>
    rw [hmem]
    exact (puts_protect hs hpte).content
  | copied hpte hshared hrec hmem₁ hnoted hmem hoops hreuse => rw [hmem, hnew, content_of_present hpte]
  | mapped hpte hshared hmem hreg hoops =>
    rw [content_of_none hpte, base_of_vmaAt hv, hmem, content_of_present (by rw [mm_setPte_self, pte_setPte_self])]
    rfl
  | fresh hpte hshared hnoted hmem hoops =>
    rw [content_of_none hpte, base_of_vmaAt hv, hmem]
    exact hnew (c.mem.setMm m ((c.mem.mm m).populate q)) _ true

/-- Bytes are stored in a frame that no other page has. -/
theorem puts_store (hs : c.mem.Sane) {w : Bool} (hpte : (c.mem.mm m).pte q = .present f w) (hex : c.mem.Exclusive m q f) :
    Puts m q c.mem (g (c.mem.content m q)) (c.store m q g).mem := by
  rw [store_eq hpte]
  have hne : ∀ v p, c.mem.backing v p ≠ f := fun v p heq => by
    have := (hs.backing_lt v p).2
    rw [heq, hex.anon] at this
    cases this
  have hbase : ∀ p, (c.mem.setFrame f { c.mem.frame f with data := g (c.mem.frame f).data }).base m p = c.mem.base m p :=
    base_congr rfl rfl fun v p => congrArg Frame.data (setFrame_of_ne (hne v p))
  refine ⟨rfl, hbase, ?_, fun _ _ => rfl, fun p hp => ?_⟩
  · show (c.mem.setFrame f _).content m q = _
    rw [content_of_present hpte, content_of_present (show ((c.mem.setFrame f _).mm m).pte q = .present f w from hpte)]
    show (Function.update c.mem.frame f _ f).data = _
    rw [Function.update_self]
  · show (c.mem.setFrame f _).content m p = _
    cases hpte' : (c.mem.mm m).pte p with
    | none =>
      rw [content_of_none hpte', content_of_none (show ((c.mem.setFrame f _).mm m).pte p = .none from hpte'), hbase]
    | present f' w' =>
      rw [content_of_present hpte', content_of_present (show ((c.mem.setFrame f _).mm m).pte p = .present f' w' from hpte')]
      refine congrArg Frame.data (setFrame_of_ne fun heq => hp ?_)
      subst heq
      exact (hex.only m p w' hpte').2

/-- The process may write at the address. -/
def Mm.mayWrite (mm : Mm) (addr : Nat) : Bool := (mm.vmaAt (pageBase addr)).any VmArea.writable

theorem offset_lt (addr : Nat) : addr % pageSize < pageSize := Nat.mod_lt _ (by decide)

/-- The bytes of all pages, with one byte changed. -/
def putByte (addr : Nat) (byte : UInt8) (bytes : Nat → Page) : Nat → Page :=
  Function.update bytes (pageBase addr)
    (Function.update (bytes (pageBase addr)) ⟨addr % pageSize, offset_lt addr⟩ byte)

theorem readByte_holds (hs : c.mem.Sane) : Holds m c.mem (c.mem.content m) (c.readByte env m addr).mem := by
  unfold Core.readByte
  cases hf : c.readFault env m (pageBase addr) with
  | none => exact .refl m c.mem
  | some c' =>
    obtain ⟨v, hv, -, hcase⟩ := readFault_cases hf
    exact (hcase.puts hs hv).same

/-- A fault for a write, and the store, in a private mapping. -/
theorem writeFault_store (hs : c.mem.Sane) (hc : c.reg.Coherent) (hreuse : env.ReuseSound) (hd : pageSize ∣ q)
    (harmed : ∀ v, (c.mem.mm m).vmaAt q = some v → v.shared = false → c.Armed m q)
    (hpriv : ∀ v, (c.mem.mm m).vmaAt q = some v → v.shared = false) (hf : c.writeFault env m q = some c') :
    (∃ f, ((c'.store m q g).mem.mm m).pte q = .present f true) ∧ (c'.store m q g).mem.Sane ∧
      Puts m q c.mem (g (c.mem.content m q)) (c'.store m q g).mem := by
  obtain ⟨v, hv, -, hcase⟩ := writeFault_cases hc hreuse harmed hf
  have hF := hcase.faulted hs
  have hsane := hcase.sane hs hd hv
  have hfault := hcase.puts hs hv
  obtain ⟨f, hpte⟩ := hcase.writable
  have hstore := puts_store hsane (g := g) hpte (hsane.excl m q f v hpte (hF.vmaAt ▸ hv) (hpriv v hv))
  rw [hfault.content] at hstore
  refine ⟨⟨f, ?_⟩, ?_, hfault.trans hstore⟩ <;> rw [store_eq hpte]
  · exact hpte
  · exact hsane.setFrame rfl

theorem writeByte_holds (hs : c.mem.Sane) (hc : c.reg.Coherent) (hreuse : env.ReuseSound)
    (harmed : ∀ v, (c.mem.mm m).vmaAt (pageBase addr) = some v → v.shared = false → c.Armed m (pageBase addr))
    (hpriv : ∀ v, (c.mem.mm m).vmaAt (pageBase addr) = some v → v.shared = false) :
    Holds m c.mem (if (c.mem.mm m).mayWrite addr then putByte addr byte (c.mem.content m) else c.mem.content m)
      (c.writeByte env m addr byte).mem := by
  unfold Core.writeByte Mm.mayWrite
  cases hf : c.writeFault env m (pageBase addr) with
  | none =>
    have hno : ¬((c.mem.mm m).vmaAt (pageBase addr)).any VmArea.writable = true := fun hany => by
      obtain ⟨v, hv, hw⟩ := (Option.any_eq_true _ _).mp hany
      obtain ⟨c', hc'⟩ := writeFault_isSome env hv hw
      rw [hf] at hc'
      cases hc'
    rw [if_neg hno]
    exact .refl m c.mem
  | some c' =>
    obtain ⟨v, hv, hw, -⟩ := fault_cases hc hf
    rw [if_pos (by rw [hv]; exact hw)]
    have hstore := writeFault_store (g := fun data => Function.update data ⟨addr % pageSize, Nat.mod_lt _ (by decide)⟩ byte)
      hs hc hreuse (pageBase_dvd addr) harmed hpriv hf
    exact hstore.2.2.holds

/-! ### The restore -/

/-- `recover_memory_snapshot` empties the page: its entry was made on demand, and the page got a frame since. -/
def TaskData.empties (d : TaskData) (page : Nat) : Bool :=
  (d.getSnapshotPage page).any fun sp => sp.inDirtyList && !sp.isPrivate && (sp.isNonePte && sp.hasHadPte)

/-- What the rounds of some pages do to the pages that were not selected: one that is emptied gets the bytes behind it. -/
structure Lapses (h : Home) (l : List Nat) (c c' : Core) : Prop where
  holds : Holds h.m c.mem (c'.mem.content h.m) c'.mem
  others : ∀ p, ¬h.sel p → c'.mem.content h.m p =
    if p ∈ l ∧ (c.reg.data h.id).empties p = true then c.mem.base h.m p else c.mem.content h.m p
  pte : ∀ p, p ∉ l → (c'.mem.mm h.m).pte p = (c.mem.mm h.m).pte p

theorem Lapses.cons {c₁ : Core} {l : List Nat} (h₁ : Lapses h [q] c c₁) (h₂ : Lapses h l c₁ c') (hq : q ∉ l)
    (hentry : ∀ p, p ≠ q → (c₁.reg.data h.id).getSnapshotPage p = (c.reg.data h.id).getSnapshotPage p) :
    Lapses h (q :: l) c c' where
  holds := h₁.holds.trans h₂.holds
  others p hp := by
    rw [h₂.others p hp, h₁.others p hp, h₁.holds.base]
    by_cases hpq : p = q
    · subst hpq
      simp [hq]
    · have hempties : (c₁.reg.data h.id).empties p = (c.reg.data h.id).empties p := by
        unfold TaskData.empties
        rw [hentry p hpq]
      simp [hpq, hempties]
  pte p hp := by
    rw [List.mem_cons, not_or] at hp
    rw [h₂.pte p hp.2, h₁.pte p (by simpa using hp.1)]

/-- A saved page is written back and protected again. -/
theorem recoverPage_puts {sp : SnapshotPage} {id : Nat} (hs : c.mem.Sane) (hc : c.reg.Coherent) (henv : env.Allocates)
    (hreuse : env.ReuseSound) (hd : pageSize ∣ q) (harmed : ∀ v, (c.mem.mm m).vmaAt q = some v → v.shared = false → c.Armed m q)
    (hv : (c.mem.mm m).vmaAt q = some v) (hw : v.writable = true) (hpriv : v.shared = false) (hkey : sp.pageBase = q) :
    Puts m q c.mem (sp.pageData.getD fun _ => 0) (c.recoverPage env m id sp).mem := by
  obtain ⟨c₁, hf⟩ := writeFault_isSome env hv hw
  obtain ⟨⟨f, hpte⟩, hsane, hstore⟩ := writeFault_store (g := fun _ => sp.pageData.getD fun _ => 0) hs hc hreuse hd harmed
    (fun v' hv' => Option.some.inj (hv.symm.trans hv') ▸ hpriv) hf
  have hcopy : (c.copyToUser env m q (sp.pageData.getD fun _ => 0)).1 = c₁.store m q fun _ => sp.pageData.getD fun _ => 0 := by
    unfold Core.copyToUser
    rw [henv.copyToUser q, hf]
    rfl
  obtain ⟨hmem, -⟩ := recoverPage_eq env id hkey hcopy ((hsane.mms m).pte q f true hpte).1
  rw [hmem, hpte]
  have hprotect := puts_protect (w := false) hsane hpte
  rw [hstore.content] at hprotect
  exact hstore.trans hprotect

/-- A page that was not selected keeps its bytes, or it gets those behind it. -/
theorem Puts.lapses (hh : Puts h.m q c.mem B c'.mem)
    (hB : ¬h.sel q → B = if (c.reg.data h.id).empties q then c.mem.base h.m q else c.mem.content h.m q) : Lapses h [q] c c' where
  holds := ⟨hh.mmap, hh.base, fun _ => rfl⟩
  others p hp := by
    by_cases hpq : p = q
    · subst hpq
      rw [hh.content, hB hp]
      simp
    · rw [hh.others p hpq]
      simp [hpq]
  pte p hp := hh.pte p (by simpa using hp)

/-- A round of the loop. -/
theorem Restorable.lapses_recoverEntry (hok : h.Ok) (hR : Restorable h c) (henv : env.Allocates) (hreuse : env.ReuseSound)
    (hwb : WriteBack h c) (hin : q ∈ (c.reg.data h.id).ss.dirtyPages) : Lapses h [q] c (c.recoverEntry env h.m h.id q) := by
  obtain ⟨sp, hsp, hq⟩ := (hR.queued.mem q).mp hin
  have hkeep : Puts h.m q c.mem (c.mem.content h.m q) c.mem := .refl h.m q c.mem
  have hempties : (c.reg.data h.id).empties q = (sp.inDirtyList && !sp.isPrivate && (sp.isNonePte && sp.hasHadPte)) := by
    unfold TaskData.empties
    rw [hsp, Option.any_some]
  unfold Core.recoverEntry
  rw [hsp]
  dsimp only
  by_cases hdirty : (sp.dirty && sp.hasBeenCopied) = true
  · rw [if_pos hdirty]
    have hdirty : sp.dirty = true := (Bool.and_eq_true_iff.mp hdirty).1
    have hsel : h.sel q := by
      by_contra hnot
      have := (hR.loose q sp hnot hsp).2
      rw [hdirty] at this
      cases this
    obtain ⟨v₀, hv₀⟩ := (hok.sel q hsel).2.2
    obtain ⟨v, hv, hw⟩ := hwb q sp hsp hdirty
    have hs : v.shared = false := by
      rw [(hR.vma hv hv₀).2]
      cases hs : v₀.shared with
      | false => rfl
      | true =>
        have := (((hR.pages q v₀ hsel hv₀).quiet hs).entry sp hsp).2
        rw [hq] at this
        cases this
    exact (recoverPage_puts hR.sane hR.coherent henv hreuse (hok.sel q hsel).1 (fun v hv hs => hR.armed hv hs) hv hw hs
      (getSnapshotPage_key hsp)).lapses fun hnot => absurd hsel hnot
  · rw [if_neg hdirty]
    split
    · rename_i hpriv
      exact Puts.lapses hkeep fun _ => by rw [hempties, hpriv]; simp
    rename_i hpriv
    split
    · rename_i hnone
      have hmem := (recoverNonePte_eq h.id q (hR.sane.mms h.m)).1
      exact Puts.lapses (hmem ▸ puts_zap hR.sane h.m q) fun _ => by rw [hempties, hq, hnone]; simp [hpriv]
    · rename_i hnone
      exact Puts.lapses hkeep fun _ => by rw [hempties]; simp [hnone]

theorem Round.writeBack (hround : Round h q c c') (hok : h.Ok) (hd : (c.reg.data h.id).Queued) (hwb : WriteBack h c) :
    WriteBack h c' := by
  intro p sp hsp hdirty
  have hne : p ≠ q := by
    rintro rfl
    have hin := hround.restorable.queued_of_dirty hok hsp hdirty
    rw [hround.dirtyPages] at hin
    exact hd.nodup.not_mem_erase hin
  rw [hround.others p hne] at hsp
  unfold Mm.vmaAt
  rw [hround.mmap]
  exact hwb p sp hsp hdirty

/-- What the rounds keep the loop keeps. -/
theorem Restorable.recoverEntries_keeps (hok : h.Ok) (hR : Restorable h c) (henv : env.Allocates) (hreuse : env.ReuseSound)
    (hwb : WriteBack h c) {P : Core → Prop} (hP : P c) (hround : ∀ q c, Restorable h c → WriteBack h c →
      q ∈ (c.reg.data h.id).ss.dirtyPages → P c → P (c.recoverEntry env h.m h.id q)) (l : List Nat)
    (hl : (c.reg.data h.id).ss.dirtyPages = l) : P (l.foldl (Core.recoverEntry env h.m h.id) c) := by
  induction l generalizing c with
  | nil => exact hP
  | cons q l ih =>
    have hin : q ∈ (c.reg.data h.id).ss.dirtyPages := hl ▸ List.mem_cons_self
    have hnext := hR.recoverEntry hok henv hreuse hwb hin
    rw [List.foldl_cons]
    refine ih hnext.restorable (hnext.writeBack hok hR.queued hwb) (hround q c hR hwb hin hP) ?_
    rw [hnext.dirtyPages, hl, List.erase_cons_head]

theorem Restorable.lapses_recoverEntries (hok : h.Ok) (hR : Restorable h c) (henv : env.Allocates) (hreuse : env.ReuseSound)
    (hwb : WriteBack h c) (l : List Nat) (hl : (c.reg.data h.id).ss.dirtyPages = l) :
    Lapses h l c (l.foldl (Core.recoverEntry env h.m h.id) c) := by
  induction l generalizing c with
  | nil => exact ⟨.refl h.m c.mem, fun _ _ => (if_neg fun hp => List.not_mem_nil hp.1).symm, fun _ _ => rfl⟩
  | cons q l ih =>
    have hin : q ∈ (c.reg.data h.id).ss.dirtyPages := hl ▸ List.mem_cons_self
    have hround := hR.recoverEntry hok henv hreuse hwb hin
    have hnodup := hR.queued.nodup
    rw [hl] at hnodup
    rw [List.foldl_cons]
    refine (hR.lapses_recoverEntry hok henv hreuse hwb hin).cons (ih hround.restorable (hround.writeBack hok hR.queued hwb) ?_)
      (List.nodup_cons.mp hnodup).1 hround.others
    rw [hround.dirtyPages, hl, List.erase_cons_head]

/-- Where the same addresses are mapped as at the take `restore_vmas` makes no call. -/
theorem restoreVmas_idle {σ : Type} {ops : VmOps σ} {fresh : σ → Nat} {allVmas : List SnapshotVma} {vm : σ}
    (hok : VmasOk (fresh vm) (ops.vmas vm)) (hS : SnapshotVmasOk allVmas)
    (hsame : ∀ a, Spans.Covers (ops.vmas vm) a ↔ Spans.Covers allVmas a) : restoreVmas ops allVmas vm = some (vm, 0) := by
  have hlaws : VmLaws ops fresh (fun vm' => vm' = vm) (ops.vmas vm) allVmas := by
    constructor
    · rintro vm' start end_ rfl - - hse hregion
      obtain ⟨hcov, hnot⟩ := hregion start le_rfl hse
      exact absurd ((hsame start).mp hcov) hnot
    · rintro vm' start end_ ss rfl - - hse hss - hregion
      obtain ⟨hnot, hin | hgap⟩ := hregion start le_rfl hse
      · exact absurd ((hsame start).mpr ⟨ss, hss, hin⟩) hnot
      · exact absurd hgap.covers hnot
  obtain ⟨vm', hres, rfl, -⟩ := restoreVmas_spec hlaws hok hS rfl
  exact hres

/-- Where the mappings and the break are as at the take a restore is the loop over the dirty pages. -/
theorem Home.Ok.restore_unmoved (hok : h.Ok) (hs : c.mem.Sane) (hsame : SameButPages h.data (c.reg.data h.id))
    (hcov : ∀ a, Spans.Covers (c.mem.mm h.m).mmap a ↔ Spans.Covers h.mm.mmap a) (hbrk : (c.mem.mm h.m).brk = h.data.ss.oldbrk) :
    ((c.restoreBrk env h.m h.data.ss.oldbrk).1.recoverMemorySnapshot env h.m h.id).1 = c.recoverPages env h.m h.id := by
  have hset : c.setBrk h.m h.data.ss.oldbrk = c := by
    unfold Core.setBrk Core.setMem Memory.setMm
    rw [← hbrk, Function.update_eq_self]
  have hall : (c.reg.data h.id).ss.allVmas = h.data.ss.allVmas := by rw [hsame]
  have hmapped : ∀ a, Spans.Covers ((Core.vmOps env h.m).vmas c) a ↔ Spans.Covers h.data.ss.allVmas a := fun a => by
    rw [hok.covers_allVmas]
    exact hcov a
  have hswept : c.sweptVmas env h.m h.id = (c, 0) := by
    unfold Core.sweptVmas
    have hidle := @restoreVmas_idle Core (Core.vmOps env h.m) (fun c => (c.mem.mm h.m).freshVma) _ c (hs.mms h.m).vmas
      hok.snapshotVmasOk hmapped
    rw [hall, hidle]
    split <;> rfl
  have hW : Whole h c := ⟨fun a => (hcov a).mpr, hbrk⟩
  rw [(hW.restoreBrk env).1, hset, recoverMemorySnapshot_eq, hswept]
  rfl

/-- A restore of a process that has left its mappings as they are is the loop over the dirty pages. -/
theorem Restorable.restore_whole (hok : h.Ok) (hR : Restorable h c) (hW : Whole h c) :
    ((c.restoreBrk env h.m h.data.ss.oldbrk).1.recoverMemorySnapshot env h.m h.id).1 = c.recoverPages env h.m h.id := by
  refine hok.restore_unmoved hR.sane hR.same (fun a => ⟨fun ha => ?_, hW.mapped a⟩) hW.brk
  obtain ⟨v, hv⟩ := Option.isSome_iff_exists.mp (Spans.find_isSome.mpr ha)
  obtain ⟨v₀, hv₀, -⟩ := hR.kind a v hv
  exact covers_of_vmaAt hv₀

/-- What is to be written back is mapped and writable. -/
theorem Restorable.writeBack (hok : h.Ok) (hR : Restorable h c) (hw : DirtyWritable h c) (hW : Whole h c) : WriteBack h c := by
  intro p sp hsp hdirty
  have hsel : h.sel p := by
    by_contra hnot
    have := (hR.loose p sp hnot hsp).2
    rw [hdirty] at this
    cases this
  obtain ⟨v₀, hv₀⟩ := (hok.sel p hsel).2.2
  obtain ⟨v, hv⟩ := Option.isSome_iff_exists.mp (Spans.find_isSome.mpr (hW.mapped p (covers_of_vmaAt hv₀)))
  exact ⟨v, hv, hw p sp v hsp hdirty hv⟩

/-- The pages that are not selected, after a restore. -/
theorem Restorable.lapses (hok : h.Ok) (hR : Restorable h c) (hw : DirtyWritable h c) (hW : Whole h c) (henv : env.Allocates)
    (hreuse : env.ReuseSound) : Lapses h (c.reg.data h.id).ss.dirtyPages c (c.recoverPages env h.m h.id) :=
  hR.lapses_recoverEntries hok henv hreuse (hR.writeBack hok hw hW) _ rfl

/-- An emptied page is queued. -/
theorem Lapses.unselected (hL : Lapses h (c.reg.data h.id).ss.dirtyPages c c') (hd : (c.reg.data h.id).Queued) (hp : ¬h.sel p) :
    c'.mem.content h.m p = if (c.reg.data h.id).empties p then c.mem.base h.m p else c.mem.content h.m p := by
  have hmem : (c.reg.data h.id).empties p = true → p ∈ (c.reg.data h.id).ss.dirtyPages := fun he => by
    obtain ⟨sp, hsp, hflags⟩ := (Option.any_eq_true _ _).mp he
    exact (hd.mem p).mpr ⟨sp, hsp, by simp at hflags; exact hflags.1.1⟩
  simp only [hL.others p hp, and_iff_right_of_imp hmem]

/-! ### Entries of pages of the linked VMAs -/

/-- Only pages of the linked VMAs have entries. -/
def Inside (h : Home) (c : Core) : Prop :=
  ∀ p, ((c.reg.data h.id).getSnapshotPage p).isSome → h.data.isSnapshottedAddress p = true

theorem PageUpdated.isSome_noted {d d' : TaskData} (hupd : PageUpdated d q (d.notedEntry q) d' ∨ env.snapshotPage q = false ∧ d' = d)
    (hsome : (d'.getSnapshotPage q).isSome) : (d.getSnapshotPage q).isSome ∨ d.isSnapshottedAddress q = true := by
  rcases hupd with hupd | ⟨-, rfl⟩
  · rw [hupd.entry, TaskData.notedEntry] at hsome
    cases hd : d.getSnapshotPage q with
    | some sp => exact Or.inl rfl
    | none =>
      rw [hd] at hsome
      cases hin : d.isSnapshottedAddress q with
      | true => exact Or.inr rfl
      | false => simp [hin] at hsome
  · exact Or.inl hsome

/-- A fault makes an entry for a page of a linked VMA only. -/
theorem Inside.writeFault (hI : Inside h c) (hR : Restorable h c) (hf : c.writeFault env h.m q = some c') : Inside h c' := by
  obtain ⟨v, hv, -, hcase⟩ := fault_cases hR.coherent hf
  have ht := hcase.touched hR.coherent
  intro p hp
  by_cases hpq : p = q
  swap
  · rw [(ht.data h.id hR.live).others p hpq] at hp
    exact hI p hp
  subst hpq
  have hlinked : ∀ d, SameButPages h.data d → d.isSnapshottedAddress p = true → h.data.isSnapshottedAddress p = true :=
    fun d hd hin => (isSnapshottedAddress_congr hd).symm.trans hin
  cases hcase with
  | ready => exact hI p hp
  | mkwrite hpte hplace hrec hmem hoops =>
    rw [(hrec.data h.id hR.live).entry, Option.isSome_map] at hp
    exact hI p hp
  | @copied f c₁ c' hpte hs hrec hmem₁ hnoted hmem hoops hreuse =>
    have hupd := hrec.data h.id hR.live
    rcases PageUpdated.isSome_noted (hnoted.data h.id (by rw [hrec.live, hmem₁, hR.live])) hp with hp | hin
    · rw [hupd.entry, Option.isSome_map] at hp
      exact hI p hp
    · exact hlinked _ (hR.same.trans hupd.same) hin
  | mapped hpte hs hmem hreg hoops =>
    rw [hreg] at hp
    exact hI p hp
  | fresh hpte hs hnoted hmem hoops =>
    rcases PageUpdated.isSome_noted (hnoted.data h.id hR.live) hp with hp | hin
    · exact hI p hp
    · exact hlinked _ hR.same hin

theorem Inside.readByte (hI : Inside h c) : Inside h (c.readByte env h.m addr) := by
  unfold Core.readByte
  cases hf : c.readFault env h.m (pageBase addr) with
  | none => exact hI
  | some c' =>
    obtain ⟨v, -, -, hcase⟩ := readFault_cases hf
    unfold Inside
    rw [Option.getD_some, hcase.reg]
    exact hI

theorem Inside.writeByte (hI : Inside h c) (hR : Restorable h c) : Inside h (c.writeByte env h.m addr byte) := by
  unfold Core.writeByte
  cases hf : c.writeFault env h.m (pageBase addr) with
  | none => exact hI
  | some c' =>
    have hI' := hI.writeFault hR hf
    dsimp only
    unfold Core.store
    split <;> exact hI'

theorem Inside.recoverEntry (hI : Inside h c) (hok : h.Ok) (hR : Restorable h c) (hwb : WriteBack h c) (henv : env.Allocates)
    (hreuse : env.ReuseSound) (hin : q ∈ (c.reg.data h.id).ss.dirtyPages) : Inside h (c.recoverEntry env h.m h.id q) := by
  intro p hp
  by_cases hpq : p = q
  · subst hpq
    obtain ⟨sp, hsp, -⟩ := (hR.queued.mem p).mp hin
    exact hI p (hsp ▸ rfl)
  · rw [(hR.recoverEntry hok henv hreuse hwb hin).others p hpq] at hp
    exact hI p hp

end
end AflSnapshot
