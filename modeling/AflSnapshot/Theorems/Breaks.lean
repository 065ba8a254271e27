import AflSnapshot.Theorems.Reachable

/-! # The program break

`restore_brk` compares the page-aligned breaks, and hands the kernel the breaks as they are. It does what it is for where
the heap needs no change, and else if and only if the lower one of the two breaks is at a page boundary: the kernel
refuses to unmap or to map from anywhere else. -/

namespace AflSnapshot
open Spans

/-- What is mapped at an address: the flags and the object. -/
def Mm.kindAt (mm : Mm) (a : Nat) : Option (Nat × Option Nat) := (mm.vmaAt a).map fun v => (v.vmFlags, v.file)

/-- The heap from `start` on is mapped up to `top`: it is anonymous and private. -/
def Mm.HeapTo (mm : Mm) (start top : Nat) : Prop :=
  ∀ a, start ≤ a → a < top → ∃ flags, mm.kindAt a = some (flags, none) ∧ hasFlag flags vmShared = false

/-- The break is `brk` again, the heap ends at its page, and all else is mapped as before. -/
structure BrkRestored (m start brk : Nat) (c : Core) (r : Core × Int) : Prop where
  result : r.2 = 0
  mem : r.1.mem = c.mem.setMm m (r.1.mem.mm m)
  reset : (r.1.mem.mm m).brk = brk
  heap : (r.1.mem.mm m).HeapTo start (pageAlign brk)
  above : ∀ a, pageAlign brk ≤ a → a < pageAlign (c.mem.mm m).brk → (r.1.mem.mm m).kindAt a = none
  others : ∀ a, ¬(pageAlign brk ≤ a ∧ a < pageAlign (c.mem.mm m).brk) → ¬(pageAlign (c.mem.mm m).brk ≤ a ∧ a < pageAlign brk) →
    (r.1.mem.mm m).kindAt a = (c.mem.mm m).kindAt a ∧ (r.1.mem.mm m).pte a = (c.mem.mm m).pte a

/-- `restore_brk` restores the break where the kernel can, and does nothing where it fails. -/
structure BrkKept (m start brk : Nat) (c : Core) : Prop where
  restores : ∀ env : Env, (∀ a n, env.vmMunmap a n = true) → (∀ a n, env.vmBrk a n = true) →
    BrkRestored m start brk c (c.restoreBrk env m brk)
  fails : ∀ env, (c.restoreBrk env m brk).2 = -1 → (c.restoreBrk env m brk).1.mem = c.mem

section
variable {env : Env} {m start end_ len brk a : Nat} {c : Core} {mm : Mm}

/-! ### Mappings -/

theorem kindAt_eq_none : mm.kindAt a = none ↔ ¬Covers mm.mmap a := by
  unfold Mm.kindAt
  rw [Option.map_eq_none_iff]
  exact find_eq_none

theorem kindAt_unmap (hok : VmasOk mm.freshVma mm.mmap) (hse : start < end_) (ha : ¬(start ≤ a ∧ a < end_)) :
    (mm.unmap start end_).kindAt a = mm.kindAt a := by
  cases hfind : (mm.unmap start end_).vmaAt a with
  | none =>
    have hnone : (mm.unmap start end_).kindAt a = none := by
      unfold Mm.kindAt
      rw [hfind]
      rfl
    have hnot : ¬Covers mm.mmap a := fun hc => kindAt_eq_none.mp hnone ((covers_unmapVmas hse).mpr ⟨hc, ha⟩)
    rw [hnone, kindAt_eq_none.mpr hnot]
  | some w =>
    obtain ⟨v, hv, hfile, hflags⟩ := find_unmapVmas hok hfind
    have hv : mm.vmaAt a = some v := hv
    unfold Mm.kindAt
    rw [hfind, hv, Option.map_some, Option.map_some, hfile, hflags]

theorem kindAt_unmap_self (hse : start < end_) (h1 : start ≤ a) (h2 : a < end_) : (mm.unmap start end_).kindAt a = none :=
  kindAt_eq_none.mpr fun hc => ((covers_unmapVmas hse).mp hc).2 ⟨h1, h2⟩

/-- The VMAs with a new one in a free range. -/
theorem kindAt_mapAnon (hok : VmasOk mm.freshVma mm.mmap) (prot : Nat) (ha : ¬(start ≤ a ∧ a < end_)) :
    (mm.mapAnon start end_ prot).kindAt a = mm.kindAt a := by
  have hout : ¬In a (anonVma mm.freshVma start end_ prot) := ha
  cases hfind : (mm.mapAnon start end_ prot).vmaAt a with
  | none =>
    have hnone : (mm.mapAnon start end_ prot).kindAt a = none := by
      unfold Mm.kindAt
      rw [hfind]
      rfl
    have hnot : ¬Covers mm.mmap a := fun hc => kindAt_eq_none.mp hnone (covers_insertVma.mpr (Or.inr hc))
    rw [hnone, kindAt_eq_none.mpr hnot]
  | some w =>
    rcases find_insertVma hok hfind with ⟨-, hin⟩ | hv
    · exact absurd hin hout
    · have hv : mm.vmaAt a = some w := hv
      unfold Mm.kindAt
      rw [hfind, hv]

theorem kindAt_mapAnon_self (hok : VmasOk mm.freshVma mm.mmap) (hs : pageSize ∣ start) (he : pageSize ∣ end_)
    (htop : end_ < ulongMax) (hfree : ∀ a, start ≤ a → a < end_ → ¬Covers mm.mmap a) (prot : Nat) (h1 : start ≤ a)
    (h2 : a < end_) : (mm.mapAnon start end_ prot).kindAt a = some ((anonVma mm.freshVma start end_ prot).vmFlags, none) := by
  have hse : start < end_ := by omega
  have hok' : VmasOk (mm.freshVma + 1) (insertVma (anonVma mm.freshVma start end_ prot) mm.mmap) :=
    hok.insert (v := anonVma mm.freshVma start end_ prot) hs he hse htop rfl hfree
  have hfind : (mm.mapAnon start end_ prot).vmaAt a = some (anonVma mm.freshVma start end_ prot) :=
    (Ordered.find_eq_some hok'.ordered).mpr ⟨mem_insertVma.mpr (Or.inl rfl), h1, h2⟩
  unfold Mm.kindAt
  rw [hfind]
  rfl

/-! ### The kernel's calls -/

variable (env m) in
/-- `vm_munmap` goes through for a range at a page boundary, or does nothing to the memory. -/
theorem doMunmap_cases (h : c.reg.Coherent) (start : Nat) (hlen : 0 < len) :
    pageSize ∣ start ∧ (c.doMunmap env m start len).2 = 0 ∨
    (¬pageSize ∣ start ∨ env.vmMunmap start len = false) ∧ (c.doMunmap env m start len).2 < 0 ∧
      (c.doMunmap env m start len).1.mem = c.mem := by
  have hmem := (doMunmapHook_spec env m start len h).2.1
  unfold Core.doMunmap
  dsimp only
  split
  · rename_i hargs
    refine Or.inr ⟨Or.inl fun hd => ?_, show (-22 : Int) < 0 by decide, hmem⟩
    exact hargs.elim (fun hs => hs (Nat.mod_eq_zero_of_dvd hd)) hlen.ne'
  rename_i hargs
  rw [not_or, not_not] at hargs
  split
  · exact Or.inl ⟨Nat.dvd_of_mod_eq_zero hargs.1, rfl⟩
  · rename_i hcall
    exact Or.inr ⟨Or.inr (by simpa using hcall), show (-12 : Int) < 0 by decide, hmem⟩

/-- `vm_brk` of a range that is free goes through at a page boundary, or does nothing. -/
theorem vmBrk_cases (env : Env) (hlen : 0 < len)
    (hfree : pageSize ∣ start → (c.mem.mm m).unmapped start (start + pageAlign len) = true) :
    pageSize ∣ start ∧ c.vmBrk env m start len =
      (c.setMem (c.mem.setMm m ((c.mem.mm m).mapAnon start (start + pageAlign len) (protRead ||| protWrite))), 0) ∨
    (¬pageSize ∣ start ∨ env.vmBrk start len = false) ∧ (c.vmBrk env m start len).2 < 0 ∧ (c.vmBrk env m start len).1 = c := by
  by_cases hs : pageSize ∣ start
  swap
  · rw [vmBrk_misaligned hlen fun hmod => hs (Nat.dvd_of_mod_eq_zero hmod)]
    exact Or.inr ⟨Or.inl hs, show (-22 : Int) < 0 by decide, rfl⟩
  unfold Core.vmBrk
  rw [if_neg hlen.ne', if_neg (not_not.mpr (Nat.mod_eq_zero_of_dvd hs)), if_pos (hfree hs)]
  dsimp only
  by_cases hcall : env.vmBrk start len = true
  · rw [if_pos ⟨rfl, hcall⟩]
    exact Or.inl ⟨hs, rfl⟩
  · rw [if_neg fun h => hcall h.2]
    exact Or.inr ⟨Or.inr (by simpa using hcall), show (-12 : Int) < 0 by decide, rfl⟩

/-! ### The break stays in its page, moves down, or moves up -/

theorem setBrk_mem (m brk : Nat) (c : Core) : (c.setBrk m brk).mem = c.mem.setMm m { c.mem.mm m with brk } := rfl

theorem restoreBrk_same (env : Env) (h : pageAlign (c.mem.mm m).brk = pageAlign brk) :
    c.restoreBrk env m brk = (c.setBrk m brk, 0) := by
  unfold Core.restoreBrk
  dsimp only
  rw [if_pos h]

theorem restoreBrk_shrinks (env : Env) (hc : c.reg.Coherent) (h : pageAlign brk < pageAlign (c.mem.mm m).brk) :
    (pageSize ∣ brk ∧ (c.restoreBrk env m brk).2 = 0 ∧ (c.restoreBrk env m brk).1.mem =
      c.mem.setMm m { (c.mem.mm m).unmap brk (pageAlign (c.mem.mm m).brk) with brk }) ∨
    (¬pageSize ∣ brk ∨ ∃ a n, env.vmMunmap a n = false) ∧ (c.restoreBrk env m brk).2 = -1 ∧
      (c.restoreBrk env m brk).1.mem = c.mem := by
  have hlt : brk < (c.mem.mm m).brk := by
    by_contra hle
    have := pageAlign_mono (Nat.le_of_not_lt hle)
    omega
  unfold Core.restoreBrk
  dsimp only
  rw [if_neg h.ne', if_pos hlt.le]
  rcases doMunmap_cases env m hc brk (Nat.sub_pos_of_lt hlt) with ⟨hd, hzero⟩ | ⟨hwhy, hneg, hmem⟩
  · rw [hzero, if_neg (by decide)]
    refine Or.inl ⟨hd, rfl, ?_⟩
    have hend : brk + pageAlign ((c.mem.mm m).brk - brk) = pageAlign (c.mem.mm m).brk := by
      rw [← pageAlign_add hd, Nat.add_sub_cancel' hlt.le]
    rw [setBrk_mem, (doMunmap_mem hzero).2.2, setMm_setMm, mm_setMm_self, hend]
  · rw [if_pos hneg]
    exact Or.inr ⟨hwhy.imp_right fun hcall => ⟨_, _, hcall⟩, rfl, hmem⟩

/-- What is to be mapped again is free, and the page above it. -/
theorem restoreBrk_grows (env : Env) (hok : VmasOk (c.mem.mm m).freshVma (c.mem.mm m).mmap)
    (h : pageAlign (c.mem.mm m).brk < pageAlign brk)
    (hroom : ∀ a, pageAlign (c.mem.mm m).brk ≤ a → a < pageAlign brk + pageSize → ¬Covers (c.mem.mm m).mmap a) :
    pageSize ∣ (c.mem.mm m).brk ∧ c.restoreBrk env m brk =
      ((c.setMem (c.mem.setMm m ((c.mem.mm m).mapAnon (c.mem.mm m).brk (pageAlign brk) (protRead ||| protWrite)))).setBrk m brk, 0) ∨
    (¬pageSize ∣ (c.mem.mm m).brk ∨ ∃ a n, env.vmBrk a n = false) ∧ c.restoreBrk env m brk = (c, -1) := by
  have hlt : (c.mem.mm m).brk < brk := by
    by_contra hle
    have := pageAlign_mono (Nat.le_of_not_lt hle)
    omega
  have hend : pageSize ∣ (c.mem.mm m).brk → (c.mem.mm m).brk + pageAlign (brk - (c.mem.mm m).brk) = pageAlign brk := fun hd => by
    rw [← pageAlign_add hd, Nat.add_sub_cancel' hlt.le]
  have hgrow : pageSize ∣ (c.mem.mm m).brk ∧ Core.restoreBrk.growBrk env m brk (c.mem.mm m).brk c =
      ((c.setMem (c.mem.setMm m ((c.mem.mm m).mapAnon (c.mem.mm m).brk (pageAlign brk) (protRead ||| protWrite)))).setBrk m brk, 0) ∨
      (¬pageSize ∣ (c.mem.mm m).brk ∨ ∃ a n, env.vmBrk a n = false) ∧
        Core.restoreBrk.growBrk env m brk (c.mem.mm m).brk c = (c, -1) := by
    unfold Core.restoreBrk.growBrk
    have hfree : pageSize ∣ (c.mem.mm m).brk → (c.mem.mm m).unmapped (c.mem.mm m).brk
        ((c.mem.mm m).brk + pageAlign (brk - (c.mem.mm m).brk)) = true := fun hd => by
      have hcur := pageAlign_of_dvd hd
      rw [hend hd]
      exact (Mm.unmapped_iff hok (by omega)).mpr fun a h1 h2 => hroom a (by omega) (by omega)
    rcases vmBrk_cases env (Nat.sub_pos_of_lt hlt) hfree with ⟨hd, heq⟩ | ⟨hwhy, hneg, hsame⟩
    · rw [heq, hend hd]
      exact Or.inl ⟨hd, rfl⟩
    · dsimp only
      rw [if_pos hneg, hsame]
      exact Or.inr ⟨hwhy.imp_right fun hcall => ⟨_, _, hcall⟩, rfl⟩
  unfold Core.restoreBrk
  dsimp only
  rw [if_neg h.ne, if_neg hlt.not_ge]
  split
  swap
  · exact hgrow
  rename_i next hnext
  split
  swap
  · exact hgrow
  rename_i hguard
  refine Or.inr ⟨Or.inl fun hd => ?_, rfl⟩
  -- The first VMA that ends above a break at a page boundary would start in the free range.
  have hin := List.mem_of_find?_eq_some hnext
  have hend' : (c.mem.mm m).brk < next.vmEnd := by simpa using List.find?_some hnext
  have hpos : next.vmStart < next.vmEnd := hok.ordered.pos next hin
  have hcur := pageAlign_of_dvd hd
  have hle := le_pageAlign brk
  refine hroom (max (c.mem.mm m).brk next.vmStart) ?_ ?_ ⟨next, hin, le_max_right _ _, max_lt hend' hpos⟩
  · rw [hcur]
    exact le_max_left _ _
  · exact max_lt (by omega) (by omega)

/-! ### The break -/

/-- The heap needs no change, or the lower one of the breaks is at a page boundary. -/
def BreaksFit (brk cur : Nat) : Prop :=
  pageAlign cur = pageAlign brk ∨ brk ≤ cur ∧ pageSize ∣ brk ∨ cur ≤ brk ∧ pageSize ∣ cur

/-- Nothing is in the range that is to be mapped again, nor in the page above it. -/
def Mm.RoomFor (mm : Mm) (brk : Nat) : Prop :=
  ∀ a, pageAlign mm.brk ≤ a → a < pageAlign brk + pageSize → ¬Covers mm.mmap a

theorem brkRestored_same (hheap : (c.mem.mm m).HeapTo start (pageAlign (c.mem.mm m).brk))
    (h : pageAlign (c.mem.mm m).brk = pageAlign brk) : BrkRestored m start brk c (c.setBrk m brk, 0) := by
  have hmm : (c.setBrk m brk).mem.mm m = { c.mem.mm m with brk } := mm_setMm_self
  refine ⟨rfl, ?_, ?_, ?_, fun a h1 h2 => ?_, fun a _ _ => ?_⟩
  · dsimp only
    rw [hmm]
    rfl
  · dsimp only
    rw [hmm]
  · dsimp only
    rw [hmm, ← h]
    exact hheap
  · omega
  · dsimp only
    rw [hmm]
    exact ⟨rfl, rfl⟩

theorem brkRestored_shrinks {r : Core × Int} (hok : VmasOk (c.mem.mm m).freshVma (c.mem.mm m).mmap)
    (hheap : (c.mem.mm m).HeapTo start (pageAlign (c.mem.mm m).brk)) (h : pageAlign brk < pageAlign (c.mem.mm m).brk)
    (hd : pageSize ∣ brk) (hres : r.2 = 0)
    (hmem : r.1.mem = c.mem.setMm m { (c.mem.mm m).unmap brk (pageAlign (c.mem.mm m).brk) with brk }) :
    BrkRestored m start brk c r := by
  have hbrk := pageAlign_of_dvd hd
  have hse : brk < pageAlign (c.mem.mm m).brk := by omega
  have hmm : r.1.mem.mm m = { (c.mem.mm m).unmap brk (pageAlign (c.mem.mm m).brk) with brk } := by
    rw [hmem]
    exact mm_setMm_self
  have hkind : ∀ a, (r.1.mem.mm m).kindAt a = ((c.mem.mm m).unmap brk (pageAlign (c.mem.mm m).brk)).kindAt a := fun a => by
    rw [hmm]
    rfl
  refine ⟨hres, by rw [hmm, hmem], by rw [hmm], fun a h1 h2 => ?_, fun a h1 h2 => ?_, fun a h1 _ => ⟨?_, ?_⟩⟩
  · rw [hkind, kindAt_unmap hok hse (by omega)]
    exact hheap a h1 (by omega)
  · rw [hkind]
    exact kindAt_unmap_self hse (by omega) h2
  · rw [hkind]
    exact kindAt_unmap hok hse (hbrk ▸ h1)
  · rw [hmm]
    exact if_neg (hbrk ▸ h1)

theorem brkRestored_grows (hok : VmasOk (c.mem.mm m).freshVma (c.mem.mm m).mmap) (htop : pageAlign brk < ulongMax)
    (hheap : (c.mem.mm m).HeapTo start (pageAlign (c.mem.mm m).brk)) (hroom : (c.mem.mm m).RoomFor brk)
    (h : pageAlign (c.mem.mm m).brk < pageAlign brk) (hd : pageSize ∣ (c.mem.mm m).brk) :
    BrkRestored m start brk c
      ((c.setMem (c.mem.setMm m ((c.mem.mm m).mapAnon (c.mem.mm m).brk (pageAlign brk) (protRead ||| protWrite)))).setBrk m brk,
        0) := by
  have hcur := pageAlign_of_dvd hd
  unfold Mm.RoomFor at hroom
  rw [hcur] at h hheap hroom
  have hmem : ((c.setMem (c.mem.setMm m ((c.mem.mm m).mapAnon (c.mem.mm m).brk (pageAlign brk)
      (protRead ||| protWrite)))).setBrk m brk).mem = c.mem.setMm m
        { (c.mem.mm m).mapAnon (c.mem.mm m).brk (pageAlign brk) (protRead ||| protWrite) with brk } := by
    rw [setBrk_mem]
    show (c.mem.setMm m _).setMm m { (c.mem.setMm m _).mm m with brk } = _
    rw [setMm_setMm, mm_setMm_self]
  generalize ((c.setMem (c.mem.setMm m ((c.mem.mm m).mapAnon (c.mem.mm m).brk (pageAlign brk)
    (protRead ||| protWrite)))).setBrk m brk) = c' at hmem
  have hmm : c'.mem.mm m = { (c.mem.mm m).mapAnon (c.mem.mm m).brk (pageAlign brk) (protRead ||| protWrite) with brk } := by
    rw [hmem]
    exact mm_setMm_self
  have hkind : ∀ a, (c'.mem.mm m).kindAt a =
      ((c.mem.mm m).mapAnon (c.mem.mm m).brk (pageAlign brk) (protRead ||| protWrite)).kindAt a := fun a => by
    rw [hmm]
    rfl
  refine ⟨rfl, by rw [hmm, hmem], by rw [hmm], fun a h1 h2 => ?_, fun a h1 h2 => ?_, fun a _ h2 => ⟨?_, by rw [hmm]; rfl⟩⟩
  · rw [hkind]
    by_cases ha : a < (c.mem.mm m).brk
    · rw [kindAt_mapAnon hok _ (by omega)]
      exact hheap a h1 ha
    · refine ⟨_, kindAt_mapAnon_self hok hd (pageAlign_dvd brk) htop (fun b h3 h4 => hroom b h3 (by omega)) _ (by omega) h2, ?_⟩
      exact anonVma_shared ..
  · omega
  · rw [hkind]
    exact kindAt_mapAnon hok _ (hcur ▸ h2)

/-- `restore_brk` restores the break, and else does nothing, if and only if the breaks fit. -/
theorem brkKept_iff (hc : c.reg.Coherent) (hm : c.mem.Mapped) (hbrk : pageAlign brk < ulongMax)
    (hheap : (c.mem.mm m).HeapTo start (pageAlign (c.mem.mm m).brk))
    (hroom : pageAlign (c.mem.mm m).brk < pageAlign brk → (c.mem.mm m).RoomFor brk) :
    BrkKept m start brk c ↔ BreaksFit brk (c.mem.mm m).brk := by
  have hok := (hm m).1
  rcases lt_trichotomy (pageAlign (c.mem.mm m).brk) (pageAlign brk) with hlt | heq | hgt
  · have hle : ¬brk ≤ (c.mem.mm m).brk := fun hle => by
      have := pageAlign_mono hle
      omega
    have hfit : BreaksFit brk (c.mem.mm m).brk ↔ pageSize ∣ (c.mem.mm m).brk := by
      unfold BreaksFit
      exact ⟨fun h => h.elim (fun h => by omega) (Or.rec (fun h => absurd h.1 hle) And.right), fun h => Or.inr (Or.inr ⟨by omega, h⟩)⟩
    rw [hfit]
    refine ⟨fun h => ?_, fun hd => ⟨fun env hunmap hcall => ?_, fun env hres => ?_⟩⟩
    · rcases restoreBrk_grows .calm hok hlt (hroom hlt) with ⟨hd, -⟩ | ⟨-, hfail⟩
      · exact hd
      · have := (h.restores .calm (fun _ _ => rfl) fun _ _ => rfl).result
        rw [hfail] at this
        cases this
    · rcases restoreBrk_grows env hok hlt (hroom hlt) with ⟨-, hgrown⟩ | ⟨hwhy, -⟩
      · rw [hgrown]
        exact brkRestored_grows hok hbrk hheap (hroom hlt) hlt hd
      · obtain ⟨a, n, hno⟩ := hwhy.resolve_left (not_not.mpr hd)
        rw [hcall] at hno
        cases hno
    · rcases restoreBrk_grows env hok hlt (hroom hlt) with ⟨-, hgrown⟩ | ⟨-, hfail⟩
      · rw [hgrown] at hres
        cases hres
      · rw [hfail]
  · refine iff_of_true ⟨fun env _ _ => ?_, fun env hres => ?_⟩ (Or.inl heq)
    · rw [restoreBrk_same env heq]
      exact brkRestored_same hheap heq
    · rw [restoreBrk_same env heq] at hres
      cases hres
  · have hle : ¬(c.mem.mm m).brk ≤ brk := fun hle => by
      have := pageAlign_mono hle
      omega
    have hfit : BreaksFit brk (c.mem.mm m).brk ↔ pageSize ∣ brk := by
      unfold BreaksFit
      exact ⟨fun h => h.elim (fun h => by omega) (Or.rec And.right (fun h => absurd h.1 hle)), fun h => Or.inr (Or.inl ⟨by omega, h⟩)⟩
    rw [hfit]
    refine ⟨fun h => ?_, fun hd => ⟨fun env hunmap hcall => ?_, fun env hres => ?_⟩⟩
    · rcases restoreBrk_shrinks .calm hc hgt with ⟨hd, -⟩ | ⟨-, hfail, -⟩
      · exact hd
      · have := (h.restores .calm (fun _ _ => rfl) fun _ _ => rfl).result
        rw [hfail] at this
        cases this
    · rcases restoreBrk_shrinks env hc hgt with ⟨-, hzero, hmem⟩ | ⟨hwhy, -⟩
      · exact brkRestored_shrinks hok hheap hgt hd hzero hmem
      · obtain ⟨a, n, hno⟩ := hwhy.resolve_left (not_not.mpr hd)
        rw [hunmap] at hno
        cases hno
    · rcases restoreBrk_shrinks env hc hgt with ⟨-, hzero, -⟩ | ⟨-, -, hmem⟩
      · rw [hzero] at hres
        cases hres
      · exact hmem

end

/-- A heap of two pages. -/
def grownHeap : Core := (World.boot { heapMm with brk := 12288 } [1]).core

theorem grownHeap_ok : grownHeap.reg.Coherent ∧ grownHeap.mem.Mapped ∧
    (grownHeap.mem.mm 0).HeapTo 4096 (pageAlign (grownHeap.mem.mm 0).brk) := by
  have hkept : (World.boot { heapMm with brk := 12288 } [1]).Kept := boot_kept [1] heapMm_vmas (by decide)
  refine ⟨hkept.coherent, hkept.mapped, fun a h1 h2 => ⟨vmRead ||| vmWrite, ?_, by decide⟩⟩
  have hat : (grownHeap.mem.mm 0).vmaAt a = some heapVma := heapMm_vmaAt h1 h2
  unfold Mm.kindAt
  rw [hat]
  rfl

theorem brkKept_onePage : BrkKept 0 4096 8192 grownHeap :=
  (brkKept_iff grownHeap_ok.1 grownHeap_ok.2.1 (by decide) grownHeap_ok.2.2 (fun h => absurd h (by decide))).mpr
    (Or.inr (Or.inl (by decide)))

/-- With a break in the middle of the first page the heap keeps its second one. -/
theorem brkKept_fails : ¬BrkKept 0 4096 6000 grownHeap ∧
    (grownHeap.restoreBrk .calm 0 6000).2 = -1 ∧ ((grownHeap.restoreBrk .calm 0 6000).1.mem.mm 0).brk = 12288 := by
  refine ⟨fun h => ?_, by decide, by decide⟩
  exact absurd (h.restores .calm (fun _ _ => rfl) fun _ _ => rfl).result (by decide)

end AflSnapshot
