import AflSnapshot.Theorems.Interleavings
import AflSnapshot.Theorems.Sharing

/-! # Writes that other processes do not see

What one process writes through a private mapping stays its own, as long as no step takes a page's frame from it that the
hook goes on to trust. `World.Isolated` holds in every state of such a run. -/

namespace AflSnapshot
open Runs

structure World.Isolated (w : World) : Prop where
  kept : w.Kept
  safe : w.core.Safe
  tasks : ∀ m, m < w.core.mem.freshMm →
    (w.core.mem.mm m).owner < w.freshTask ∧ (w.task (w.core.mem.mm m).owner).mm = m
  newcomers : ∀ u, w.freshTask ≤ u → w.core.reg.live u = none

section
variable {env : Env} {m m' id page q t u config : Nat} {c c₁ c' : Core} {w w' : World} {v : VmArea} {sp : SnapshotPage}

/-! ### Restore -/

/-- The state in which the loop of a restore starts, and the result so far. -/
def Core.beforeLoop (env : Env) (m id : Nat) (c : Core) : Core × Int :=
  (c.restoreBrk env m (c.reg.data id).ss.oldbrk).1.sweptVmas env m id

theorem restore_eq (c : Core) : c.restore id env m =
    if (c.beforeLoop env m id).2 = 0 then (c.beforeLoop env m id).1.recoverPages env m id else (c.beforeLoop env m id).1 := by
  unfold Core.restore
  rw [recoverMemorySnapshot_eq]
  unfold Core.beforeLoop
  split <;> rfl

variable (env m id) in
theorem steady_beforeLoop (h : c.reg.Coherent) (hm : c.mem.Mapped) (hd : ∀ i, (c.reg.data i).Kept) :
    c.Steady env (c.beforeLoop env m id).1 := by
  have hbrk : c.Steady env (c.restoreBrk env m (c.reg.data id).ss.oldbrk).1 := steady_restoreBrk h (hd id).oldbrk
  exact hbrk.trans (steady_sweptVmas hbrk.coherent (hbrk.mapped hm) ((hd id).congr (hbrk.data id)).allVmas)

variable (env id) in
theorem Core.Safe.beforeLoop (h : c.Safe) (hm : m < c.mem.freshMm) (hd : ∀ i, (c.reg.data i).Kept) :
    c.SafeStep m (c.beforeLoop env m id).1 := by
  have hmunmap : ∀ c₁ start len, c.SafeStep m c₁ → c.SafeStep m (c₁.doMunmap env m start len).1 := fun c₁ start len h₁ =>
    h₁.trans (h₁.safe.doMunmap env (h₁.used hm) start len)
  have hmap : ∀ (c₁ : Core) (start end_ prot : Nat), c.SafeStep m c₁ → pageSize ∣ start → pageSize ∣ end_ → start < end_ →
      end_ < ulongMax → (c₁.mem.mm m).unmapped start end_ = true →
      c.SafeStep m (c₁.setMem (c₁.mem.setMm m ((c₁.mem.mm m).mapAnon start end_ prot))) :=
    fun c₁ start end_ prot h₁ hs he hse htop hfree => h₁.trans (h₁.safe.mapAnon (h₁.used hm) hs he hse htop hfree prot)
  have hbrk : c.SafeStep m (c.restoreBrk env m (c.reg.data id).ss.oldbrk).1 :=
    restoreBrk_keeps (I := fun c₁ => c.SafeStep m c₁) (hd id).oldbrk
      (fun c₁ h₁ => ⟨h₁.safe.coherent, (h₁.safe.sane.mms m).vmas⟩) hmunmap hmap
      (fun c₁ h₁ => h₁.trans (h₁.safe.setBrk (h₁.used hm) _)) (h.refl m)
  have hsteady : c.Steady env (c.restoreBrk env m (c.reg.data id).ss.oldbrk).1 := steady_restoreBrk h.coherent (hd id).oldbrk
  refine sweptVmas_keeps (I := fun c₁ => c.SafeStep m c₁) ((hd id).congr (hsteady.data id)).allVmas hmunmap hmap (fun c₁ h₁ => ?_)
    hbrk
  exact ⟨⟨h₁.freshPfn, h₁.freshMm, h₁.owner, h₁.mm, h₁.records, h₁.exclusive⟩,
    ⟨h₁.safe.sane, h₁.safe.coherent, h₁.safe.owners, h₁.safe.aligned, h₁.safe.armed⟩⟩

theorem Core.Safe.restore (h : c.Safe) (hm : m < c.mem.freshMm) (hmapped : c.mem.Mapped) (hd : ∀ i, (c.reg.data i).Kept)
    (hget : c.reg.getTaskData (c.mem.mm m).owner = some id) (hreuse : env.ReuseSound)
    (hback : (c.beforeLoop env m id).2 = 0 → (c.beforeLoop env m id).1.Rewrites env m id) :
    c.SafeStep m (c.restore id env m) := by
  have hbefore := h.beforeLoop env id hm hd
  have hsteady := steady_beforeLoop env m id h.coherent hmapped hd
  rw [restore_eq]
  split
  swap
  · exact hbefore
  rename_i hres
  have hget' : (c.beforeLoop env m id).1.reg.getTaskData (c.mem.mm m).owner = some id := (hsteady.getTaskData _).trans hget
  cases hmade : ((c.beforeLoop env m id).1.reg.data id).haveSnapshot with
  | true =>
    have hlive : (c.beforeLoop env m id).1.reg.live ((c.beforeLoop env m id).1.mem.mm m).owner = some id := by
      rw [hbefore.owner]
      exact live_eq_some.mpr ⟨hget', hmade⟩
    exact hbefore.trans (hbefore.safe.recoverEntries (hbefore.used hm) hlive hreuse (hback hres) _).1
  | false =>
    -- A record without a snapshot has an empty list.
    have hblank := hbefore.safe.coherent.blank id (getTaskData_spec hget').1 hmade
    unfold Core.recoverPages
    rw [hblank.2.2.2]
    exact hbefore

/-! ### Writes -/

theorem Core.Safe.writeByte (h : c.Safe) (hm : m < c.mem.freshMm) (hreuse : env.ReuseSound) (addr : Nat) (byte : UInt8) :
    c.SafeStep m (c.writeByte env m addr byte) := by
  unfold Core.writeByte
  cases hf : c.writeFault env m (pageBase addr) with
  | none => exact h.refl m
  | some c' =>
    obtain ⟨hsafe, hp, -⟩ := h.writeFault hm hreuse (pageBase_dvd addr) hf
    have hfault : c.SafeStep m c' := ⟨hp.toLocal, hsafe⟩
    exact hfault.trans (hsafe.store m _ _)

/-! ### Take -/

theorem Took.safe {d₀ : TaskData} (hT : Took env t config w id d₀ w') (h : w.core.Safe) (howner : (w.mmOf t).owner = t)
    (hm : (w.task t).mm < w.core.mem.freshMm) : w.core.SafeStep (w.task t).mm w'.core := by
  have hblank : (w.initialized t config d₀).Blank := hT.fresh.2.2
  have hok := h.sane.mms (w.task t).mm
  obtain ⟨done, rest, x, s, hd, hs, hres, -⟩ := take_taken env.take hok.sorted hblank
  have hres : (w.taking env t config d₀).1 = (s.data, s.mm) := hres
  have hmem : w'.core.mem = w.core.mem.setMm (w.task t).mm s.mm := by rw [hT.mem, hres]
  have hmm : w'.core.mem.mm (w.task t).mm = s.mm := by rw [hmem, mm_setMm_self]
  have hr : w.core.mem.Restricts (w.core.mem.setMm (w.task t).mm s.mm) := hs.restricts
  have howner : (w.core.mem.mm (w.task t).mm).owner = t := howner
  have hown' : s.mm.owner = (w.core.mem.mm (w.task t).mm).owner := by rw [hs.tables]
  have hget : ∀ p, (w'.core.reg.data id).getSnapshotPage p = s.data.getSnapshotPage p := fun p => by
    rw [hT.data, hres]
    rfl
  have hlocal : w.core.Local (w.task t).mm w'.core := by
    refine ⟨hmem ▸ hr.freshPfn, by rw [hmem]; rfl, by rw [hmm, hown'], fun m' hm' => by rw [hmem, mm_setMm_of_ne hm'],
      fun u i hu hi => ?_, fun _ _ _ hf hex => hmem ▸ hex.restrict hf hr⟩
    rw [howner] at hu
    rw [hT.others u hu] at hi
    refine ⟨hi, hT.records i fun heq => hu ?_⟩
    -- The record of the take is that of its task.
    have hi' := (getTaskData_spec (live_eq_some.mp ((hT.others u hu).trans hi)).1).2
    rw [heq] at hi'
    exact hi'.symm.trans (getTaskData_spec (live_eq_some.mp hT.live).1).2
  refine ⟨hlocal, h.of_local hm hlocal ?_ hT.coherent (fun i p sp hi hsp => ?_) fun p v hv hpriv => ?_⟩
  · rw [hmem]
    exact h.sane.setMm (hs.mmOk hok) hr fun hle => absurd hm (Nat.not_lt.mpr hle)
  · rw [howner, hT.live] at hi
    obtain rfl := Option.some.inj hi
    rw [hget] at hsp
    rcases hs.page p with ⟨hnone, -⟩ | ⟨-, -, hvis, -⟩
    · rw [hnone] at hsp
      cases hsp
    · exact hvis.aligned
  · rintro i sp f b hi hsp - - hpriv' hpte
    rw [hmm, hown', howner, hT.live] at hi
    obtain rfl := Option.some.inj hi
    rw [hget] at hsp
    rw [hmm] at hpte hv
    rcases hs.page p with ⟨hnone, -⟩ | ⟨hsome, hw, -⟩
    · rw [hnone] at hsp
      cases hsp
    · obtain rfl := Option.some.inj (hsp.symm.trans hsome)
      -- A private entry is that of a writable page.
      cases hq : (w.core.mem.mm (w.task t).mm).pte p with
      | none =>
        rw [hq] at hpriv'
        cases hpriv'
      | present g b' =>
        rw [hq] at hpriv' hw
        have hb : b' = true := hpriv'
        subst hb
        rw [hw] at hpte
        cases hpte
        have hv' : (w.core.mem.mm (w.task t).mm).vmaAt p = some v := by
          unfold Mm.vmaAt at hv ⊢
          rwa [hs.tables] at hv
        rw [hmem]
        exact (h.sane.excl _ p _ v hq hv' hpriv).restrict (h.sane.pfn _ p _ true hq) hr

/-! ### Fork -/

/-- The entries of both sides of a fork. -/
def Mm.forkPte (mm : Mm) (p : Nat) : Pte := if (mm.vmaAt p).any fun v => !v.shared then (mm.pte p).wrprotect else mm.pte p

theorem dupMm_mm {mem : Memory} {owner : Nat} : (mem.dupMm m owner).mm m' =
    if m' = mem.freshMm then { mem.mm m with pte := (mem.mm m).forkPte, owner }
    else if m' = m then { mem.mm m with pte := (mem.mm m).forkPte } else mem.mm m' := by
  show ((mem.setMm m { mem.mm m with pte := (mem.mm m).forkPte }).setMm mem.freshMm
    { mem.mm m with pte := (mem.mm m).forkPte, owner }).mm m' = _
  rw [mm_setMm, mm_setMm]

theorem forkPte_weakens {mm : Mm} {p f : Nat} {b : Bool} (h : mm.forkPte p = .present f b) :
    (∃ b', mm.pte p = .present f b') ∧ ∀ v, mm.vmaAt p = some v → v.shared = false → b = false := by
  unfold Mm.forkPte at h
  split at h
  · obtain ⟨b', hb', -⟩ := wrprotect_weakens _ f b h
    refine ⟨⟨b', hb'⟩, fun _ _ _ => ?_⟩
    rw [hb'] at h
    cases h
    rfl
  · rename_i hshared
    refine ⟨⟨b, h⟩, fun v hv hpriv => absurd ?_ hshared⟩
    rw [hv, Option.any_some, hpriv]
    rfl

theorem Memory.Exclusive.dupMm {mem : Memory} {owner f : Nat} (h : mem.Exclusive m' q f) (hm : m' ≠ m) :
    (mem.dupMm m owner).Exclusive m' q f where
  anon := h.anon
  only m₁ p₁ b hp := by
    have hother : ∀ b', (mem.mm m).pte p₁ = .present f b' → m₁ = m' ∧ p₁ = q := fun b' hb' =>
      absurd (h.only m p₁ b' hb').1.symm hm
    rw [dupMm_mm] at hp
    split at hp
    · obtain ⟨⟨b', hb'⟩, -⟩ := forkPte_weakens hp
      exact hother b' hb'
    · split at hp
      · obtain ⟨⟨b', hb'⟩, -⟩ := forkPte_weakens hp
        exact hother b' hb'
      · exact h.only m₁ p₁ b hp

theorem Memory.Sane.dupMm {mem : Memory} (h : mem.Sane) (hm : m < mem.freshMm) (owner : Nat) : (mem.dupMm m owner).Sane where
  zero := h.zero
  cache := h.cache
  mms m' := by
    have hok : ({ mem.mm m with pte := (mem.mm m).forkPte } : Mm).Ok := ⟨(h.mms m).vmas, fun p f b hp => by
      obtain ⟨⟨b', hb'⟩, -⟩ := forkPte_weakens hp
      exact (h.mms m).pte p f b' hb'⟩
    rw [dupMm_mm]
    split
    · exact ⟨hok.vmas, hok.pte⟩
    · split
      · exact hok
      · exact h.mms m'
  pfn m' p f b hp := by
    rw [dupMm_mm] at hp
    split at hp
    · obtain ⟨⟨b', hb'⟩, -⟩ := forkPte_weakens hp
      exact h.pfn m p f b' hb'
    · split at hp
      · obtain ⟨⟨b', hb'⟩, -⟩ := forkPte_weakens hp
        exact h.pfn m p f b' hb'
      · exact h.pfn m' p f b hp
  excl m' p f v hp hv hpriv := by
    -- No page of a private mapping of either side is writable.
    have hnot : (mem.mm m).forkPte p = .present f true → (mem.mm m).vmaAt p = some v → False := fun hp hv =>
      absurd ((forkPte_weakens hp).2 v hv hpriv) (by simp)
    rw [dupMm_mm] at hp hv
    split at hp
    · rename_i hm'
      rw [if_pos hm'] at hv
      exact (hnot hp hv).elim
    · rename_i hm'
      rw [if_neg hm'] at hv
      split at hp
      · rename_i hmm
        rw [if_pos hmm] at hv
        exact (hnot hp hv).elim
      · rename_i hmm
        rw [if_neg hmm] at hv
        exact (h.excl m' p f v hp hv hpriv).dupMm hmm
  unused m' hm' := by
    have hm' : mem.freshMm + 1 ≤ m' := hm'
    rw [dupMm_mm, if_neg (by omega), if_neg (by omega)]
    exact h.unused m' (by omega)

/-- A fork takes from no page a frame that the hook trusts it to have for itself. -/
theorem Core.Safe.dupMm (h : c.Safe) (hm : m < c.mem.freshMm) {child : Nat} (hchild : c.reg.live child = none)
    (howners : ∀ m', m' < c.mem.freshMm → (c.mem.mm m').owner ≠ child)
    (hfork : ∀ page v, (c.mem.mm m).vmaAt page = some v → v.shared = false → c.Trusted m page → (c.mem.mm m).pte page = .none) :
    (c.setMem (c.mem.dupMm m child)).Safe := by
  have hown : ∀ m', m' ≠ c.mem.freshMm → ((c.mem.dupMm m child).mm m').owner = (c.mem.mm m').owner := fun m' hm' => by
    rw [dupMm_mm, if_neg hm']
    split
    · rename_i heq
      rw [heq]
    · rfl
  have hnew : ((c.mem.dupMm m child).mm c.mem.freshMm).owner = child := by rw [dupMm_mm, if_pos rfl]
  refine ⟨h.sane.dupMm hm child, h.coherent, fun m₁ m₂ h₁ h₂ heq => ?_, h.aligned, fun m' q v hv hpriv => ?_⟩
  · have h₁ : m₁ < c.mem.freshMm + 1 := h₁
    have h₂ : m₂ < c.mem.freshMm + 1 := h₂
    have heq : ((c.mem.dupMm m child).mm m₁).owner = ((c.mem.dupMm m child).mm m₂).owner := heq
    by_cases hm₁ : m₁ = c.mem.freshMm <;> by_cases hm₂ : m₂ = c.mem.freshMm
    · rw [hm₁, hm₂]
    · rw [hm₁, hnew, hown m₂ hm₂] at heq
      exact absurd heq.symm (howners m₂ (by omega))
    · rw [hm₂, hnew, hown m₁ hm₁] at heq
      exact absurd heq (howners m₁ (by omega))
    · rw [hown m₁ hm₁, hown m₂ hm₂] at heq
      exact h.owners m₁ m₂ (by omega) (by omega) heq
  · rintro id sp f b hlive hsp hdirty hnone hpriv' hpte
    have hlive : c.reg.live ((c.mem.dupMm m child).mm m').owner = some id := hlive
    have hpte : ((c.mem.dupMm m child).mm m').pte q = .present f b := hpte
    have hv : ((c.mem.dupMm m child).mm m').vmaAt q = some v := hv
    by_cases hm' : m' = c.mem.freshMm
    · rw [hm', hnew, hchild] at hlive
      cases hlive
    rw [hown m' hm'] at hlive
    rw [dupMm_mm, if_neg hm'] at hpte hv
    by_cases hmm : m' = m
    · rw [if_pos hmm] at hpte hv
      rw [hmm] at hlive
      obtain ⟨⟨b', hb'⟩, -⟩ := forkPte_weakens hpte
      have hempty := hfork q v hv hpriv ⟨id, sp, hlive, hsp, hdirty, hnone, hpriv'⟩
      rw [hempty] at hb'
      cases hb'
    · rw [if_neg hmm] at hpte hv
      exact (h.armed m' q v hv hpriv id sp f b hlive hsp hdirty hnone hpriv' hpte).dupMm hmm

end
end AflSnapshot
