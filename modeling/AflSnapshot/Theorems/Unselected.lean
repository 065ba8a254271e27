import AflSnapshot.Theorems.Checkpoint

/-! # Pages that were not selected

A restore changes such a page exactly where the page has an entry that was made on demand and got a frame since. A page
that could be written at the take without a fault never gets such an entry. -/

namespace AflSnapshot
open Runs

/-- The pages that were not selected and could be written without a fault have no entry, and can be written so still. -/
def Aside (h : Home) (c : Core) : Prop :=
  ∀ p f, ¬h.sel p → h.mm.pte p = .present f true →
    (c.reg.data h.id).getSnapshotPage p = none ∧ ∃ g, (c.mem.mm h.m).pte p = .present g true

section
variable {h : Home} {c c' : Core} {env : Env} {addr q : Nat} {byte : UInt8}

theorem Aside.readByte (hA : Aside h c) (hR : Restorable h c) : Aside h (c.readByte env h.m addr) := by
  unfold Core.readByte
  cases hf : c.readFault env h.m (pageBase addr) with
  | none => exact hA
  | some c' =>
    obtain ⟨v, -, -, hcase⟩ := readFault_cases hf
    have hF := hcase.faulted hR.sane
    intro p f hsel hpte
    obtain ⟨hnone, g, hg⟩ := hA p f hsel hpte
    rw [Option.getD_some, hcase.reg]
    refine ⟨hnone, g, ?_⟩
    by_cases hp : p = pageBase addr
    · subst hp
      cases hcase with
      | ready => exact hg
      | mapped hempty =>
        rw [hg] at hempty
        cases hempty
    · rw [hF.others p hp, hg]

/-- A page that can be written without a fault is written without one. -/
theorem Aside.writeByte (hA : Aside h c) (hR : Restorable h c) (hreuse : env.ReuseSound) :
    Aside h (c.writeByte env h.m addr byte) := by
  unfold Core.writeByte
  cases hf : c.writeFault env h.m (pageBase addr) with
  | none => exact hA
  | some c' =>
    obtain ⟨v, -, -, hcase⟩ := writeFault_cases hR.coherent hreuse (fun v hv hs => hR.armed hv hs) hf
    have hF := hcase.faulted hR.sane
    have ht := writeFault_touched hR.coherent hf
    rw [hR.live] at ht
    obtain ⟨g, hpte'⟩ := hcase.writable
    dsimp only
    rw [store_eq hpte']
    intro p f hsel hpte
    obtain ⟨hnone, g, hg⟩ := hA p f hsel hpte
    show (c'.reg.data h.id).getSnapshotPage p = none ∧ ∃ g, (c'.mem.mm h.m).pte p = .present g true
    by_cases hp : p = pageBase addr
    · subst hp
      have hready : c' = c := by
        unfold Core.writeFault at hf
        rw [hg] at hf
        split at hf
        · cases hf
        · split at hf
          · exact (Option.some.inj hf).symm
          · cases hf
      rw [hready]
      exact ⟨hnone, g, hg⟩
    · rw [(ht.data h.id rfl).others p hp, hF.others p hp]
      exact ⟨hnone, g, hg⟩

theorem Aside.recoverEntry (hA : Aside h c) (hok : h.Ok) (hR : Restorable h c) (hwb : WriteBack h c) (henv : env.Allocates)
    (hreuse : env.ReuseSound) (hin : q ∈ (c.reg.data h.id).ss.dirtyPages) : Aside h (c.recoverEntry env h.m h.id q) := by
  intro p f hsel hpte
  obtain ⟨hnone, g, hg⟩ := hA p f hsel hpte
  have hp : p ≠ q := by
    rintro rfl
    obtain ⟨sp, hsp, -⟩ := (hR.queued.mem p).mp hin
    rw [hnone] at hsp
    cases hsp
  rw [(hR.recoverEntry hok henv hreuse hwb hin).others p hp,
    (hR.lapses_recoverEntry hok henv hreuse hwb hin).pte p (by simpa using hp)]
  exact ⟨hnone, g, hg⟩

end

section
variable {env : Env} {t config id page : Nat} {w w' w₀ w₁ : World} {d₀ d₁ d : TaskData} {s : Session}

theorem Took.aside (hT : Took env t config w id d₀ w') (hs : w.core.mem.Sane) (henv : env.Allocates) :
    Aside (w.homeAt w' t id) w'.core := by
  obtain ⟨x, st, hwalk, htaking⟩ := hT.taken hs henv
  have hmm : w'.core.mem.mm (w.task t).mm = st.mm := by rw [hT.mem, htaking, mm_setMm_self]
  intro p f hsel hpte
  have hget : (w'.core.reg.data id).getSnapshotPage p = st.data.getSnapshotPage p := by
    rw [hT.data, htaking]
    rfl
  show (w'.core.reg.data id).getSnapshotPage p = none ∧ ∃ g, (w'.core.mem.mm (w.task t).mm).pte p = .present g true
  rw [hget, hmm]
  rcases hwalk.page p with ⟨hnone, hsame⟩ | ⟨hsome, -⟩
  · exact ⟨hnone, f, hsame.trans hpte⟩
  · refine absurd (Or.inl ?_) hsel
    show ((w'.core.reg.data id).getSnapshotPage p).isSome = true
    rw [hget, hsome]
    rfl

theorem lasting_aside : Lasting fun h c => Inside h c ∧ Aside h c where
  read _ _ _ _ hP hR := ⟨hP.1.readByte, hP.2.readByte hR⟩
  write _ _ _ _ _ hP hR hreuse := ⟨hP.1.writeByte hR, hP.2.writeByte hR hreuse⟩
  take _ _ _ _ _ _ _ hT hs henv := ⟨hT.inside hs henv, hT.aside hs henv⟩
  round _ _ _ _ hok hR hwb henv hreuse hq hP :=
    ⟨hP.1.recoverEntry hok hR hwb henv hreuse hq, hP.2.recoverEntry hok hR hwb henv hreuse hq⟩

/-- The first page of the heap is excluded, the second is written, a snapshot taken, and the first written. -/
def excludedWritten : Session :=
  (((Session.step 1 ⟨.boot heapMm [1], none⟩ ⟨.calm, 1, .ioctl (.excludeVmrange 4096 8192)⟩).step 1 ⟨.calm, 1, .write 8192 7⟩).step 1
    ⟨.calm, 1, .ioctl (.take 0)⟩).step 1 ⟨.calm, 1, .write 4096 9⟩

theorem excludedWritten_run : Run (Session.step 1) (Fuzzes 1) ⟨.boot heapMm [1], none⟩ excludedWritten := by
  have hpriv : ∀ s : Session, ∀ a, (s.w.mmOf 1).vmaAt a = some ⟨0, 4096, 12288, 3, none⟩ →
      ∀ v, (s.w.mmOf 1).vmaAt a = some v → v.shared = false := fun s a hs v hv => by
    obtain rfl := Option.some.inj (hs.symm.trans hv)
    rfl
  refine .step (.step (.step (.step .start (.plain (Or.inr (Or.inl (.exclude rfl)))))
    (.plain (Or.inl (.write rfl ?_ calm_ok.toAllocates calm_reuseSound)))) (.plain (Or.inr (Or.inl (.take calm_ok.toAllocates)))))
    (.plain (Or.inl (.write rfl ?_ calm_ok.toAllocates calm_reuseSound)))
  · exact hpriv _ _ (by decide)
  · exact hpriv _ _ (by decide)

end
end AflSnapshot
