import AflSnapshot.Theorems.Cycles
import Mathlib.Data.Nat.Bitwise

/-! # Changes of the protection

`mprotect` cuts VMAs and takes the write bit from entries; what the snapshot keeps of a page does not depend on
either. The write-back of a restore does. -/

namespace AflSnapshot
open Runs

/-! ### The edited list -/

section
variable {start end_ prot fresh a : Nat} {v w : VmArea} {l : List VmArea} {mm : Mm} {keepWrite : Nat → Bool}

theorem hasFlag_shared (flags : Nat) : hasFlag flags vmShared = flags.testBit 3 := by
  have h : flags &&& vmShared = (flags.testBit 3).toNat * 2 ^ 3 := Nat.and_two_pow flags 3
  unfold hasFlag
  rw [h]
  cases flags.testBit 3 <;> rfl

variable (prot) in
/-- The new protection is in the lowest bits. -/
theorem hasFlag_shared_protect (flags : Nat) :
    hasFlag (flags >>> 3 <<< 3 ||| prot &&& (vmRead ||| vmWrite ||| vmExec)) vmShared = hasFlag flags vmShared := by
  have hlow : (vmRead ||| vmWrite ||| vmExec).testBit 3 = false := by decide
  rw [hasFlag_shared, hasFlag_shared, Nat.testBit_or, Nat.testBit_and, hlow, Bool.and_false, Bool.or_false,
    Nat.testBit_shiftLeft, Nat.testBit_shiftRight]
  rfl

/-- A part of a VMA whose protection changes in `[start, end_)`. -/
structure ProtectedPart (start end_ fresh : Nat) (v w : VmArea) : Prop where
  lo : v.vmStart ≤ w.vmStart
  pos : w.vmStart < w.vmEnd
  hi : w.vmEnd ≤ v.vmEnd
  starts : w.vmStart = v.vmStart ∨ w.vmStart = start ∨ w.vmStart = end_
  ends : w.vmEnd = v.vmEnd ∨ w.vmEnd = start ∨ w.vmEnd = end_
  id : w.id = v.id ∨ w.id = fresh ∧ v.vmStart < start ∧ start < v.vmEnd ∨
    w.id = fresh + 1 ∧ v.vmStart < end_ ∧ end_ < v.vmEnd
  file : w.file = v.file
  shared : w.shared = v.shared

theorem protectVma_part (hv : v.vmStart < v.vmEnd) (hse : start < end_) (hw : w ∈ protectVma start end_ prot fresh v) :
    ProtectedPart start end_ fresh v w := by
  have hsh := hasFlag_shared_protect prot v.vmFlags
  unfold protectVma at hw
  dsimp only at hw
  split at hw
  · rw [List.mem_singleton.mp hw]
    exact ⟨le_rfl, hv, le_rfl, Or.inl rfl, Or.inl rfl, Or.inl rfl, rfl, rfl⟩
  rename_i hmeet
  split at hw
  · rename_i hlow
    split at hw
    · rename_i hup
      simp only [List.mem_cons, List.not_mem_nil, or_false] at hw
      rcases hw with rfl | rfl | rfl
      · exact ⟨le_rfl, hlow, by show start ≤ _; omega, Or.inl rfl, Or.inr (Or.inl rfl), Or.inl rfl, rfl, rfl⟩
      · exact ⟨hlow.le, hse, hup.le, Or.inr (Or.inl rfl), Or.inr (Or.inr rfl),
          Or.inr (Or.inl ⟨rfl, hlow, by omega⟩), rfl, hsh⟩
      · exact ⟨by show _ ≤ end_; omega, hup, le_rfl, Or.inr (Or.inr rfl), Or.inl rfl,
          Or.inr (Or.inr ⟨rfl, by omega, hup⟩), rfl, rfl⟩
    · simp only [List.mem_cons, List.not_mem_nil, or_false] at hw
      rcases hw with rfl | rfl
      · exact ⟨le_rfl, hlow, by show start ≤ _; omega, Or.inl rfl, Or.inr (Or.inl rfl), Or.inl rfl, rfl, rfl⟩
      · exact ⟨hlow.le, by show start < v.vmEnd; omega, le_rfl, Or.inr (Or.inl rfl), Or.inl rfl,
          Or.inr (Or.inl ⟨rfl, hlow, by omega⟩), rfl, hsh⟩
  · split at hw
    · rename_i hup
      simp only [List.mem_cons, List.not_mem_nil, or_false] at hw
      rcases hw with rfl | rfl
      · exact ⟨le_rfl, by show v.vmStart < end_; omega, hup.le, Or.inl rfl, Or.inr (Or.inr rfl), Or.inl rfl, rfl, hsh⟩
      · exact ⟨by show _ ≤ end_; omega, hup, le_rfl, Or.inr (Or.inr rfl), Or.inl rfl,
          Or.inr (Or.inr ⟨rfl, by omega, hup⟩), rfl, rfl⟩
    · rw [List.mem_singleton.mp hw]
      exact ⟨le_rfl, hv, le_rfl, Or.inl rfl, Or.inl rfl, Or.inl rfl, rfl, hsh⟩

theorem covers_protectVma : Spans.Covers (protectVma start end_ prot fresh v) a ↔ Spans.In a v := by
  have hin : ∀ w : VmArea, Spans.In a w ↔ w.vmStart ≤ a ∧ a < w.vmEnd := fun _ => Iff.rfl
  unfold protectVma
  dsimp only
  split
  · simp only [Spans.covers_cons, Spans.not_covers_nil, or_false]
  split
  · split <;> simp only [Spans.covers_cons, Spans.not_covers_nil, or_false, hin] <;> omega
  · split
    · simp only [Spans.covers_cons, Spans.not_covers_nil, or_false, hin]
      omega
    · simp only [Spans.covers_cons, Spans.not_covers_nil, or_false, hin]

theorem covers_protect : Spans.Covers (mm.protect keepWrite start end_ prot).mmap a ↔ Spans.Covers mm.mmap a := by
  show Spans.Covers (mm.mmap.flatMap _) a ↔ _
  induction mm.mmap with
  | nil => rfl
  | cons v l ih => rw [List.flatMap_cons, Spans.covers_append, covers_protectVma, Spans.covers_cons, ih]

theorem VmasOk.protect (h : VmasOk fresh l) (hs : pageSize ∣ start) (he : pageSize ∣ end_) (hse : start < end_) :
    VmasOk (fresh + 2) (l.flatMap (protectVma start end_ prot fresh)) := by
  refine h.flatMap (n := 2) (p := fun i => if i = fresh then start else end_) (fun v hv w hw => ?_) (fun v hv => ?_)
    fun v hv w hw => ?_
  · have hp := protectVma_part (h.ordered.pos v hv) hse hw
    obtain ⟨a1, a2⟩ := h.aligned v hv
    refine ⟨hp.lo, hp.pos, hp.hi, ?_, ?_⟩
    · rcases hp.starts with h1 | h1 | h1 <;> rw [h1] <;> assumption
    · rcases hp.ends with h1 | h1 | h1 <;> rw [h1] <;> assumption
  · have hf := h.fresh v hv
    unfold protectVma
    dsimp only
    split
    · exact List.pairwise_singleton _ _
    split
    · split
      · simp only [List.pairwise_cons, List.mem_cons, List.not_mem_nil, or_false, forall_eq_or_imp, forall_eq, false_imp_iff,
          implies_true, List.Pairwise.nil, and_true]
        omega
      · exact List.pairwise_pair.mpr ⟨le_rfl, hf.ne⟩
    · split
      · exact List.pairwise_pair.mpr ⟨le_rfl, by show v.id ≠ fresh + 1; omega⟩
      · exact List.pairwise_singleton _ _
  · have hp := protectVma_part (h.ordered.pos v hv) hse hw
    rcases hp.id with hid | ⟨hid, h1, h2⟩ | ⟨hid, h1, h2⟩
    · exact Or.inl hid
    · exact Or.inr ⟨by omega, by omega, by rw [if_pos hid]; exact ⟨h1, h2⟩⟩
    · exact Or.inr ⟨by omega, by omega, by rw [if_neg (by omega)]; exact ⟨h1, h2⟩⟩

/-- The VMA at an address keeps its kind. -/
theorem vmaAt_protect (hok : mm.Ok) (hse : start < end_)
    (hw : (mm.protect keepWrite start end_ prot).vmaAt a = some w) :
    ∃ v, mm.vmaAt a = some v ∧ w.file = v.file ∧ w.shared = v.shared := by
  obtain ⟨hmem, hin⟩ := Spans.find_mem hw
  obtain ⟨v, hv, hwv⟩ := List.mem_flatMap.mp hmem
  have hp := protectVma_part (hok.vmas.ordered.pos v hv) hse hwv
  exact ⟨v, (Spans.Ordered.find_eq_some hok.vmas.ordered).mpr
    ⟨hv, le_trans hp.lo hin.1, lt_of_lt_of_le hin.2 hp.hi⟩, hp.file, hp.shared⟩

/-! ### Entries -/

variable (mm keepWrite start end_ prot) in
theorem pte_protect (p : Nat) : (mm.protect keepWrite start end_ prot).pte p = mm.pte p ∨
    (mm.protect keepWrite start end_ prot).pte p = (mm.pte p).wrprotect := by
  show (if _ then _ else _) = _ ∨ (if _ then _ else _) = _
  split
  · exact Or.inr rfl
  · exact Or.inl rfl

theorem pte_protect_weakens {p f : Nat} {b : Bool} (h : (mm.protect keepWrite start end_ prot).pte p = .present f b) :
    ∃ b', mm.pte p = .present f b' ∧ (b = true → b' = true) := by
  rcases pte_protect start end_ prot mm keepWrite p with hp | hp
  · exact ⟨b, hp ▸ h, id⟩
  · exact wrprotect_weakens _ f b (hp ▸ h)

theorem Mm.Ok.protect (hok : mm.Ok) (hs : pageSize ∣ start) (he : pageSize ∣ end_) (hse : start < end_) :
    (mm.protect keepWrite start end_ prot).Ok where
  vmas := hok.vmas.protect hs he hse
  pte p f b hp := by
    obtain ⟨b', hp', -⟩ := pte_protect_weakens hp
    obtain ⟨h1, h2, h3⟩ := hok.pte p f b' hp'
    exact ⟨h1, h2, covers_protect.mpr h3⟩

theorem Memory.Restricts.protect {mem : Memory} {m : Nat} (hok : (mem.mm m).Ok) (hse : start < end_) :
    mem.Restricts (mem.setMm m ((mem.mm m).protect keepWrite start end_ prot)) := .setMm fun p f b hp => by
  refine ⟨pte_protect_weakens hp, fun w hw => ?_⟩
  obtain ⟨v, hv, -, hs⟩ := vmaAt_protect hok hse hw
  exact ⟨v, hv, hs.symm⟩

end

section
variable {h : Home} {c : Core} {env : Env} {mem mem' : Memory} {m p start len prot t id : Nat} {v : VmArea} {C : Page}
  {o : Option SnapshotPage} {s : Session} {a : Move} {w w₀ w₁ : World}

/-- What is kept of a page does not need its entry to be writable. -/
theorem PageKept.weaken (hs : mem.Sane) (hk : PageKept mem m p v C o) (hr : mem.Restricts mem')
    (hframe : mem'.frame = mem.frame) (hpte : (mem'.mm m).pte p = (mem.mm m).pte p ∨
      (mem'.mm m).pte p = ((mem.mm m).pte p).wrprotect) : PageKept mem' m p v C o := by
  have hcongr : (mem'.mm m).pte p = (mem.mm m).pte p → PageKept mem' m p v C o := fun hp =>
    hk.congr hr.pageCache hp (by rw [hframe]) (fun f b _ => by rw [hframe])
      fun f b hb hex => hex.restrict (hs.pfn m p f b hb) hr
  rcases hpte with hp | hp
  · exact hcongr hp
  cases hold : (mem.mm m).pte p with
  | none => exact hcongr (by rw [hp, hold]; rfl)
  | present f b =>
    cases b with
    | false => exact hcongr (by rw [hp, hold]; rfl)
    | true =>
      rw [hold] at hp
      refine ⟨fun hsh => ⟨(hk.quiet hsh).entry, ?_⟩, fun hsh => .opened ?_⟩
      · rcases (hk.quiet hsh).bytes with ⟨hb, -⟩ | ⟨g, b, hb, hC⟩
        · rw [hold] at hb
          cases hb
        · rw [hold] at hb
          cases hb
          exact Or.inr ⟨f, false, hp, by rw [hframe]; exact hC⟩
      · rw [backing_congr hr.pageCache rfl, hframe]
        exact (hk.ok hsh).opened_of_write hold

/-- A dirty page is selected, and has its copy. -/
theorem Restorable.dirty_entry (hok : h.Ok) (hR : Restorable h c) {sp : SnapshotPage}
    (hsp : (c.reg.data h.id).getSnapshotPage p = some sp) (hdirty : sp.dirty = true) :
    h.sel p ∧ sp.pageData = some (h.content p) := by
  by_cases hsel : h.sel p
  · refine ⟨hsel, ?_⟩
    obtain ⟨v₀, hv₀⟩ := (hok.sel p hsel).2.2
    have hk := hR.pages p v₀ hsel hv₀
    rw [hsp] at hk
    cases hs : v₀.shared with
    | true => simp [((hk.quiet hs).entry sp rfl).1] at hdirty
    | false =>
      cases hk.ok hs with
      | untouched _ _ hclean => simp [hclean] at hdirty
      | clean _ hclean => simp [hclean] at hdirty
      | opened ho =>
        cases ho with
        | refreshed _ _ hclean => simp [hclean] at hdirty
        | dirty _ _ _ _ hdata => exact hdata
  · simp [(hR.loose p sp hsel hsp).2] at hdirty

theorem mprotect_cases (env : Env) (m start len prot : Nat) (c : Core) : c.mprotect env m start len prot = c ∨
    pageSize ∣ start ∧ 0 < len ∧ c.mprotect env m start len prot =
      c.setMem (c.mem.setMm m ((c.mem.mm m).protect env.keepWrite start (start + pageAlign len) prot)) := by
  unfold Core.mprotect
  split
  · exact Or.inl rfl
  · rename_i hnot
    exact Or.inr ⟨Nat.dvd_of_mod_eq_zero (by omega), by omega, rfl⟩

theorem Restorable.mprotect (hR : Restorable h c) : Restorable h (c.mprotect env h.m start len prot) := by
  rcases mprotect_cases env h.m start len prot c with heq | ⟨hs, hlen, heq⟩ <;> rw [heq]
  · exact hR
  have hse : start < start + pageAlign len := by
    have := le_pageAlign len
    omega
  have hok := hR.sane.mms h.m
  have hr : c.mem.Restricts (c.mem.setMm h.m
    ((c.mem.mm h.m).protect env.keepWrite start (start + pageAlign len) prot)) := .protect hok hse
  refine hR.setMm (hok.protect hs (Nat.dvd_add hs (pageAlign_dvd len)) hse) hr rfl (fun a v hv => ?_)
    (fun a ha hnot => hR.gone a ha fun hc => hnot (covers_protect.mpr hc)) hR.brk fun p v₀ hsel hv₀ => ?_
  · obtain ⟨v', hv', hfile, hshared⟩ := vmaAt_protect hok hse hv
    obtain ⟨v₀, hv₀, hfile₀, hshared₀⟩ := hR.kind a v' hv'
    exact ⟨v₀, hv₀, hfile.trans hfile₀, hshared.trans hshared₀⟩
  · refine (hR.pages p v₀ hsel hv₀).weaken hR.sane hr rfl ?_
    rw [mm_setMm_self]
    exact pte_protect ..

theorem Whole.mprotect (hW : Whole h c) : Whole h (c.mprotect env h.m start len prot) := by
  rcases mprotect_cases env h.m start len prot c with heq | ⟨-, -, heq⟩ <;> rw [heq]
  · exact hW
  refine ⟨fun a ha => ?_, ?_⟩
  · show Spans.Covers ((c.mem.setMm h.m _).mm h.m).mmap a
    rw [mm_setMm_self]
    exact covers_protect.mpr (hW.mapped a ha)
  · show ((c.mem.setMm h.m _).mm h.m).brk = _
    rw [mm_setMm_self]
    exact hW.brk

theorem staysIdle_mprotect (hs : c.mem.Sane) (hc : c.reg.Coherent) : StaysIdle m c (c.mprotect env m start len prot) := by
  rcases mprotect_cases env m start len prot c with heq | ⟨hd, hlen, heq⟩ <;> rw [heq]
  · exact .refl hs hc m
  have hse : start < start + pageAlign len := by
    have := le_pageAlign len
    omega
  refine ⟨hs.setMm ((hs.mms m).protect hd (Nat.dvd_add hd (pageAlign_dvd len)) hse) (.protect (hs.mms m) hse) fun hm => ?_,
    hc, ?_, rfl, fun _ => rfl⟩
  · show List.flatMap _ (c.mem.mm m).mmap = []
    rw [hs.unused m hm]
    rfl
  · show ((c.mem.setMm m _).mm m).owner = _
    rw [mm_setMm_self]
    rfl

/-! ### Sessions -/

/-- The process changes the protection of its memory. -/
inductive Protects (t : Nat) (_ : Session) : Move → Prop
  | mprotect {env : Env} {start len prot : Nat} : Protects t _ ⟨env, t, .mprotect start len prot⟩

/-- The pages whose bytes are to be written back are writable where they are mapped. -/
def World.SavedWritable (w : World) (t : Nat) : Prop :=
  ∀ d page sp v, w.recordOf t = some d → d.getSnapshotPage page = some sp → sp.dirty = true →
    (w.mmOf t).vmaAt page = some v → v.writable = true

/-- Restores are called while the saved pages are writable. -/
def Reprotects (t : Nat) (s : Session) (a : Move) : Prop :=
  Accesses t s a ∨ Commands t s a ∨ Protects t s a ∨ Restores t s a ∧ s.w.SavedWritable t

theorem Live.dirtyWritable (hl : Live t w₀ w₁ w id) (h : w.SavedWritable t) :
    DirtyWritable (w₀.homeAt w₁ t id) w.core := by
  intro p sp v hsp hdirty hv
  refine h (w.core.reg.data id) p sp v ?_ hsp hdirty ?_
  · unfold World.recordOf
    rw [(live_eq_some.mp hl.owner.2).1]
    rfl
  · unfold World.mmOf
    rw [hl.mm]
    exact hv

theorem Tracked.protects (h : Tracked Whole t s) (ha : Protects t s a) : Tracked Whole t (s.step t a) := by
  cases ha with
  | @mprotect env start len prot =>
    cases hs : s.taken with
    | none =>
      have hi := (tracked_idle hs).mp h
      exact (tracked_idle hs).mpr (hi.mapCore (f := (·.mprotect env (s.w.task t).mm start len prot))
        (staysIdle_mprotect hi.sane hi.coherent))
    | some taken =>
      obtain ⟨w₀, w₁⟩ := taken
      obtain ⟨id, hl, hW⟩ := (tracked_live hs).mp h
      have hmm : (s.w.task t).mm = (w₀.homeAt w₁ t id).m := hl.mm t
      have hstep : s.w.step env t (.mprotect start len prot) =
          s.w.mapCore (·.mprotect env (w₀.homeAt w₁ t id).m start len prot) := by
        show s.w.mapCore (·.mprotect env (s.w.task t).mm start len prot) = _
        rw [hmm]
      refine (tracked_live hs).mpr ⟨id, ?_⟩
      rw [hstep]
      exact ⟨hl.mapCore hl.restorable.mprotect, hW.mprotect⟩

theorem tracked_of_reprotects (h : Run (Session.step t) (Reprotects t) ⟨w, none⟩ s) (hidle : Idle t w) :
    Tracked Whole t s := by
  refine h.invariant ((tracked_idle rfl).mpr hidle) fun s a h ha => ?_
  rcases ha with ha | ha | ha | ⟨ha, hw⟩
  · exact h.accesses accessStable_whole ha
  · exact h.commands (fun _ _ _ hW => hW) ha
  · exact h.protects ha
  · refine h.restores (fun _ _ _ hl hW => ⟨hl.dirtyWritable hw, Or.inl hW⟩) (fun _ _ _ hW _ hback => hback hW) ha

/-- In every session whose restores find the saved pages writable, a restore brings back what the selected pages held
    when the last take began; in particular no saved page is taken for clean without its bytes. -/
theorem restore_brings_back_writable (h : Run (Session.step t) (Reprotects t) ⟨w, none⟩ s) (hidle : Idle t w)
    (htaken : s.taken = some (w₀, w₁)) (hw : s.w.SavedWritable t) (henv : env.Allocates) (hreuse : env.ReuseSound)
    {d : TaskData} (hd : w₁.recordOf t = some d) {page : Nat} :
    (Selects d (w₀.mmOf t) page → (s.w.step env t (.ioctl .restore)).pageOf t page = w₀.pageOf t page) ∧
    ∀ d' sp, s.w.recordOf t = some d' → d'.getSnapshotPage page = some sp → sp.dirty = true →
      sp.pageData = some ((s.w.step env t (.ioctl .restore)).pageOf t page) := by
  obtain ⟨id, hl, hW⟩ := (tracked_live htaken).mp (tracked_of_reprotects h hidle)
  have hb := hl.restore (hl.dirtyWritable hw) henv (Or.inl hW) hreuse
  refine ⟨fun hsel => (hb.pageOf hd hsel).2, fun d' sp hd' hsp hdirty => ?_⟩
  have hrec : d' = s.w.core.reg.data id := by
    unfold World.recordOf at hd'
    rw [(live_eq_some.mp hl.owner.2).1] at hd'
    exact (Option.some.inj hd').symm
  subst hrec
  obtain ⟨hsel, hdata⟩ := hl.restorable.dirty_entry hl.ok hsp hdirty
  obtain rfl := hl.recordOf_eq hd
  rw [(hb.pageOf hd hsel).2]
  exact hdata

/-- A page is written before the take and after it, and then protected. -/
def writtenProtected (prot : Nat) : Session :=
  (((Session.step 1 ⟨.boot heapMm [1], none⟩ ⟨.calm, 1, .write 4096 7⟩).step 1 ⟨.calm, 1, .ioctl (.take 0)⟩).step 1
    ⟨.calm, 1, .write 4096 8⟩).step 1 ⟨.calm, 1, .mprotect 4096 4096 prot⟩

theorem writtenProtected_run (prot : Nat) :
    Run (Session.step 1) (Reprotects 1) ⟨.boot heapMm [1], none⟩ (writtenProtected prot) := by
  have hpriv : ∀ s : Session, (s.w.mmOf 1).vmaAt 4096 = some heapVma →
      ∀ v, (s.w.mmOf 1).vmaAt 4096 = some v → v.shared = false := fun s hs v hv => by
    obtain rfl := Option.some.inj (hs.symm.trans hv)
    rfl
  refine .step (.step (.step (.step .start (Or.inl (.write rfl (hpriv _ ?_) calm_ok.toAllocates calm_reuseSound)))
    (Or.inr (Or.inl (.take calm_ok.toAllocates)))) (Or.inl (.write rfl (hpriv _ ?_) calm_ok.toAllocates calm_reuseSound)))
    (Or.inr (Or.inr (Or.inl .mprotect)))
  · decide
  · decide

theorem restore_brings_back_writable_written :
    ((writtenProtected (protRead ||| protWrite)).w.step .calm 1 (.ioctl .restore)).pageOf 1 4096 =
      ((World.boot heapMm [1]).step .calm 1 (.write 4096 7)).pageOf 1 4096 := by
  have hw : ∀ v ∈ ((writtenProtected (protRead ||| protWrite)).w.mmOf 1).mmap, v.writable = true := by decide
  exact (restore_brings_back_writable (writtenProtected_run _) (heapMm_idle [1]) rfl
    (fun d page sp v _ _ _ hv => hw v (Spans.find_mem hv).1) calm_ok.toAllocates calm_reuseSound rfl).1 (Or.inl (by decide))

/-- Read-only, the page keeps what was written, and is taken for clean. -/
theorem restore_protected : ∃ w₀ w₁ d d', (writtenProtected protRead).taken = some (w₀, w₁) ∧ w₁.recordOf 1 = some d ∧
    Selects d (w₀.mmOf 1) 4096 ∧ w₀.pageOf 1 4096 0 = 7 ∧
    ((writtenProtected protRead).w.step .calm 1 (.ioctl .restore)).pageOf 1 4096 0 = 8 ∧
    ((writtenProtected protRead).w.step .calm 1 (.ioctl .restore)).recordOf 1 = some d' ∧
    (d'.getSnapshotPage 4096).map SnapshotPage.dirty = some false :=
  ⟨_, _, _, _, rfl, rfl, Or.inl (by decide), by decide, by decide, rfl, by decide⟩

end
end AflSnapshot
