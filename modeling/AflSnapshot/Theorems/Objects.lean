import AflSnapshot.Theorems.PrivateWrites

/-! # Files and shared memory under a restore

A restore writes saved pages back through whatever is mapped at their addresses. `World.Sound` is what it takes for these
writes to end up in private memory, and is kept by all that a process does to its mappings, as long as the hook makes no
page writable whose frame is not the page's own, and no saved page lies in a shared mapping when it is written back. -/

namespace AflSnapshot
open Runs

/-- What is not anonymous, the pages of files and of shared memory and the zero page, is as before. -/
structure Memory.Spares (mem mem' : Memory) : Prop where
  freshPfn : mem.freshPfn ≤ mem'.freshPfn
  pageCache : mem'.pageCache = mem.pageCache
  frame : ∀ f, f < mem.freshPfn → (mem.frame f).anon = false → mem'.frame f = mem.frame f

structure Core.Sound (c : Core) : Prop where
  sane : c.mem.Sane
  coherent : c.reg.Coherent
  aligned : ∀ u id p sp, c.reg.live u = some id → (c.reg.data id).getSnapshotPage p = some sp → pageSize ∣ p

structure World.Sound (w : World) : Prop where
  kept : w.Kept
  core : w.core.Sound

/-- What the processes do: they access pages, change their mappings, open and close files, give commands, and exit. -/
inductive RemapMoves (w : World) : Move → Prop
  | read {env : Env} {t : Nat} (addr : Nat) : w.Process t → RemapMoves w ⟨env, t, .read addr⟩
  | write {env : Env} {t : Nat} (addr : Nat) (byte : UInt8) : w.Process t → env.ReuseSound →
    RemapMoves w ⟨env, t, .write addr byte⟩
  | munmap {env : Env} {t : Nat} (start len : Nat) : w.Process t → RemapMoves w ⟨env, t, .munmap start len⟩
  | brk {env : Env} {t : Nat} (brk : Nat) : w.Process t → RemapMoves w ⟨env, t, .brk brk⟩
  | mprotect {env : Env} {t : Nat} (start len prot : Nat) : w.Process t → RemapMoves w ⟨env, t, .mprotect start len prot⟩
  | mmap {env : Env} {t : Nat} (start len prot : Nat) (object : Option Nat) (shared : Bool) : w.Process t →
    RemapMoves w ⟨env, t, .mmap start len prot object shared⟩
  | file {env : Env} {t : Nat} (op : FileOp) : w.Process t → RemapMoves w ⟨env, t, .file op⟩
  | ioctl {env : Env} {t : Nat} (cmd : Ioctl) : w.Process t → env.ReuseSound → RemapMoves w ⟨env, t, .ioctl cmd⟩
  | exit {env : Env} {t : Nat} : w.Process t → RemapMoves w ⟨env, t, .exit⟩
  | exitGroup {env : Env} {t : Nat} : w.Process t → env.ReuseSound → RemapMoves w ⟨env, t, .exitGroup⟩

/-- No saved page that is to be written back lies in a shared mapping. -/
def Core.BacksPrivate (env : Env) (m id : Nat) (c : Core) : Prop :=
  ∀ p sp v, (c.reg.data id).getSnapshotPage p = some sp → sp.dirty = true → sp.hasBeenCopied = true →
    env.copyToUser p = true → (c.mem.mm m).vmaAt p = some v → v.writable = true → v.shared = false

def World.BacksPrivate (env : Env) (t : Nat) (w : World) : Prop :=
  ∀ id, w.core.reg.getTaskData t = some id → (w.core.beforeLoop env (w.task t).mm id).2 = 0 →
    (w.core.beforeLoop env (w.task t).mm id).1.BacksPrivate env (w.task t).mm id

/-- A write has its page's frame for itself where the hook trusts it to, and a restore writes back to private mappings. -/
def SparesObjects (w : World) (a : Move) : Prop :=
  match a.op with
  | .write addr _ => ∀ v, (w.mmOf a.tsk).vmaAt (pageBase addr) = some v → v.shared = false →
    w.core.Armed (w.task a.tsk).mm (pageBase addr)
  | .ioctl .restore | .exitGroup => w.BacksPrivate a.env a.tsk
  | _ => True

section
variable {env : Env} {m id page t u config : Nat} {c c₁ c' : Core} {w w' w₀ : World} {mm : Mm} {sp : SnapshotPage}
  {mem mem₁ mem' : Memory} {I : Core → Prop}

namespace Memory.Spares

theorem refl (mem : Memory) : mem.Spares mem := ⟨le_rfl, rfl, fun _ _ _ => rfl⟩

theorem trans (h₁ : mem.Spares mem₁) (h₂ : mem₁.Spares mem') : mem.Spares mem' where
  freshPfn := le_trans h₁.freshPfn h₂.freshPfn
  pageCache := h₂.pageCache.trans h₁.pageCache
  frame f hf hanon := by
    have heq := h₁.frame f hf hanon
    rw [h₂.frame f (lt_of_lt_of_le hf h₁.freshPfn) (heq ▸ hanon), heq]

/-- The bytes of an object. -/
theorem object (h : mem.Spares mem') (hs : mem.Sane) (o p : Nat) :
    (mem'.frame (mem.pageCache o p)).data = (mem.frame (mem.pageCache o p)).data :=
  congrArg Frame.data (h.frame _ (hs.cache o p).1 (hs.cache o p).2)

/-- The bytes of anonymous memory change. -/
theorem setFrame {f : Nat} {frame : Frame} (hanon : (mem.frame f).anon = true) : mem.Spares (mem.setFrame f frame) := by
  refine ⟨le_rfl, rfl, fun g _ hg => Function.update_of_ne (fun hgf => ?_) ..⟩
  rw [hgf, hanon] at hg
  cases hg

end Memory.Spares

theorem Memory.Faulted.spares (h : mem.Faulted m page mem') : mem.Spares mem' := ⟨h.freshPfn, h.pageCache, fun f hf _ => h.frame f hf⟩

/-! ### Calls of the process -/

/-- What `__do_munmap` keeps, and the mapping of a free range, `mmap` keeps. -/
theorem mmapFixed_keeps (hok : ∀ c, I c → c.reg.Coherent ∧ VmasOk (c.mem.mm m).freshVma (c.mem.mm m).mmap)
    (hmunmap : ∀ c start len, I c → I (c.doMunmap env m start len).1)
    (hmap : ∀ (c : Core) (start end_ flags : Nat) (file : Option Nat), I c → pageSize ∣ start → pageSize ∣ end_ → start < end_ →
      end_ < ulongMax → (c.mem.mm m).unmapped start end_ = true →
      I (c.setMem (c.mem.setMm m ((c.mem.mm m).mapVma start end_ flags file))))
    (h : I c) (start len prot : Nat) (object : Option Nat) (shared : Bool) :
    I (c.mmapFixed env m start len prot object shared) := by
  have hfirst : ∀ r : Core × Int, r = (if (c.mem.mm m).unmapped start (start + pageAlign len) then (c, (0 : Int))
      else c.doMunmap env m start (pageAlign len)) →
      I r.1 ∧ (r.2 = 0 → (r.1.mem.mm m).unmapped start (start + pageAlign len) = true) := by
    rintro r rfl
    split
    · rename_i hfree
      exact ⟨h, fun _ => hfree⟩
    · refine ⟨hmunmap c _ _ h, fun hres => ?_⟩
      have := doMunmap_unmapped (hok c h).2 hres
      rwa [pageAlign_of_dvd (pageAlign_dvd len)] at this
  unfold Core.mmapFixed
  dsimp only
  split
  · exact h
  rename_i hargs
  rw [not_or, not_or, not_not, Nat.not_le] at hargs
  obtain ⟨hs, hlen, htop⟩ := hargs
  generalize hr : (if (c.mem.mm m).unmapped start (start + pageAlign len) then (c, (0 : Int))
    else c.doMunmap env m start (pageAlign len)) = r
  obtain ⟨hI, hfree⟩ := hfirst r hr.symm
  split
  · rename_i hres
    have hs : pageSize ∣ start := Nat.dvd_of_mod_eq_zero hs
    have hle := le_pageAlign len
    exact hmap r.1 _ _ _ _ hI hs (Nat.dvd_add hs (pageAlign_dvd len)) (by omega) htop (hfree hres.1)
  · exact hI

theorem brkShrink_keeps (hmunmap : ∀ c start len, I c → I (c.doMunmap env m start len).1)
    (hset : ∀ c brk, I c → I (c.setBrk m brk)) (h : I c) (brk : Nat) : I (c.brkShrink env m brk) := by
  unfold Core.brkShrink
  dsimp only
  split
  swap
  · exact h
  split
  · exact hset c brk h
  have hun := hmunmap c (pageAlign brk) (pageAlign (c.mem.mm m).brk - pageAlign brk) h
  split
  · exact hset _ brk hun
  · exact hun

/-! ### Steps of one page -/

theorem Core.Sound.onPage (h : c.Sound) (hd : pageSize ∣ page) (hp : c.OnPage m page c') (hs : c'.mem.Sane)
    (hc : c'.reg.Coherent) : c'.Sound where
  sane := hs
  coherent := hc
  aligned u id q sp hlive hsp := by
    by_cases hq : q = page
    · exact hq ▸ hd
    by_cases hu : u = (c.mem.mm m).owner
    · subst hu
      obtain ⟨hlive₀, heq⟩ := hp.entries id q hq hlive
      exact h.aligned _ id q sp hlive₀ (heq ▸ hsp)
    · obtain ⟨hlive₀, hdata⟩ := hp.records u id hu hlive
      exact h.aligned u id q sp hlive₀ (hdata ▸ hsp)

theorem Core.Sound.writeFault (h : c.Sound) (hreuse : env.ReuseSound) (hd : pageSize ∣ page)
    (harmed : ∀ v, (c.mem.mm m).vmaAt page = some v → v.shared = false → c.Armed m page)
    (hf : c.writeFault env m page = some c') : c'.Sound ∧ c.OnPage m page c' ∧
      ∃ v, (c.mem.mm m).vmaAt page = some v ∧ v.writable = true ∧ WriteFault env m page c v c' := by
  obtain ⟨v, hv, hw, hcase⟩ := writeFault_cases h.coherent hreuse harmed hf
  have ht := writeFault_touched h.coherent hf
  have hp := (hcase.faulted h.sane).onPage ht
  exact ⟨h.onPage hd hp (hcase.sane h.sane hd hv) ht.coherent, hp, v, hv, hw, hcase⟩

theorem Core.Sound.store (h : c.Sound) (m page : Nat) (g : Page → Page) : (c.store m page g).Sound := by
  unfold Core.store
  split
  · exact ⟨h.sane.setFrame rfl, h.coherent, h.aligned⟩
  · exact h

theorem Core.Sound.writeByte (h : c.Sound) (hreuse : env.ReuseSound) {addr : Nat} (byte : UInt8)
    (harmed : ∀ v, (c.mem.mm m).vmaAt (pageBase addr) = some v → v.shared = false → c.Armed m (pageBase addr)) :
    (c.writeByte env m addr byte).Sound := by
  unfold Core.writeByte
  cases hf : c.writeFault env m (pageBase addr) with
  | none => exact h
  | some c₁ => exact (h.writeFault hreuse (pageBase_dvd addr) harmed hf).1.store m _ _

theorem Core.Sound.readByte (h : c.Sound) (addr : Nat) : (c.readByte env m addr).Sound := by
  unfold Core.readByte
  cases hf : c.readFault env m (pageBase addr) with
  | none => exact h
  | some c₁ =>
    obtain ⟨v, hv, -, hcase⟩ := readFault_cases hf
    have hreg : c₁.reg = c.reg := hcase.reg
    exact ⟨hcase.sane h.sane (pageBase_dvd addr) hv, hreg ▸ h.coherent, fun u id p sp => by
      dsimp only [Option.getD_some]
      rw [hreg]
      exact h.aligned u id p sp⟩

/-! ### Mappings -/

theorem Core.Sound.setMm (h : c.Sound) (hm : m < c.mem.freshMm) (hok : mm.Ok) (hr : c.mem.Restricts (c.mem.setMm m mm)) :
    (c.setMem (c.mem.setMm m mm)).Sound :=
  ⟨h.sane.setMm hok hr fun hle => absurd hm (Nat.not_lt.mpr hle), h.coherent, h.aligned⟩

theorem Core.Sound.mapVma (h : c.Sound) (hm : m < c.mem.freshMm) {start end_ flags : Nat} {file : Option Nat}
    (hs : pageSize ∣ start) (he : pageSize ∣ end_) (hse : start < end_) (htop : end_ < ulongMax)
    (hfree : (c.mem.mm m).unmapped start end_ = true) :
    (c.setMem (c.mem.setMm m ((c.mem.mm m).mapVma start end_ flags file))).Sound := by
  have hok := h.sane.mms m
  have hfree := (Mm.unmapped_iff hok.vmas hse).mp hfree
  have hok' : ((c.mem.mm m).mapVma start end_ flags file).Ok := by
    refine ⟨hok.vmas.insert hs he hse htop rfl hfree, fun p f w hp => ?_⟩
    obtain ⟨h1, h2, h3⟩ := hok.pte p f w hp
    exact ⟨h1, h2, covers_insertVma.mpr (Or.inr h3)⟩
  exact h.setMm hm hok' (.insert (v := ⟨(c.mem.mm m).freshVma, start, end_, flags, file⟩) hok rfl rfl hfree)

theorem Core.Sound.setBrk (h : c.Sound) (hm : m < c.mem.freshMm) (brk : Nat) : (c.setBrk m brk).Sound :=
  have hok := h.sane.mms m
  have hok' : ({ c.mem.mm m with brk } : Mm).Ok := ⟨hok.vmas, hok.pte⟩
  h.setMm hm hok' (.setMm fun _ _ w hp => ⟨⟨w, hp, fun h => h⟩, fun v hv => ⟨v, hv, rfl⟩⟩)

/-- What calls that change the mappings keep; they touch no bytes. -/
structure Core.Remapped (m : Nat) (c c' : Core) : Prop where
  sound : c'.Sound
  freshMm : c'.mem.freshMm = c.mem.freshMm
  owner : (c'.mem.mm m).owner = (c.mem.mm m).owner
  spares : c.mem.Spares c'.mem

namespace Core.Remapped

theorem refl (h : c.Sound) : c.Remapped m c := ⟨h, rfl, rfl, .refl _⟩

theorem trans (h₁ : c.Remapped m c₁) (h₂ : c₁.Remapped m c') : c.Remapped m c' :=
  ⟨h₂.sound, h₂.freshMm.trans h₁.freshMm, h₂.owner.trans h₁.owner, h₁.spares.trans h₂.spares⟩

theorem setMm (h : c.Remapped m c₁) (hs : (c₁.setMem (c₁.mem.setMm m mm)).Sound) (howner : mm.owner = (c₁.mem.mm m).owner) :
    c.Remapped m (c₁.setMem (c₁.mem.setMm m mm)) := by
  refine ⟨hs, h.freshMm, ?_, h.spares.trans ⟨le_rfl, rfl, fun _ _ _ => rfl⟩⟩
  show ((c₁.mem.setMm m mm).mm m).owner = _
  rw [mm_setMm_self, howner, h.owner]

theorem setBrk (h : c.Remapped m c₁) (hm : m < c.mem.freshMm) (brk : Nat) : c.Remapped m (c₁.setBrk m brk) :=
  h.setMm (h.sound.setBrk (h.freshMm ▸ hm) brk) rfl

theorem mapAnon (h : c.Remapped m c₁) (hm : m < c.mem.freshMm) (start end_ prot : Nat) (hs : pageSize ∣ start)
    (he : pageSize ∣ end_) (hse : start < end_) (htop : end_ < ulongMax) (hfree : (c₁.mem.mm m).unmapped start end_ = true) :
    c.Remapped m (c₁.setMem (c₁.mem.setMm m ((c₁.mem.mm m).mapAnon start end_ prot))) := by
  have hsound : (c₁.setMem (c₁.mem.setMm m ((c₁.mem.mm m).mapVma start end_
      (prot &&& (protRead ||| protWrite ||| protExec)) none))).Sound := h.sound.mapVma (h.freshMm ▸ hm) hs he hse htop hfree
  exact h.setMm hsound rfl

theorem doMunmap (h : c.Remapped m c₁) (hm : m < c.mem.freshMm) (start len : Nat) :
    c.Remapped m (c₁.doMunmap env m start len).1 := by
  have hm₁ : m < c₁.mem.freshMm := h.freshMm ▸ hm
  obtain ⟨ht, hmem, -⟩ := doMunmapHook_spec env m start len h.sound.coherent
  have hhook : c.Remapped m (c₁.doMunmapHook env m start len) := by
    refine ⟨⟨hmem ▸ h.sound.sane, ht.coherent, fun u id p sp hlive hsp => ?_⟩, hmem ▸ h.freshMm, hmem ▸ h.owner, hmem ▸ h.spares⟩
    by_cases hu : u = (c₁.mem.mm m).owner
    · subst hu
      rw [ht.live] at hlive
      rw [(ht.data id hlive).entry] at hsp
      split at hsp
      · obtain ⟨sp₀, hsp₀, -⟩ := Option.map_eq_some_iff.mp hsp
        exact h.sound.aligned _ id p sp₀ hlive hsp₀
      · exact h.sound.aligned _ id p sp hlive hsp
    · obtain ⟨hlive₀, hdata⟩ := ht.records hu hlive
      exact h.sound.aligned u id p sp hlive₀ (hdata ▸ hsp)
  unfold Core.doMunmap
  dsimp only
  split
  · exact hhook
  rename_i hargs
  rw [not_or, not_not] at hargs
  have hs : pageSize ∣ start := Nat.dvd_of_mod_eq_zero hargs.1
  have hle := le_pageAlign len
  split
  · have hok := hhook.sound.sane.mms m
    exact hhook.setMm (hhook.sound.setMm (hhook.freshMm ▸ hm) (hok.unmap hs (Nat.dvd_add hs (pageAlign_dvd len)) (by omega))
      (.unmap hok)) rfl
  · exact hhook

end Core.Remapped

variable (env) in
theorem Core.Sound.brkShrink (h : c.Sound) (hm : m < c.mem.freshMm) (brk : Nat) : (c.brkShrink env m brk).Sound := by
  have hkeep : c.Remapped m (c.brkShrink env m brk) :=
    brkShrink_keeps (I := fun c₁ => c.Remapped m c₁) (fun c₁ start len h₁ => h₁.doMunmap hm start len)
      (fun c₁ brk h₁ => h₁.setBrk hm brk) (.refl h) brk
  exact hkeep.sound

variable (env) in
theorem Core.Sound.mmapFixed (h : c.Sound) (hm : m < c.mem.freshMm) (start len prot : Nat) (object : Option Nat) (shared : Bool) :
    (c.mmapFixed env m start len prot object shared).Sound := by
  have hkeep : c.Remapped m (c.mmapFixed env m start len prot object shared) :=
    mmapFixed_keeps (I := fun c₁ => c.Remapped m c₁) (fun c₁ h₁ => ⟨h₁.sound.coherent, (h₁.sound.sane.mms m).vmas⟩)
      (fun c₁ start len h₁ => h₁.doMunmap hm start len)
      (fun c₁ start end_ flags file h₁ hs he hse htop hfree =>
        h₁.setMm (h₁.sound.mapVma (h₁.freshMm ▸ hm) hs he hse htop hfree) rfl) (.refl h) start len prot object shared
  exact hkeep.sound

variable (env) in
theorem Core.Sound.mprotect (h : c.Sound) (hm : m < c.mem.freshMm) (start len prot : Nat) : (c.mprotect env m start len prot).Sound := by
  rcases mprotect_cases env m start len prot c with heq | ⟨hs, hlen, heq⟩ <;> rw [heq]
  · exact h
  have hok := h.sane.mms m
  have hse : start < start + pageAlign len := by
    have := le_pageAlign len
    omega
  exact h.setMm hm (hok.protect hs (Nat.dvd_add hs (pageAlign_dvd len)) hse) (.protect hok hse)

/-- A step that concerns one page, and spares what is not anonymous. -/
structure Core.SoundRound (env : Env) (m id page : Nat) (c c' : Core) : Prop where
  sound : c'.Sound
  onPage : c.OnPage m page c'
  steady : c.Steady env c'
  spares : c.mem.Spares c'.mem
  done : ∀ sp, (c'.reg.data id).getSnapshotPage page = some sp → ¬(sp.dirty = true ∧ sp.hasBeenCopied = true)

/-! ### Restore -/

variable (env id) in
theorem Core.Sound.beforeLoop (h : c.Sound) (hm : m < c.mem.freshMm) (hd : ∀ i, (c.reg.data i).Kept) :
    c.Remapped m (c.beforeLoop env m id).1 := by
  have hsteady : c.Steady env (c.restoreBrk env m (c.reg.data id).ss.oldbrk).1 := steady_restoreBrk h.coherent (hd id).oldbrk
  have hbrk : c.Remapped m (c.restoreBrk env m (c.reg.data id).ss.oldbrk).1 :=
    restoreBrk_keeps (I := fun c₁ => c.Remapped m c₁) (hd id).oldbrk
      (fun c₁ h₁ => ⟨h₁.sound.coherent, (h₁.sound.sane.mms m).vmas⟩) (fun c₁ start len h₁ => h₁.doMunmap hm start len)
      (fun c₁ start end_ prot h₁ => h₁.mapAnon hm start end_ prot) (fun c₁ h₁ => h₁.setBrk hm _) (.refl h)
  refine sweptVmas_keeps (I := fun c₁ => c.Remapped m c₁) ((hd id).congr (hsteady.data id)).allVmas
    (fun c₁ start len h₁ => h₁.doMunmap hm start len) (fun c₁ start end_ prot h₁ => h₁.mapAnon hm start end_ prot)
    (fun c₁ h₁ => ?_) hbrk
  exact ⟨⟨h₁.sound.sane, h₁.sound.coherent, h₁.sound.aligned⟩, h₁.freshMm, h₁.owner, h₁.spares⟩

/-- A copy to a saved page that is mapped privately goes to a frame of its own. -/
theorem Core.Sound.copyToUser (h : c.Sound) (hlive : c.reg.live (c.mem.mm m).owner = some id) (hreuse : env.ReuseSound)
    (hsp : (c.reg.data id).getSnapshotPage page = some sp) (hdirty : sp.dirty = true)
    (hpriv : ∀ v, env.copyToUser page = true → (c.mem.mm m).vmaAt page = some v → v.writable = true → v.shared = false)
    (data : Page) : (c.copyToUser env m page data).1.Sound ∧ c.OnPage m page (c.copyToUser env m page data).1 ∧
      c.mem.Spares (c.copyToUser env m page data).1.mem := by
  rcases copyToUser_cases h.coherent data with ⟨-, heq⟩ | ⟨hcall, v, c₁, f, hcopy⟩
  · rw [heq]
    exact ⟨h, .refl m page c, .refl _⟩
  -- The hook does not trust a page that is dirty.
  have harmed : ∀ v, (c.mem.mm m).vmaAt page = some v → v.shared = false → c.Armed m page := fun _ _ _ i sp' f w hi hsp' hclean => by
    obtain rfl : id = i := Option.some.inj (hlive.symm.trans hi)
    rw [hsp] at hsp'
    cases hsp'
    rw [hdirty] at hclean
    cases hclean
  obtain ⟨hsound, hp, v', hv', -, hcase⟩ := h.writeFault hreuse (h.aligned _ id page sp hlive hsp) harmed hcopy.fault
  have hex : c₁.mem.Exclusive m page f :=
    hsound.sane.excl m page f v hcopy.pte (hp.vmaAt.trans hcopy.vma) (hpriv v hcall hcopy.vma hcopy.writable)
  have hstore := onPage_store m page (fun _ => data) c₁
  have hsound' := hsound.store m page fun _ => data
  rw [store_eq (g := fun _ => data) hcopy.pte, ← hcopy.stored] at hstore hsound'
  refine ⟨hsound', hp.trans hstore, (hcase.faulted h.sane).spares.trans ?_⟩
  rw [hcopy.stored]
  exact .setFrame hex.anon

theorem Core.Sound.recoverEntry (h : c.Sound) (hlive : c.reg.live (c.mem.mm m).owner = some id) (hreuse : env.ReuseSound)
    (hback : c.BacksPrivate env m id) (page : Nat) :
    c.recoverEntry env m id page = c ∨ c.SoundRound env m id page (c.recoverEntry env m id page) := by
  cases hsp : (c.reg.data id).getSnapshotPage page with
  | none =>
    refine Or.inl ?_
    unfold Core.recoverEntry
    rw [hsp]
  | some sp =>
    have hd := h.aligned _ id page sp hlive hsp
    have hsteady : c.Steady env (c.recoverEntry env m id page) := steady_recoverEntry env m page id h.coherent
    -- After the copy the page comes to rest.
    have hrest : ∀ (c₁ : Core) x g, c₁.Sound → c.OnPage m page c₁ → c.mem.Spares c₁.mem →
        c₁.reg.live (c₁.mem.mm m).owner = some id → c₁.Settles m id page x g (c.recoverEntry env m id page) →
        (∀ f w, x = .present f w → ∃ w', (c₁.mem.mm m).pte page = .present f w' ∧ (w = true → w' = true)) →
        (∀ sp', (c₁.reg.data id).getSnapshotPage page = some sp' → ¬((g sp').dirty = true ∧ (g sp').hasBeenCopied = true)) →
        c.SoundRound env m id page (c.recoverEntry env m id page) := fun c₁ x g h₁ hp hspares hlive₁ hset hx hg => by
      have hp' := hset.onPage (tsk_of_live hlive₁) hx
      refine ⟨h₁.onPage hd hp' (hset.mem ▸ h₁.sane.weaken hx) hsteady.coherent, hp.trans hp', hsteady,
        hspares.trans ⟨hp'.freshPfn, ?_, fun f _ _ => ?_⟩, fun sp' => hset.done hg⟩
      · rw [hset.mem]
        rfl
      · rw [hset.frame]
    have hflat : ∀ sp', (c.reg.data id).getSnapshotPage page = some sp' → sp' = sp := fun sp' hsp' =>
      Option.some.inj (hsp'.symm.trans hsp)
    refine Or.inr ?_
    rcases recoverEntry_cases env (h.sane.mms m) hsp with ⟨hdirty, hcopied, heq⟩ | ⟨hflags, hset | ⟨-, -, -, hset⟩⟩
    · obtain ⟨h₁, hp, hspares⟩ := h.copyToUser hlive hreuse hsp hdirty
        (fun v hcall => hback page sp v hsp hdirty hcopied hcall) (sp.pageData.getD fun _ => 0)
      have hlive₁ : (c.copyToUser env m page (sp.pageData.getD fun _ => 0)).1.reg.live
          ((c.copyToUser env m page (sp.pageData.getD fun _ => 0)).1.mem.mm m).owner = some id := by
        rw [hp.owner, (steady_copyToUser env m page _ h.coherent).live, hlive]
      have hcases := recoverPage_cases env id (getSnapshotPage_key hsp) (c := c) (m := m) rfl
      rw [← heq] at hcases
      rcases hcases with ⟨-, hset⟩ | ⟨-, hset⟩
      · exact hrest _ _ _ h₁ hp hspares hlive₁ hset (wrprotect_weakens _) fun sp' _ hboth => by cases hboth.1
      · exact hrest _ _ _ h₁ hp hspares hlive₁ hset (fun f w hf => ⟨w, hf, fun h => h⟩) fun sp' _ hboth => by cases hboth.1
    · refine hrest c _ _ h (.refl m page c) (.refl _) hlive hset (fun f w hf => ⟨w, hf, fun h => h⟩) fun sp' hsp' => ?_
      rw [hflat sp' hsp']
      exact hflags
    · refine hrest c _ _ h (.refl m page c) (.refl _) hlive hset (fun f w hf => by cases hf) fun sp' hsp' => ?_
      rw [hflat sp' hsp']
      exact hflags

theorem Core.SoundRound.backsPrivate (hr : c.SoundRound env m id page c') (hlive : c.reg.live (c.mem.mm m).owner = some id)
    (hback : c.BacksPrivate env m id) : c'.BacksPrivate env m id := by
  intro p sp v hsp hdirty hcopied hcall hv
  by_cases hp : p = page
  · subst hp
    exact absurd ⟨hdirty, hcopied⟩ (hr.done sp hsp)
  · rw [(hr.onPage.entries id p hp (by rw [hr.steady.live, hlive])).2] at hsp
    rw [hr.onPage.vmaAt] at hv
    exact hback p sp v hsp hdirty hcopied hcall hv

theorem Core.Sound.recoverEntries (h : c.Sound) (hlive : c.reg.live (c.mem.mm m).owner = some id) (hreuse : env.ReuseSound)
    (hback : c.BacksPrivate env m id) (l : List Nat) : c.Remapped m (l.foldl (Core.recoverEntry env m id) c) := by
  induction l generalizing c with
  | nil => exact .refl h
  | cons page l ih =>
    rw [List.foldl_cons]
    rcases h.recoverEntry hlive hreuse hback page with heq | hr
    · rw [heq]
      exact ih h hlive hback
    · have hlive' : (c.recoverEntry env m id page).reg.live ((c.recoverEntry env m id page).mem.mm m).owner = some id := by
        rw [hr.onPage.owner, hr.steady.live, hlive]
      have hrest := ih hr.sound hlive' (hr.backsPrivate hlive hback)
      exact ⟨hrest.sound, hrest.freshMm.trans hr.onPage.freshMm, hrest.owner.trans hr.onPage.owner, hr.spares.trans hrest.spares⟩

/-! ### Take -/

theorem Took.sound {d₀ : TaskData} (hT : Took env t config w id d₀ w') (h : w.core.Sound) (hm : (w.task t).mm < w.core.mem.freshMm) :
    w'.core.Sound := by
  have hblank : (w.initialized t config d₀).Blank := hT.fresh.2.2
  have hok := h.sane.mms (w.task t).mm
  obtain ⟨done, rest, x, s, -, hs, hres, -⟩ := take_taken env.take hok.sorted hblank
  have hres : (w.taking env t config d₀).1 = (s.data, s.mm) := hres
  have hmem : w'.core.mem = w.core.mem.setMm (w.task t).mm s.mm := by rw [hT.mem, hres]
  refine ⟨?_, hT.coherent, fun u i p sp hi hsp => ?_⟩
  · rw [hmem]
    exact h.sane.setMm (hs.mmOk hok) hs.restricts fun hle => absurd hm (Nat.not_lt.mpr hle)
  by_cases hu : u = t
  · subst hu
    obtain rfl : id = i := Option.some.inj (hT.live.symm.trans hi)
    have hget : (w'.core.reg.data id).getSnapshotPage p = s.data.getSnapshotPage p := by
      rw [hT.data, hres]
      rfl
    rw [hget] at hsp
    rcases hs.page p with ⟨hnone, -⟩ | ⟨-, -, hvis, -⟩
    · rw [hnone] at hsp
      cases hsp
    · exact hvis.aligned
  · have hid : i ≠ id := by
      rintro rfl
      exact hu ((getTaskData_spec (live_eq_some.mp hi).1).2.symm.trans (getTaskData_spec (live_eq_some.mp hT.live).1).2)
    rw [hT.records i hid] at hsp
    exact h.aligned u i p sp (hT.others u hu ▸ hi) hsp

/-! ### Steps -/

/-- A step that changes the records of tasks without a snapshot, or the ranges of others. -/
theorem Core.Sound.records (h : c.Sound) (hmem : c'.mem = c.mem) (hc : c'.reg.Coherent)
    (hpages : ∀ u id, c'.reg.live u = some id → c.reg.live u = some id ∧
      (c'.reg.data id).ss.ssPages = (c.reg.data id).ss.ssPages) : c'.Sound := by
  refine ⟨hmem ▸ h.sane, hc, fun u id p sp hlive hsp => ?_⟩
  obtain ⟨hlive₀, heq⟩ := hpages u id hlive
  refine h.aligned u id p sp hlive₀ ?_
  unfold TaskData.getSnapshotPage at hsp ⊢
  rwa [← heq]

theorem World.Sound.addVmrange (h : w.Sound) (f : RangeLists → RangeLists) : (w.addVmrange env t f).Sound := by
  have hgiven := addVmrange_given env t h.kept.coherent f
  refine ⟨h.kept.addVmrange env t f, h.core.records hgiven.mem hgiven.coherent fun u id hlive => ?_⟩
  rw [hgiven.live] at hlive
  obtain ⟨⟨ranges, hranges⟩, -⟩ := hgiven.data u id hlive
  exact ⟨hlive, by rw [hranges]⟩

theorem World.Sound.clean (h : w.Sound) (t : Nat) : (w.cleanSnapshot t).Sound := by
  have hcleaned := cleanSnapshot_cleaned h.kept.coherent t
  refine ⟨h.kept.clean t, h.core.records hcleaned.mem hcleaned.coherent fun u id hlive => ?_⟩
  by_cases hu : u = t
  · rw [hu, live_of_getTaskData_none hcleaned.none] at hlive
    cases hlive
  · rw [hcleaned.others u hu] at hlive
    have htsk := (getTaskData_spec (live_eq_some.mp hlive).1).2
    exact ⟨hlive, by rw [hcleaned.data id (htsk.trans_ne hu)]⟩

theorem World.Sound.take (h : w.Sound) (hp : w.Process t) (config : Nat) : (w.takeSnapshot env t config).1.Sound := by
  refine ⟨h.kept.take env t config, ?_⟩
  rcases takeSnapshot_cases env t config h.kept.coherent (h.kept.sorted t) with ⟨id, -, heq⟩ | ⟨-, -, heq⟩ | ⟨id, d₀, -, hT, -⟩
  · rw [heq]
    exact h.core
  · rw [heq]
    exact ⟨h.core.sane, h.core.coherent, h.core.aligned⟩
  · exact hT.sound h.core hp.used

/-- A restore writes to private memory only. -/
theorem World.Sound.restore (h : w.Sound) (hp : w.Process t) (hreuse : env.ReuseSound) (hget : w.core.reg.getTaskData t = some id)
    (hback : w.BacksPrivate env t) : w.core.Remapped (w.task t).mm (w.restoreSnapshot env t id).core := by
  rw [(restoreSnapshot_core env w t id).1]
  show w.core.Remapped (w.task t).mm (w.core.restore id env (w.task t).mm)
  have hbefore := h.core.beforeLoop env id hp.used h.kept.records
  have hsteady := steady_beforeLoop env (w.task t).mm id h.core.coherent h.kept.mapped h.kept.records
  have howner : ((w.core.beforeLoop env (w.task t).mm id).1.mem.mm (w.task t).mm).owner = t := by
    rw [hbefore.owner]
    exact hp.owner
  rw [restore_eq]
  split
  swap
  · exact hbefore
  rename_i hres
  have hget' : (w.core.beforeLoop env (w.task t).mm id).1.reg.getTaskData t = some id := (hsteady.getTaskData _).trans hget
  cases hmade : ((w.core.beforeLoop env (w.task t).mm id).1.reg.data id).haveSnapshot with
  | true =>
    exact hbefore.trans
      (hbefore.sound.recoverEntries (howner.symm ▸ live_eq_some.mpr ⟨hget', hmade⟩) hreuse (hback id hget hres) _)
  | false =>
    -- A record without a snapshot has an empty list.
    have hblank := hbefore.sound.coherent.blank id (getTaskData_spec hget').1 hmade
    unfold Core.recoverPages
    rw [hblank.2.2.2]
    exact hbefore

theorem World.Sound.exit (h : w.Sound) (t : Nat) : (w.doExitHook t).core.Sound := by
  rcases doExitHook_cases w t with heq | heq <;> rw [heq]
  · exact h.core
  · exact (h.clean t).core

theorem World.Sound.recoverThreads (h : w.Sound) (t : Nat) : (w.recoverThreadsSnapshot t).Sound := by
  refine ⟨h.kept.recoverThreads t, ?_⟩
  rw [(recoverThreads_same w t).core]
  exact h.core

/-- What one step keeps. -/
theorem World.Sound.move {a : Move} (h : w.Sound) (ha : RemapMoves w a) (hspare : SparesObjects w a) : (w.move a).Sound := by
  refine ⟨(h.kept.step a.env a.tsk a.op).1, ?_⟩
  cases ha with
  | read addr hp => exact h.core.readByte addr
  | write addr byte hp hreuse => exact h.core.writeByte hreuse byte hspare
  | @munmap env t start len hp => exact ((Core.Remapped.refl h.core).doMunmap hp.used start len).sound
  | @brk env t brk hp => exact h.core.brkShrink env hp.used brk
  | @mprotect env t start len prot hp => exact h.core.mprotect env hp.used start len prot
  | @mmap env t start len prot object shared hp => exact h.core.mmapFixed env hp.used start len prot object shared
  | file op hp => exact h.core
  | @exit env t hp => exact h.exit t
  | @exitGroup env t hp hreuse =>
    show (w.sysExitGroupHook env t).core.Sound
    rcases sysExitGroupHook_cases env w t with ⟨id, hget, -, -, heq⟩ | heq | heq <;> rw [heq]
    · exact (h.restore hp hreuse hget hspare).sound
    · exact ((h.clean t).recoverThreads t).exit t
    · exact (h.recoverThreads t).exit t
  | @ioctl env t cmd hp hreuse =>
    have hrange : ∀ f, (if env.copyFromUser then (w.addVmrange env t f, (0 : Int)) else (w, -22)).1.core.Sound := fun f => by
      split
      · exact (h.addVmrange f).core
      · exact h.core
    cases cmd with
    | excludeVmrange start end_ => exact hrange _
    | includeVmrange start end_ => exact hrange _
    | take config => exact (h.take hp config).core
    | do_ => exact (h.take hp _).core
    | restore =>
      show (w.recoverSnapshot env t).1.core.Sound
      unfold World.recoverSnapshot
      split
      · exact h.core
      · rename_i id hget
        exact (h.restore hp hreuse hget hspare).sound
    | clean => exact (h.clean t).core

/-! ### Runs -/

theorem World.Unsnapshotted.sound (h : w.Unsnapshotted) : w.Sound where
  kept := h.kept
  core := ⟨h.sane, h.kept.coherent, fun u id p sp hlive => by
    rw [h.idle u] at hlive
    cases hlive⟩

/-- A command to restore, or a call of `exit_group`. -/
def Op.Restores (op : Op) : Prop := op = .ioctl .restore ∨ op = .exitGroup

theorem World.Sound.exit_mem (h : w.Sound) (t : Nat) : (w.doExitHook t).core.mem = w.core.mem := by
  rcases doExitHook_cases w t with heq | heq <;> rw [heq]
  · rfl
  · exact (cleanSnapshot_cleaned h.kept.coherent t).mem

theorem World.Sound.spares {a : Move} (h : w.Sound) (ha : RemapMoves w a) (hspare : SparesObjects w a) (hop : a.op.Restores) :
    w.core.mem.Spares (w.move a).core.mem := by
  obtain ⟨env, t, op⟩ := a
  have hthreads : ∀ w₁ : World, w₁.Sound → ((w₁.recoverThreadsSnapshot t).doExitHook t).core.mem = w₁.core.mem := fun w₁ h₁ => by
    rw [(h₁.recoverThreads t).exit_mem t, (recoverThreads_same w₁ t).core]
  rcases hop with hop | hop <;> cases hop <;> cases ha
  · rename_i hreuse hp
    show w.core.mem.Spares (w.recoverSnapshot env t).1.core.mem
    unfold World.recoverSnapshot
    split
    · exact .refl _
    · rename_i id hget
      exact (h.restore hp hreuse hget hspare).spares
  · rename_i hreuse hp
    show w.core.mem.Spares (w.sysExitGroupHook env t).core.mem
    rcases sysExitGroupHook_cases env w t with ⟨id, hget, -, -, heq⟩ | heq | heq <;> rw [heq]
    · exact (h.restore hp hreuse hget hspare).spares
    · rw [hthreads _ (h.clean t), (cleanSnapshot_cleaned h.kept.coherent t).mem]
      exact .refl _
    · rw [hthreads w h]
      exact .refl _

/-- The process maps a file over the page that it wrote before the take. -/
def mappedOver (shared : Bool) : World := takenHeap.move ⟨.calm, 1, .mmap 4096 4096 3 (some 0) shared⟩

theorem mappedOver_backsPrivate : (mappedOver false).BacksPrivate .calm 1 := by
  intro id hget _ p sp v _ _ _ _ hv _
  obtain rfl : 0 = id := Option.some.inj ((show (mappedOver false).core.reg.getTaskData 1 = some 0 by decide).symm.trans hget)
  have hall : ∀ v ∈ (((mappedOver false).core.beforeLoop .calm ((mappedOver false).task 1).mm 0).1.mem.mm
      ((mappedOver false).task 1).mm).mmap, v.shared = false := by decide
  exact hall v (Spans.find_mem hv).1

end
end AflSnapshot
