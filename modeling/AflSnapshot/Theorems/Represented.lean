import AflSnapshot.Theorems.Allocated
import AflSnapshot.Theorems.Departures
import AflSnapshot.Theorems.Owners

/-! # The system and its objects

A step of the system is matched by calls on the records with their objects, and these keep standing for the records of the
system (`ModuleMemory.Represents`). What the kernel decides in the step, the calls are given. -/

namespace AflSnapshot
open Runs

namespace ModuleMemory

/-- The records with their objects stand for the records of the system, but for the files. -/
structure Represents (hash : Nat → Fin 256) (m : ModuleMemory) (c : Core) : Prop where
  owned : m.Owned hash
  list : c.reg.taskDataList = m.taskDataList
  fresh : c.reg.fresh = m.fresh
  rcu : c.reg.rcu = m.rcu
  records : ∀ id ∈ m.taskDataList, (m.memory id).Represents hash (c.reg.data id)
  oops : m.oops = true → c.oops = true

section
variable {hash : Nat → Fin 256} {m m' : ModuleMemory} {c c' : Core} {t : TaskMemory} {d : TaskData} {id : Nat}

namespace Represents

theorem tsk (h : m.Represents hash c) (hid : id ∈ m.taskDataList) : (c.reg.data id).tsk = (m.node id).tsk :=
  congrArg TaskData.tsk (h.records id hid).same

theorem made (h : m.Represents hash c) (hid : id ∈ m.taskDataList) : (c.reg.data id).ss.made = (m.node id).made :=
  congrArg (fun d : TaskData => d.ss.made) (h.records id hid).same

theorem had (h : m.Represents hash c) (hid : id ∈ m.taskDataList) : (c.reg.data id).ss.had = (m.node id).had :=
  congrArg (fun d : TaskData => d.ss.had) (h.records id hid).same

theorem config (h : m.Represents hash c) (hid : id ∈ m.taskDataList) : (c.reg.data id).config = (m.node id).config :=
  congrArg TaskData.config (h.records id hid).same

theorem getTaskData (h : m.Represents hash c) (tsk : Nat) : m.getTaskData tsk = c.reg.getTaskData tsk := by
  unfold ModuleMemory.getTaskData Registry.getTaskData
  rw [h.list]
  refine List.find?_congr fun id hid => ?_
  rw [h.tsk hid]

theorem live (h : m.Represents hash c) (tsk : Nat) : m.live tsk = c.reg.live tsk := by
  unfold ModuleMemory.live Registry.live Registry.ifLive
  rw [h.getTaskData]
  cases hget : c.reg.getTaskData tsk with
  | none => rfl
  | some id =>
    have hid : id ∈ m.taskDataList := h.list ▸ (getTaskData_spec hget).1
    simp [Option.filter, TaskData.haveSnapshot, h.made hid]

/-- Nothing of the records is different. -/
theorem congr (h : m.Represents hash c) (hreg : c.reg.SameButCaches c'.reg) (hoops : c'.oops = c.oops) : m.Represents hash c' where
  owned := h.owned
  list := by
    rw [hreg]
    exact h.list
  fresh := by
    rw [hreg]
    exact h.fresh
  rcu := by
    rw [hreg]
    exact h.rcu
  records id hid := by
    rw [hreg.data]
    exact h.records id hid
  oops ho := hoops ▸ h.oops ho

theorem setMem (h : m.Represents hash c) (mem : Memory) : m.Represents hash (c.setMem mem) := h.congr rfl rfl

/-- One record changes on both sides. -/
theorem store (h : m.Represents hash c) (hid : id ∈ m.taskDataList) (ht : TaskMemory.Extends hash (m.memory id) t)
    (hkeeps : (m.store id t).Owned hash) (hd : t.Represents hash d) :
    (m.store id t).Represents hash { c with reg := c.reg.setData id d } where
  owned := hkeeps
  list := h.list
  fresh := h.fresh
  rcu := h.rcu
  records id' hid' := by
    by_cases hne : id' = id
    · rw [hne, store_self, setData_same]
      exact hd
    · have hmemory : (m.store id t).memory id' = ⟨t.slab, (m.memory id').node⟩ :=
        congrArg (TaskMemory.mk t.slab) (Function.update_of_ne hne ..)
      rw [hmemory, setData_of_ne hne]
      refine (h.records id' hid').congr (h.owned.records id' hid') fun x hx => ht.outside x (h.owned.lt_fresh hid' hx) fun hin => hne ?_
      exact h.owned.apart id' hid' id hid x hx hin
  oops := h.oops

/-- A function on a record with a live snapshot. -/
theorem storeMade (h : m.Represents hash c) (hid : id ∈ m.taskDataList) (hmade : (m.node id).made = true)
    (ht : TaskMemory.Extends hash (m.memory id) t) (hd : t.Represents hash d) :
    (m.store id t).Represents hash { c with reg := c.reg.setData id d } :=
  h.store hid ht (h.owned.storeMade hid hmade ht).owned hd

end Represents
end
end ModuleMemory

/-! ### Hooks -/

/-- Calls of hooks that are matched on the way from `c` to `c'`. -/
def Core.Hooked (calls : List HookCall) (c c' : Core) : Prop :=
  ∀ hash m, ModuleMemory.Represents hash m c → (m.hooks hash calls).Represents hash c'

section
variable {env : Env} {m page start len : Nat} {c c₁ c₂ c' : Core} {calls l₁ l₂ : List HookCall}

theorem Core.Hooked.refl (c : Core) : c.Hooked [] c := fun _ _ h => h

theorem Core.Hooked.trans (h₁ : c.Hooked l₁ c₁) (h₂ : c₁.Hooked l₂ c₂) : c.Hooked (l₁ ++ l₂) c₂ := fun hash m h => by
  unfold ModuleMemory.hooks
  rw [List.foldl_append]
  exact h₂ hash _ (h₁ hash m h)

theorem Core.Hooked.setMem (h : c.Hooked calls c₁) (mem : Memory) : c.Hooked calls (c₁.setMem mem) := fun hash m hm =>
  (h hash m hm).setMem mem

theorem LookedUp.represents {hash : Nat → Fin 256} {μ : ModuleMemory} (h : LookedUp c c') (hμ : μ.Represents hash c) :
    μ.Represents hash c' := hμ.congr h.reg h.oops

variable (env m page) in
theorem hooked_doWpPageHook (h : c.reg.Coherent) :
    c.Hooked [.doWpPage (c.mem.mm m).owner page (c.mem.frame ((c.mem.mm m).pte page).pfn).data (env.pageData page)]
      (c.doWpPageHook env m page).1 := fun hash μ hμ => by
  obtain ⟨hlook, hlive⟩ := ownerLive_spec env m h
  have hμ₁ := hlook.represents hμ
  have hmem := hlook.mem
  unfold ModuleMemory.hooks
  rw [List.foldl_cons, List.foldl_nil, ModuleMemory.hook]
  unfold Core.doWpPageHook
  rcases ho : c.ownerLive env m with ⟨⟨mem₁, reg₁, oops₁⟩, o⟩
  rw [ho] at hlive hμ₁ hmem
  obtain rfl : mem₁ = c.mem := hmem
  dsimp only at hlive hμ₁ ⊢
  rw [hμ.live, ← hlive]
  cases o with
  | none => exact hμ₁
  | some id =>
    obtain ⟨hid, hmade⟩ := ModuleMemory.live_eq_some ((hμ.live _).trans hlive.symm)
    have hok := hμ.owned.records id hid
    have hstore := hμ₁.storeMade hid hmade
      (TaskMemory.recordDirtyPage_extends hok hμ.owned.sound page (c.mem.frame ((c.mem.mm m).pte page).pfn).data (env.pageData page))
      (TaskMemory.recordDirtyPage_represents hok hμ.owned.sound (hμ₁.records id hid) page _ _)
    dsimp only
    split
    · exact hstore
    · split
      · exact hstore.setMem _
      · exact hstore

theorem hooked_pageAddNewAnonRmapHook (h : c.reg.Coherent) :
    c.Hooked [.pageAddNewAnonRmap (c.mem.mm m).owner page (env.snapshotPage page)] (c.pageAddNewAnonRmapHook env m page) := fun hash μ hμ => by
  obtain ⟨hlook, hlive⟩ := ownerLive_spec env m h
  have hμ₁ := hlook.represents hμ
  unfold ModuleMemory.hooks
  rw [List.foldl_cons, List.foldl_nil, ModuleMemory.hook]
  unfold Core.pageAddNewAnonRmapHook
  rcases ho : c.ownerLive env m with ⟨c₁, o⟩
  rw [ho] at hlive hμ₁
  dsimp only at hlive hμ₁ ⊢
  rw [hμ.live, ← hlive]
  cases o with
  | none => exact hμ₁
  | some id =>
    obtain ⟨hid, hmade⟩ := ModuleMemory.live_eq_some ((hμ.live _).trans hlive.symm)
    have hok := hμ.owned.records id hid
    dsimp only
    rcases TaskMemory.pageAddNewAnonRmap_represents hok hμ.owned.sound (hμ₁.records id hid) page (env.snapshotPage page) with
      ⟨hadd, hadd'⟩ | ⟨t, d, hadd, hadd', hd⟩ <;> rw [hadd, hadd']
    · exact { hμ₁ with owned := hμ.owned.oopsed, oops := fun _ => rfl }
    · exact hμ₁.storeMade hid hmade (TaskMemory.pageAddNewAnonRmap_extends hok hμ.owned.sound hadd) hd

variable (env m start len) in
theorem hooked_doMunmapHook (h : c.reg.Coherent) :
    c.Hooked [.doMunmap (c.mem.mm m).owner (walkPageRange (c.mem.mm m) start (start + len))
      (fun addr => (c.mem.frame ((c.mem.mm m).pte addr).pfn).data) env.pageData] (c.doMunmapHook env m start len) := fun hash μ hμ => by
  obtain ⟨hlook, hlive⟩ := ownerLive_spec env m h
  have hμ₁ := hlook.represents hμ
  have hmem := hlook.mem
  unfold ModuleMemory.hooks
  rw [List.foldl_cons, List.foldl_nil, ModuleMemory.hook]
  unfold Core.doMunmapHook
  rcases ho : c.ownerLive env m with ⟨⟨mem₁, reg₁, oops₁⟩, o⟩
  rw [ho] at hlive hμ₁ hmem
  obtain rfl : mem₁ = c.mem := hmem
  dsimp only at hlive hμ₁ ⊢
  rw [hμ.live, ← hlive]
  cases o with
  | none => exact hμ₁
  | some id =>
    obtain ⟨hid, hmade⟩ := ModuleMemory.live_eq_some ((hμ.live _).trans hlive.symm)
    have hok := hμ.owned.records id hid
    exact hμ₁.storeMade hid hmade (TaskMemory.recordDirtyPages_extends hok hμ.owned.sound _ _ _)
      (TaskMemory.recordDirtyPages_represents hok hμ.owned.sound (hμ₁.records id hid) _ _ _)

/-! ### Faults -/

theorem hooked_newAnonPage (h : c.reg.Coherent) {source : Nat} :
    c.Hooked [.pageAddNewAnonRmap (c.mem.mm m).owner page (env.snapshotPage page)] (c.newAnonPage env m page source) :=
  (hooked_pageAddNewAnonRmapHook h).setMem _

/-- A write to a page runs through hooks for that page. -/
theorem hooked_doWpPage (h : c.reg.Coherent) {v : VmArea} {f : Nat} :
    ∃ l : List PageHook, c.Hooked (l.map (PageHook.call page)) (c.doWpPage env m v page f) := by
  have hhook := hooked_doWpPageHook env m page h
  have hsteady := steady_doWpPageHook env m page h
  unfold Core.doWpPage
  rcases hr : c.doWpPageHook env m page with ⟨c₁, b⟩
  rw [hr] at hhook hsteady
  cases b with
  | true => exact ⟨[.doWpPage _ _ _], hhook⟩
  | false =>
    dsimp only
    split
    · exact ⟨[.doWpPage _ _ _], hhook.setMem _⟩
    · exact ⟨[.doWpPage _ _ _, .pageAddNewAnonRmap _ _], hhook.trans (hooked_newAnonPage hsteady.coherent)⟩

theorem hooked_writeFault (h : c.reg.Coherent) (hf : c.writeFault env m page = some c') :
    ∃ l : List PageHook, c.Hooked (l.map (PageHook.call page)) c' := by
  unfold Core.writeFault at hf
  split at hf
  · cases hf
  split at hf
  swap
  · cases hf
  split at hf
  · cases hf
    exact ⟨[], .refl c⟩
  · cases hf
    exact hooked_doWpPage h
  · cases hf
    split
    · exact ⟨[], ((Core.Hooked.refl c).setMem _).setMem _⟩
    · have hpop : c.Hooked [] (c.setMem (c.mem.setMm m ((c.mem.mm m).populate page))) := (Core.Hooked.refl c).setMem _
      have hcoherent : (c.setMem (c.mem.setMm m ((c.mem.mm m).populate page))).reg.Coherent := h
      exact ⟨[.pageAddNewAnonRmap _ _], hpop.trans (hooked_newAnonPage hcoherent)⟩

theorem Core.Hooked.store (h : c.Hooked calls c₁) (f : Page → Page) : c.Hooked calls (c₁.store m page f) := by
  unfold Core.store
  split
  · exact h.setMem _
  · exact h

variable (env m page) in
theorem hooked_copyToUser (data : Page) (h : c.reg.Coherent) :
    ∃ l : List PageHook, c.Hooked (l.map (PageHook.call page)) (c.copyToUser env m page data).1 := by
  unfold Core.copyToUser
  split
  swap
  · exact ⟨[], .refl c⟩
  cases hf : c.writeFault env m page with
  | none => exact ⟨[], .refl c⟩
  | some c' =>
    obtain ⟨l, hl⟩ := hooked_writeFault h hf
    dsimp only
    exact ⟨l, hl.store _⟩

theorem hooked_writeByte (h : c.reg.Coherent) {addr : Nat} {byte : UInt8} : ∃ l, c.Hooked l (c.writeByte env m addr byte) := by
  unfold Core.writeByte
  cases hf : c.writeFault env m (pageBase addr) with
  | none => exact ⟨[], .refl c⟩
  | some c' =>
    obtain ⟨l, hl⟩ := hooked_writeFault h hf
    dsimp only
    exact ⟨_, hl.store _⟩

theorem hooked_readByte {addr : Nat} : c.Hooked [] (c.readByte env m addr) := by
  unfold Core.readByte Core.readFault
  split
  · exact .refl c
  split
  swap
  · exact .refl c
  split
  · exact .refl c
  · exact (Core.Hooked.refl c).setMem _

variable (m page) in
theorem Core.Hooked.zapPage (h : c.Hooked calls c₁) : c.Hooked calls (c₁.zapPage m page) := by
  unfold Core.zapPage
  split
  · exact h.setMem _
  · exact h

/-! ### Mappings -/

/-- The records change only in hooks that are matched. -/
structure Core.Passes (env : Env) (c c' : Core) : Prop where
  steady : c.Steady env c'
  hooked : ∃ calls, c.Hooked calls c'

theorem Core.Passes.refl (h : c.reg.Coherent) : c.Passes env c := ⟨.refl h, [], .refl c⟩

theorem Core.Passes.trans (h₁ : c.Passes env c₁) (h₂ : c₁.Passes env c₂) : c.Passes env c₂ := by
  obtain ⟨l₁, hl₁⟩ := h₁.hooked
  obtain ⟨l₂, hl₂⟩ := h₂.hooked
  exact ⟨h₁.steady.trans h₂.steady, l₁ ++ l₂, hl₁.trans hl₂⟩

theorem Core.Passes.setMem (h : c.Passes env c₁) {mem : Memory} (hmem : c₁.mem.Mapped → mem.Mapped) : c.Passes env (c₁.setMem mem) := by
  obtain ⟨l, hl⟩ := h.hooked
  exact ⟨h.steady.setMem hmem, l, hl.setMem mem⟩

theorem passes_doMunmap (h : c.reg.Coherent) : c.Passes env (c.doMunmap env m start len).1 := by
  obtain ⟨l, hl⟩ : ∃ l, c.Hooked l (c.doMunmapHook env m start len) := ⟨_, hooked_doMunmapHook env m start len h⟩
  refine ⟨steady_doMunmap h, l, fun hash μ hμ => ?_⟩
  have hhook := hl hash μ hμ
  unfold Core.doMunmap
  dsimp only
  split
  · exact hhook
  · split
    · exact hhook.setMem _
    · exact hhook

theorem passes_restoreBrk (h : c.reg.Coherent) (hm : c.mem.Mapped) {brk : Nat} (hbrk : pageAlign brk < ulongMax) :
    c.Passes env (c.restoreBrk env m brk).1 := by
  refine restoreBrk_keeps (I := fun c' => c.Passes env c') hbrk (fun c' hc' => ⟨hc'.steady.coherent, (hc'.steady.mapped hm m).1⟩)
    (fun _ _ _ hc' => hc'.trans (passes_doMunmap hc'.steady.coherent)) (fun _ _ _ prot hc' hs he hse htop hfree => ?_)
    (fun _ hc' => ?_) (.refl h)
  · exact hc'.setMem fun hm => hm.mapAnon hs he hse htop hfree prot
  · obtain ⟨l, hl⟩ := hc'.hooked
    exact ⟨hc'.steady.setBrk fun _ => hbrk, l, hl.setMem _⟩

theorem passes_restoreVmas (h : c.reg.Coherent) {allVmas : List SnapshotVma} (hS : SnapshotVmasOk allVmas) {r : Int}
    (hres : restoreVmas (Core.vmOps env m) allVmas c = some (c', r)) : c.Passes env c' :=
  restoreVmas_keeps (I := fun c' => c.Passes env c') hS (fun _ _ _ hc' => hc'.trans (passes_doMunmap hc'.steady.coherent))
    (fun _ _ _ prot hc' hs he hse htop hfree => hc'.setMem fun hm => hm.mapAnon hs he hse htop hfree prot) (.refl h) hres

/-- The system calls that change the mappings. -/
theorem hooked_brkShrink (h : c.reg.Coherent) {brk : Nat} : ∃ l, c.Hooked l (c.brkShrink env m brk) := by
  unfold Core.brkShrink
  dsimp only
  split
  swap
  · exact ⟨[], .refl c⟩
  split
  · exact ⟨[], (Core.Hooked.refl c).setMem _⟩
  · have hun : c.Passes env (c.doMunmap env m (pageAlign brk) (pageAlign (c.mem.mm m).brk - pageAlign brk)).1 := passes_doMunmap h
    obtain ⟨l, hl⟩ := hun.hooked
    split
    · exact ⟨l, hl.setMem _⟩
    · exact ⟨l, hl⟩

theorem hooked_mmapFixed (h : c.reg.Coherent) {prot : Nat} {object : Option Nat} {shared : Bool} :
    ∃ l, c.Hooked l (c.mmapFixed env m start len prot object shared) := by
  unfold Core.mmapFixed
  dsimp only
  split
  · exact ⟨[], .refl c⟩
  have hfirst : ∃ l, c.Hooked l (if (c.mem.mm m).unmapped start (start + pageAlign len) then (c, (0 : Int))
      else c.doMunmap env m start (pageAlign len)).1 := by
    split
    · exact ⟨[], .refl c⟩
    · exact (passes_doMunmap h).hooked
  generalize (if (c.mem.mm m).unmapped start (start + pageAlign len) then (c, (0 : Int))
    else c.doMunmap env m start (pageAlign len)) = r at hfirst ⊢
  obtain ⟨l, hl⟩ := hfirst
  split
  · exact ⟨l, hl.setMem _⟩
  · exact ⟨l, hl⟩

end

/-! ### The loop over the dirty pages -/

namespace ModuleMemory
open TaskMemory

/-- The entry of the record at the address is for the page. -/
def EntryAt (m : ModuleMemory) (id a page : Nat) : Prop := a ∈ (m.node id).pages ∧ ∃ sp, pageAt m.slab a = some sp ∧ sp.pageBase = page

section
variable {hash : Nat → Fin 256} {m m' : ModuleMemory} {t : TaskMemory} {c c' : Core} {id a page : Nat} {f : PageObject → PageObject}
  {g : SnapshotPage → SnapshotPage}

theorem EntryAt.onward (he : m.EntryAt id a page) (hid : id ∈ m.taskDataList) (hon : Onward hash m m') (hbases : SameBases m.slab m'.slab) :
    m'.EntryAt id a page := by
  obtain ⟨ha, sp, hsp, hbase⟩ := he
  obtain ⟨sp', hsp', hbase'⟩ := hbases a sp hsp
  exact ⟨hon.entries id hid a ha, sp', hsp', hbase'.trans hbase⟩

theorem EntryAt.found (he : m.EntryAt id a page) (h : m.Owned hash) (hid : id ∈ m.taskDataList) :
    (m.memory id).getSnapshotPage hash page = some a := (getSnapshotPage_eq_some (h.records id hid)).mpr he

theorem hook_bases (h : m.Owned hash) (call : HookCall) : SameBases m.slab (m.hook hash call).slab := by
  cases call with
  | doWpPage owner page original alloc =>
    rw [hook]
    cases hlive : m.live owner with
    | none => exact .refl _
    | some id => exact recordDirtyPage_bases (h.records id (live_eq_some hlive).1) h.sound page original alloc
  | pageAddNewAnonRmap owner page alloc =>
    rw [hook]
    cases hlive : m.live owner with
    | none => exact .refl _
    | some id =>
      dsimp only
      cases hadd : (m.memory id).pageAddNewAnonRmap hash page alloc with
      | none => exact .refl _
      | some t => exact pageAddNewAnonRmap_bases (t := m.memory id) h.sound hadd
  | doMunmap owner addrs original alloc =>
    rw [hook]
    cases hlive : m.live owner with
    | none => exact .refl _
    | some id => exact recordDirtyPages_bases (h.records id (live_eq_some hlive).1) h.sound original alloc addrs

theorem hooks_bases (h : m.Owned hash) (calls : List HookCall) : SameBases m.slab (m.hooks hash calls).slab := by
  induction calls generalizing m with
  | nil => exact .refl _
  | cons call calls ih => exact (hook_bases h call).trans (ih (hook_onward h call).owned)

theorem store_store (m : ModuleMemory) (id : Nat) (t t' : TaskMemory) : (m.store id t).store id t' = m.store id t' := by
  unfold store
  dsimp only
  rw [Function.update_idem]

/-- The entry at the address is that of the page, in a live snapshot. -/
structure Holds (hash : Nat → Fin 256) (m : ModuleMemory) (c : Core) (id a page : Nat) : Prop where
  represents : m.Represents hash c
  listed : id ∈ m.taskDataList
  made : (m.node id).made = true
  entry : m.EntryAt id a page

namespace Holds

theorem setMem (h : Holds hash m c id a page) (mem : Memory) : Holds hash m (c.setMem mem) id a page :=
  ⟨h.represents.setMem mem, h.listed, h.made, h.entry⟩

theorem hooks {calls : List HookCall} (h : Holds hash m c id a page) (hl : c.Hooked calls c') : Holds hash (m.hooks hash calls) c' id a page := by
  have hon := hooks_onward h.represents.owned calls
  exact ⟨hl hash m h.represents, hon.list ▸ h.listed, hon.made id h.listed h.made,
    h.entry.onward h.listed hon (hooks_bases h.represents.owned calls)⟩

/-- The record changes on both sides. -/
theorem store {F : TaskData → TaskData} (h : Holds hash m c id a page) (ht : Extends hash (m.memory id) t)
    (hd : t.Represents hash (F (c.reg.data id))) (hbases : SameBases m.slab t.slab) : Holds hash (m.store id t) (c.modifyData id F) id a page := by
  have hon := h.represents.owned.storeMade h.listed h.made ht
  exact ⟨h.represents.storeMade h.listed h.made ht hd, hon.list ▸ h.listed, hon.made id h.listed h.made, h.entry.onward h.listed hon hbases⟩

theorem modifyPage (h : Holds hash m c id a page) (hbase : ∀ sp, (f sp).pageBase = sp.pageBase) (hdata : ∀ sp, (f sp).pageData = sp.pageData)
    (hmark : ∀ sp, (f sp).inDirtyList = sp.inDirtyList) (hkey : ∀ sp, (g sp).pageBase = sp.pageBase)
    (hview : ∀ sp slab, (f sp).view slab = g (sp.view slab)) :
    Holds hash (m.store id ((m.memory id).modifyPage a f)) (c.modifyData id fun d => d.modifyPage page g) id a page := by
  have hok := h.represents.owned.records id h.listed
  exact h.store (extends_modifyPage hok h.represents.owned.sound h.entry.1 hbase hdata fun _ => hmark)
    (modifyPage_represents hok (h.represents.records id h.listed) (h.entry.found h.represents.owned h.listed) hbase hkey hview)
    (sameBases_modify hbase)

theorem dequeue (h : Holds hash m c id a page) : Holds hash (m.store id ((m.memory id).dequeue a)) (c.dequeue id page) id a page := by
  have hok := h.represents.owned.records id h.listed
  exact h.store (extends_dequeue hok h.represents.owned.sound h.entry.1)
    (dequeue_represents hok (h.represents.records id h.listed) (h.entry.found h.represents.owned h.listed)) (sameBases_modify fun _ => rfl)

end Holds
end
end ModuleMemory

section
variable {env : Env} {m page id : Nat} {c c' : Core}

variable (env m id page) in
/-- A round of the loop, for what the copy runs through and whether the page has a slot after it. -/
theorem recoverEntry_represents (h : c.reg.Coherent) : ∃ (l : List PageHook) (slot : Bool), ∀ hash μ a r,
    ModuleMemory.Holds hash μ c id a page → r.copy page = l → r.slot page = slot →
      ModuleMemory.Holds hash (ModuleMemory.recoverEntry hash r id μ a) (c.recoverEntry env m id page) id a page := by
  cases hget : (c.reg.data id).getSnapshotPage page with
  | none =>
    refine ⟨[], false, fun hash μ a r hμ _ _ => ?_⟩
    obtain ⟨-, po, hpo, -⟩ := hμ.entry
    have hlookup := (hμ.represents.records id hμ.listed).pages page
    rw [hget, TaskMemory.lookup_eq_some (hμ.entry.found hμ.represents.owned hμ.listed) hpo] at hlookup
    cases hlookup
  | some sp =>
    obtain ⟨l, hl⟩ := hooked_copyToUser env m page (sp.pageData.getD fun _ => 0) h
    refine ⟨l, ((c.copyToUser env m page (sp.pageData.getD fun _ => 0)).1.mem.mm m).slot page, fun hash μ a r hμ hcopy hslot => ?_⟩
    obtain ⟨ha, po, hpo, hbase⟩ := hμ.entry
    obtain rfl : sp = po.view μ.slab := by
      have hlookup := (hμ.represents.records id hμ.listed).pages page
      rw [hget, TaskMemory.lookup_eq_some (hμ.entry.found hμ.represents.owned hμ.listed) hpo] at hlookup
      exact Option.some.inj hlookup
    unfold Core.recoverEntry ModuleMemory.recoverEntry
    rw [hget, hpo]
    dsimp only
    by_cases hcopied : (po.dirty && po.hasBeenCopied) = true
    · have hcopied' : ((po.view μ.slab).dirty && (po.view μ.slab).hasBeenCopied) = true := hcopied
      have hbase' : (po.view μ.slab).pageBase = page := hbase
      rw [if_pos hcopied, if_pos hcopied', hbase, hcopy, hslot]
      unfold Core.recoverPage
      dsimp only
      rw [hbase']
      have hclean := (hμ.hooks hl).modifyPage (f := fun sp => { sp with dirty := false, hasHadPte := true })
        (g := fun sp => { sp with dirty := false, hasHadPte := true }) (fun _ => rfl) (fun _ => rfl) (fun _ => rfl) (fun _ => rfl) fun _ _ => rfl
      generalize (c.copyToUser env m page ((po.view μ.slab).pageData.getD fun _ => 0)).1 = c₁ at hclean ⊢
      show ModuleMemory.Holds hash _ (if (c₁.mem.mm m).slot page = true then _ else _) id a page
      by_cases hs : (c₁.mem.mm m).slot page = true
      · rw [if_pos hs, if_pos hs]
        have hleave := ((hclean.setMem (c₁.mem.setPte m page ((c₁.mem.mm m).pte page).wrprotect)).modifyPage (f := PageObject.setPrivate) (g := SnapshotPage.setPrivate) (fun _ => rfl) (fun _ => rfl)
          (fun _ => rfl) (fun _ => rfl) fun _ _ => rfl).dequeue
        rw [ModuleMemory.store_store, ModuleMemory.store_store, ModuleMemory.store_self, ModuleMemory.store_self] at hleave
        exact hleave
      · rw [if_neg hs, if_neg hs]
        exact hclean
    have hcopied' : ¬((po.view μ.slab).dirty && (po.view μ.slab).hasBeenCopied) = true := hcopied
    rw [if_neg hcopied, if_neg hcopied']
    by_cases hprivate : po.isPrivate = true
    · have hprivate' : (po.view μ.slab).isPrivate = true := hprivate
      rw [if_pos hprivate, if_pos hprivate']
      exact hμ.dequeue
    have hprivate' : ¬(po.view μ.slab).isPrivate = true := hprivate
    rw [if_neg hprivate, if_neg hprivate']
    by_cases hzap : (po.isNonePte && po.hasHadPte) = true
    · have hzap' : ((po.view μ.slab).isNonePte && (po.view μ.slab).hasHadPte) = true := hzap
      rw [if_pos hzap, if_pos hzap']
      have hleave := ((hμ.hooks ((Core.Hooked.refl c).zapPage m page)).modifyPage (f := fun sp => { sp.setNonePte with hasHadPte := false })
        (g := fun sp => { sp.setNonePte with hasHadPte := false }) (fun _ => rfl) (fun _ => rfl) (fun _ => rfl) (fun _ => rfl) fun _ _ => rfl).dequeue
      rw [ModuleMemory.store_store, ModuleMemory.store_self] at hleave
      exact hleave
    have hzap' : ¬((po.view μ.slab).isNonePte && (po.view μ.slab).hasHadPte) = true := hzap
    rw [if_neg hzap, if_neg hzap']
    exact hμ.dequeue

variable {hash : Nat → Fin 256} {μ : ModuleMemory}

theorem recoverEntry_bases (h : μ.Owned hash) (r : Restoring) (a : Nat) :
    TaskMemory.SameBases μ.slab (ModuleMemory.recoverEntry hash r id μ a).slab := by
  unfold ModuleMemory.recoverEntry
  cases pageAt μ.slab a with
  | none => exact .refl _
  | some sp =>
    dsimp only
    split
    · have hhooks := ModuleMemory.hooks_bases h ((r.copy sp.pageBase).map (PageHook.call sp.pageBase))
      generalize μ.hooks hash ((r.copy sp.pageBase).map (PageHook.call sp.pageBase)) = μ₁ at hhooks
      have hclean : TaskMemory.SameBases μ₁.slab ((μ₁.memory id).modifyPage a fun sp => { sp with dirty := false, hasHadPte := true }).slab :=
        TaskMemory.sameBases_modify fun _ => rfl
      split
      · have hprivate := hclean.trans (TaskMemory.sameBases_modify (a := a) (f := PageObject.setPrivate) fun _ => rfl)
        exact hhooks.trans (hprivate.trans (TaskMemory.sameBases_modify fun _ => rfl))
      · exact hhooks.trans hclean
    split
    · exact TaskMemory.sameBases_dequeue (t := μ.memory id)
    split
    · have hnone : TaskMemory.SameBases μ.slab ((μ.memory id).modifyPage a fun sp => { sp.setNonePte with hasHadPte := false }).slab :=
        TaskMemory.sameBases_modify fun _ => rfl
      exact hnone.trans TaskMemory.sameBases_dequeue
    · exact TaskMemory.sameBases_dequeue (t := μ.memory id)

variable (env m id) in
/-- The loop, for what the copies run through and which pages have a slot. -/
theorem recoverEntries_represents (h : c.reg.Coherent) {pages : List Nat} (honce : pages.Nodup) :
    ∃ (copy : Nat → List PageHook) (slot : Nat → Bool), ∀ hash μ as r, ModuleMemory.Represents hash μ c → id ∈ μ.taskDataList →
      (μ.node id).made = true → List.Forall₂ (μ.EntryAt id) as pages → (∀ p ∈ pages, r.copy p = copy p) → (∀ p ∈ pages, r.slot p = slot p) →
        (as.foldl (ModuleMemory.recoverEntry hash r id) μ).Represents hash (pages.foldl (Core.recoverEntry env m id) c) := by
  induction pages generalizing c with
  | nil =>
    refine ⟨fun _ => [], fun _ => false, fun hash μ as r hμ _ _ has _ _ => ?_⟩
    cases has
    exact hμ
  | cons page pages ih =>
    obtain ⟨hfresh, honce⟩ := List.nodup_cons.mp honce
    obtain ⟨l, s, hround⟩ := recoverEntry_represents env m page id h
    have hsteady : c.Steady env (c.recoverEntry env m id page) := steady_recoverEntry env m page id h
    obtain ⟨copy, slot, hrest⟩ := ih hsteady.coherent honce
    refine ⟨Function.update copy page l, Function.update slot page s, fun hash μ as r hμ hid hmade has hcopy hslot => ?_⟩
    obtain ⟨a, as, he, hrests, rfl⟩ := List.forall₂_cons_right_iff.mp has
    obtain ⟨hcopy, hcopies⟩ := List.forall_mem_cons.mp hcopy
    obtain ⟨hslot, hslots⟩ := List.forall_mem_cons.mp hslot
    rw [Function.update_self] at hcopy hslot
    have hother : ∀ q ∈ pages, q ≠ page := fun q hq heq => hfresh (heq ▸ hq)
    have hone := hround hash μ a r ⟨hμ, hid, hmade, he⟩ hcopy hslot
    have hon := ModuleMemory.recoverEntry_onward hμ.owned r hid hmade he.1
    refine hrest hash _ as r hone.represents hone.listed hone.made ?_ (fun q hq => ?_) (fun q hq => ?_)
    · exact hrests.imp fun b q hb => hb.onward hid hon (recoverEntry_bases hμ.owned r a)
    · rw [hcopies q hq, Function.update_of_ne (hother q hq)]
    · rw [hslots q hq, Function.update_of_ne (hother q hq)]

/-- The two dirty lists are of the same entries. -/
theorem ModuleMemory.Represents.queued (h : μ.Represents hash c) (hid : id ∈ μ.taskDataList) :
    List.Forall₂ (μ.EntryAt id) (μ.node id).dirtyPages (c.reg.data id).ss.dirtyPages := by
  have hok := h.owned.records id hid
  rw [(h.records id hid).dirtyPages]
  show List.Forall₂ _ (μ.node id).dirtyPages ((μ.node id).dirtyPages.filterMap fun a => (pageAt μ.slab a).map PageObject.pageBase)
  have hentries := fun a ha => (hok.dirty a ha).1
  have hgo : ∀ l : List Nat, (∀ a ∈ l, a ∈ (μ.node id).pages) →
      List.Forall₂ (μ.EntryAt id) l (l.filterMap fun a => (pageAt μ.slab a).map PageObject.pageBase) := by
    intro l hl
    induction l with
    | nil => exact .nil
    | cons a l ih =>
      obtain ⟨ha, hl⟩ := List.forall_mem_cons.mp hl
      obtain ⟨sp, hsp⟩ := hok.entry ha
      have hsp : pageAt μ.slab a = some sp := hsp
      rw [List.filterMap_cons, hsp]
      exact .cons ⟨ha, sp, hsp, rfl⟩ (ih hl)
  exact hgo _ hentries

/-- Two addresses of the list are not of one page. -/
theorem ModuleMemory.Represents.queuedOnce (h : μ.Represents hash c) (hid : id ∈ μ.taskDataList) : (c.reg.data id).ss.dirtyPages.Nodup := by
  have hok := h.owned.records id hid
  have hentries := fun a ha => (hok.dirty a ha).1
  rw [(h.records id hid).dirtyPages]
  refine List.pairwise_filterMap.mpr (hok.dirtyOnce.imp_of_mem fun ha ha' hne page hp page' hp' heq => hne ?_)
  obtain ⟨sp, hsp, rfl⟩ := Option.map_eq_some_iff.mp hp
  obtain ⟨sp', hsp', rfl⟩ := Option.map_eq_some_iff.mp hp'
  exact hok.keys _ (hentries _ ha) _ (hentries _ ha') sp sp' hsp hsp' heq

/-! ### Restore -/

theorem ModuleMemory.Represents.oopsed (h : μ.Represents hash c) (b : Bool) :
    ModuleMemory.Represents hash { μ with oops := b } { c with oops := true } :=
  { h with owned := h.owned.oopsed, oops := fun _ => rfl }

variable (env m) in
theorem hooked_sweptVmas (h : c.reg.Coherent) (hS : SnapshotVmasOk (c.reg.data id).ss.allVmas) :
    ∃ calls, c.Hooked calls (c.sweptVmas env m id).1 := by
  unfold Core.sweptVmas
  split
  · cases hres : restoreVmas (Core.vmOps env m) (c.reg.data id).ss.allVmas c with
    | none => exact ⟨[], fun _ μ hμ => hμ.oopsed μ.oops⟩
    | some r => exact (passes_restoreVmas h hS hres).hooked
  · exact ⟨[], .refl c⟩

variable (env m id) in
theorem recoverMemorySnapshot_represents (h : c.reg.Coherent) (hm : c.mem.Mapped) (hS : SnapshotVmasOk (c.reg.data id).ss.allVmas) :
    ∃ vmas copy res slot, ∀ hash μ r, ModuleMemory.Represents hash μ c → id ∈ μ.taskDataList →
      r.vmas = vmas → r.copy = copy → r.res = res → r.slot = slot →
        (μ.recoverMemorySnapshot hash r id).Represents hash (c.recoverMemorySnapshot env m id).1 := by
  obtain ⟨vmas, hvmas⟩ := hooked_sweptVmas env m h hS
  have hcoherent : (c.sweptVmas env m id).1.reg.Coherent := (steady_sweptVmas h hm hS).coherent
  have hplain : hasFlag (c.reg.data id).config aflSnapshotMmap = false → c.sweptVmas env m id = (c, 0) := fun hflag => by
    unfold Core.sweptVmas
    rw [if_neg (by simp [hflag])]
  rw [recoverMemorySnapshot_eq]
  generalize c.sweptVmas env m id = swept at hvmas hcoherent hplain
  obtain ⟨c₁, res⟩ := swept
  dsimp only at hvmas hcoherent hplain ⊢
  have hswept : ∀ hash μ, ModuleMemory.Represents hash μ c → id ∈ μ.taskDataList →
      ∃ μ₁, (if hasFlag (μ.node id).config aflSnapshotMmap then μ.hooks hash vmas else μ) = μ₁ ∧ μ₁.Represents hash c₁ ∧
        id ∈ μ₁.taskDataList ∧ ((hasFlag (μ.node id).config aflSnapshotMmap && res != 0) = true ↔ res ≠ 0) := fun hash μ hμ hid => by
    cases hflag : hasFlag (μ.node id).config aflSnapshotMmap with
    | true => exact ⟨_, rfl, hvmas hash μ hμ, (ModuleMemory.hooks_onward hμ.owned vmas).list ▸ hid, by simp⟩
    | false =>
      obtain ⟨rfl, rfl⟩ := Prod.mk.inj (hplain (by rwa [hμ.config hid]))
      exact ⟨μ, rfl, hμ, hid, by simp⟩
  obtain ⟨copy, slot, hloop⟩ : ∃ (copy : Nat → List PageHook) (slot : Nat → Bool), (c₁.reg.data id).ss.dirtyPages.Nodup → ∀ hash μ as r,
      ModuleMemory.Represents hash μ c₁ → id ∈ μ.taskDataList → (μ.node id).made = true →
      List.Forall₂ (μ.EntryAt id) as (c₁.reg.data id).ss.dirtyPages → r.copy = copy → r.slot = slot →
        (as.foldl (ModuleMemory.recoverEntry hash r id) μ).Represents hash (c₁.recoverPages env m id) := by
    by_cases honce : (c₁.reg.data id).ss.dirtyPages.Nodup
    · obtain ⟨copy, slot, hloop⟩ := recoverEntries_represents env m id hcoherent honce
      exact ⟨copy, slot, fun _ hash μ as r hμ hid hmade has hcopy hslot =>
        hloop hash μ as r hμ hid hmade has (fun _ _ => by rw [hcopy]) fun _ _ => by rw [hslot]⟩
    · exact ⟨fun _ => [], fun _ => false, fun h => absurd h honce⟩
  refine ⟨vmas, copy, res, slot, fun hash μ r hμ hid hvs hcopy hres hslot => ?_⟩
  obtain ⟨μ₁, heq, hrep, hid₁, hfails⟩ := hswept hash μ hμ hid
  unfold ModuleMemory.recoverMemorySnapshot
  dsimp only
  rw [hvs, hres, heq]
  by_cases hzero : res = 0
  · rw [if_pos hzero, if_neg fun hfail => hfails.mp hfail hzero]
    have hqueued := hrep.queued hid₁
    cases hdirty : (μ₁.node id).dirtyPages with
    | nil =>
      rw [hdirty] at hqueued
      unfold Core.recoverPages
      rw [List.forall₂_nil_left_iff.mp hqueued]
      exact hrep
    | cons a as =>
      have hmade := (hrep.owned.made_of_dirty hid₁ (hdirty ▸ List.mem_cons_self)).1
      rw [← hdirty]
      exact hloop (hrep.queuedOnce hid₁) hash μ₁ _ r hrep hid₁ hmade hqueued hcopy hslot
  · rw [if_neg hzero, if_pos (hfails.mpr hzero)]
    exact hrep

/-! ### The files -/

namespace ModuleMemory

/-- The records are as before, and the objects with `P`. -/
structure Spares (P : Nat → Prop) (μ μ' : ModuleMemory) : Prop where
  list : μ'.taskDataList = μ.taskDataList
  fresh : μ'.fresh = μ.fresh
  rcu : μ'.rcu = μ.rcu
  oops : μ'.oops = μ.oops
  node : μ'.node = μ.node
  obj : ∀ x, P x → μ'.slab.obj x = μ.slab.obj x

variable {μ' μ'' : ModuleMemory} {P Q : Nat → Prop}

theorem Spares.refl (P : Nat → Prop) (μ : ModuleMemory) : Spares P μ μ := ⟨rfl, rfl, rfl, rfl, rfl, fun _ _ => rfl⟩

theorem Spares.trans (h₁ : Spares P μ μ') (h₂ : Spares Q μ' μ'') (hPQ : ∀ x, P x → Q x) : Spares P μ μ'' where
  list := h₂.list.trans h₁.list
  fresh := h₂.fresh.trans h₁.fresh
  rcu := h₂.rcu.trans h₁.rcu
  oops := h₂.oops.trans h₁.oops
  node := h₂.node.trans h₁.node
  obj x hx := (h₂.obj x (hPQ x hx)).trans (h₁.obj x hx)

/-- An object that a listed record holds. -/
def HeldBy (μ : ModuleMemory) (x : Nat) : Prop := ∃ i ∈ μ.taskDataList, x ∈ (μ.memory i).objects

theorem Represents.spares (hμ : μ.Represents hash c) (howned : μ'.Owned hash) (h : Spares μ.HeldBy μ μ') : μ'.Represents hash c where
  owned := howned
  list := hμ.list.trans h.list.symm
  fresh := hμ.fresh.trans h.fresh.symm
  rcu := hμ.rcu.trans h.rcu.symm
  records i hi := by
    have hi : i ∈ μ.taskDataList := h.list ▸ hi
    have hmemory : μ'.memory i = ⟨μ'.slab, (μ.memory i).node⟩ := congrArg (TaskMemory.mk μ'.slab) (congrFun h.node i)
    rw [hmemory]
    exact (hμ.records i hi).congr (hμ.owned.records i hi) fun x hx => h.obj x ⟨i, hi, hx⟩
  oops ho := hμ.oops (h.oops ▸ ho)

/-- Only a table that has been given away is put. -/
theorem putTable_spares (μ : ModuleMemory) (a : Nat) : Spares (fun x => x = a → a ∉ μ.tables) μ (μ.putTable a) ∧
    (μ.putTable a).tables ⊆ μ.tables := by
  unfold putTable
  split
  swap
  · exact ⟨.refl _ μ, fun _ hb => hb⟩
  rename_i ha
  refine ⟨⟨rfl, rfl, rfl, rfl, rfl, fun x hx => TaskMemory.putFilesStruct_obj_of_ne fun heq => hx heq ha⟩, fun b hb => ?_⟩
  dsimp only at hb
  split at hb
  · exact hb
  · exact List.mem_of_mem_erase hb

theorem putTables_spares (μ : ModuleMemory) (a n : Nat) :
    Spares (fun x => x = a → a ∉ μ.tables) μ ((List.range n).foldl (fun μ _ => μ.putTable a) μ) := by
  induction List.range n generalizing μ with
  | nil => exact .refl _ μ
  | cons k l ih =>
    obtain ⟨hfirst, htables⟩ := putTable_spares μ a
    exact hfirst.trans (ih _) fun x hx heq hin => hx heq (htables hin)

theorem recoverFilesSnapshot_spares (h : μ.Owned hash) (hid : id ∈ μ.taskDataList) (r : Restoring) :
    Spares μ.HeldBy μ (μ.recoverFilesSnapshot r id) := by
  unfold recoverFilesSnapshot
  split
  swap
  · exact .refl _ μ
  split
  swap
  · exact .refl _ μ
  rename_i files offsets hfiles hoffsets
  obtain ⟨s, hs, -⟩ := (h.records id hid).files files hfiles
  obtain ⟨saved, hsaved⟩ := (h.records id hid).offsets offsets hoffsets
  have hs : tableAt μ.slab files = some s := hs
  have hsaved : offsetsAt μ.slab offsets = some saved := hsaved
  rw [hs, hsaved]
  dsimp only
  split
  swap
  · exact .refl _ μ
  generalize resizeFds r.env.fdtSize s.fds = fds
  have hheld : ∀ x, μ.HeldBy x → x ≠ μ.slab.fresh ∧ x ∉ μ.tables := fun x hx => by
    obtain ⟨i, hi, hx⟩ := hx
    exact ⟨(h.lt_fresh hi hx).ne, fun hin => h.given x hin i hi hx⟩
  split
  · have hnew : Spares μ.HeldBy μ { μ with
        slab := (μ.slab.alloc (.filesStruct ⟨1, fds⟩)).1.modify (μ.slab.alloc (.filesStruct ⟨1, fds⟩)).2 fun _ => .filesStruct ⟨r.threads + 1, fds⟩
        tables := (μ.slab.alloc (.filesStruct ⟨1, fds⟩)).2 :: μ.tables } := by
      refine ⟨rfl, rfl, rfl, rfl, rfl, fun x hx => ?_⟩
      exact (Slab.modify_obj_of_ne (hheld x hx).1).trans (Slab.alloc_obj_of_ne (hheld x hx).1)
    refine hnew.trans (putTables_spares _ r.files (r.threads + 1)) fun x hx heq hin => ?_
    rcases List.mem_cons.mp (heq ▸ hin) with hfresh | hold
    · exact (hheld x hx).1 hfresh
    · exact (hheld x hx).2 hold
  · refine ⟨rfl, rfl, rfl, rfl, rfl, fun x hx => ?_⟩
    exact (TaskMemory.putFilesStruct_obj_of_ne (hheld x hx).1).trans (Slab.alloc_obj_of_ne (hheld x hx).1)

end ModuleMemory

/-- Restoring a snapshot. -/
theorem restoreSnapshot_represents (env : Env) {w : World} (h : w.Kept) (t id : Nat) : ∃ r : Restoring, r.env = env ∧ r.fs = w.fs ∧
    ∀ hash μ, ModuleMemory.Represents hash μ w.core → id ∈ μ.taskDataList →
      (μ.restoreSnapshot hash r id).Represents hash (w.restoreSnapshot env t id).core := by
  rw [(restoreSnapshot_core env w t id).1]
  have hbrk : w.core.Passes env (w.core.restoreBrk env (w.task t).mm (w.core.reg.data id).ss.oldbrk).1 :=
    passes_restoreBrk h.coherent h.mapped (h.records id).oldbrk
  generalize (w.core.restoreBrk env (w.task t).mm (w.core.reg.data id).ss.oldbrk).1 = c at hbrk
  obtain ⟨brk, hhooks⟩ := hbrk.hooked
  have hS : SnapshotVmasOk (c.reg.data id).ss.allVmas := ((h.records id).congr (hbrk.steady.data id)).allVmas
  obtain ⟨vmas, copy, res, slot, hmemory⟩ :=
    recoverMemorySnapshot_represents env (w.task t).mm id hbrk.steady.coherent (hbrk.steady.mapped h.mapped) hS
  refine ⟨⟨env, brk, vmas, copy, res, slot, w.fs, 0, 0⟩, rfl, rfl, fun hash μ hμ hid => ?_⟩
  unfold ModuleMemory.restoreSnapshot
  dsimp only
  have hid₁ := (ModuleMemory.hooks_onward hμ.owned brk).list ▸ hid
  have hμ₂ := hmemory hash _ ⟨env, brk, vmas, copy, res, slot, w.fs, 0, 0⟩ (hhooks hash μ hμ) hid₁ rfl rfl rfl rfl
  have hon := ModuleMemory.recoverMemorySnapshot_onward (hhooks hash μ hμ).owned ⟨env, brk, vmas, copy, res, slot, w.fs, 0, 0⟩ hid₁
  exact hμ₂.spares (ModuleMemory.recoverFilesSnapshot_onward hμ₂.owned _).owned
    (ModuleMemory.recoverFilesSnapshot_spares hμ₂.owned (hon.list ▸ hid₁) _)

end
end AflSnapshot
