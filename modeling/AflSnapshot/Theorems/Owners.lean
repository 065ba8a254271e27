import AflSnapshot.Theorems.Freeing

/-! # The objects of all records

Every object that is there is held by one listed record, at one place, or is a table that a restore has given to a process.
The functions that free nothing of a record (`ModuleMemory.Onward`) and `clean_snapshot` keep it so, and so does every run. -/

namespace AflSnapshot
open Runs TaskMemory

namespace ModuleMemory

/-- Who holds the objects. -/
structure Owned (hash : Nat → Fin 256) (m : ModuleMemory) : Prop where
  sound : m.slab.Sound
  records : ∀ id ∈ m.taskDataList, (m.memory id).Ok hash
  below : ∀ id ∈ m.taskDataList, id < m.fresh
  once : m.taskDataList.Nodup
  tasks : ∀ id ∈ m.taskDataList, ∀ id' ∈ m.taskDataList, (m.node id).tsk = (m.node id').tsk → id = id'
  apart : ∀ id ∈ m.taskDataList, ∀ id' ∈ m.taskDataList, ∀ x ∈ (m.memory id).objects, x ∈ (m.memory id').objects → id = id'
  /-- Only a record with a live snapshot holds objects. -/
  blank : ∀ id ∈ m.taskDataList, (m.node id).made = false → (m.memory id).objects = []
  had : ∀ id ∈ m.taskDataList, (m.node id).made = true → (m.node id).had = true
  tables : ∀ a ∈ m.tables, ∃ s, tableAt m.slab a = some s
  tablesOnce : m.tables.Nodup
  given : ∀ a ∈ m.tables, ∀ id ∈ m.taskDataList, a ∉ (m.memory id).objects
  covered : ∀ x o, m.slab.obj x = some o → x ∈ m.tables ∨ ∃ id ∈ m.taskDataList, x ∈ (m.memory id).objects

/-- What a function keeps that frees nothing of a record. -/
structure Onward (hash : Nat → Fin 256) (m m' : ModuleMemory) : Prop where
  owned : m'.Owned hash
  list : m'.taskDataList = m.taskDataList
  made : ∀ id ∈ m.taskDataList, (m.node id).made = true → (m'.node id).made = true
  entries : ∀ id ∈ m.taskDataList, ∀ a ∈ (m.node id).pages, a ∈ (m'.node id).pages
  freed : m.slab.freed <+: m'.slab.freed

/-- What every function keeps. -/
structure Later (hash : Nat → Fin 256) (m m' : ModuleMemory) : Prop where
  owned : m'.Owned hash
  freed : m.slab.freed <+: m'.slab.freed

variable {hash : Nat → Fin 256} {m m' m'' : ModuleMemory} {t : TaskMemory} {tsk id id' a x : Nat}

namespace Onward

theorem refl (h : m.Owned hash) : Onward hash m m := ⟨h, rfl, fun _ _ h => h, fun _ _ _ h => h, List.prefix_rfl⟩

theorem trans (h₁ : Onward hash m m') (h₂ : Onward hash m' m'') : Onward hash m m'' where
  owned := h₂.owned
  list := h₂.list.trans h₁.list
  made id hid hmade := h₂.made id (h₁.list ▸ hid) (h₁.made id hid hmade)
  entries id hid a ha := h₂.entries id (h₁.list ▸ hid) a (h₁.entries id hid a ha)
  freed := h₁.freed.trans h₂.freed

theorem later (h : Onward hash m m') : Later hash m m' := ⟨h.owned, h.freed⟩

end Onward

theorem Later.trans (h₁ : Later hash m m') (h₂ : Later hash m' m'') : Later hash m m'' := ⟨h₂.owned, h₁.freed.trans h₂.freed⟩

theorem getTaskData_eq_some (h : m.getTaskData tsk = some id) : id ∈ m.taskDataList ∧ (m.node id).tsk = tsk := by
  unfold getTaskData at h
  have htsk := List.find?_some h
  exact ⟨List.mem_of_find?_eq_some h, by simpa using htsk⟩

theorem live_eq_some (h : m.live tsk = some id) : id ∈ m.taskDataList ∧ (m.node id).made = true := by
  unfold live at h
  obtain ⟨hget, hmade⟩ := Option.filter_eq_some_iff.mp h
  exact ⟨(getTaskData_eq_some hget).1, hmade⟩

section
variable (h : m.Owned hash)
include h

theorem Owned.lt_fresh (hid : id ∈ m.taskDataList) (hx : x ∈ (m.memory id).objects) : x < m.slab.fresh :=
  (h.records id hid).lt_fresh h.sound hx

theorem Owned.getTaskData (hid : id ∈ m.taskDataList) (htsk : (m.node id).tsk = tsk) : m.getTaskData tsk = some id := by
  cases hget : m.getTaskData tsk with
  | none => exact absurd htsk (by simpa using List.find?_eq_none.mp hget id hid)
  | some id' =>
    obtain ⟨hid', htsk'⟩ := getTaskData_eq_some hget
    rw [h.tasks id' hid' id hid (htsk'.trans htsk.symm)]

/-! ### One record changes -/

theorem store_other (hid : id ∈ m.taskDataList) (ht : Extends hash (m.memory id) t) (hid' : id' ∈ m.taskDataList) (hne : id' ≠ id) :
    ((m.store id t).memory id').Ok hash ∧
      ∀ x, x ∈ ((m.store id t).memory id').objects ↔ x ∈ (m.memory id').objects := by
  have hmemory : (m.store id t).memory id' = ⟨t.slab, (m.memory id').node⟩ :=
    congrArg (TaskMemory.mk t.slab) (Function.update_of_ne hne ..)
  rw [hmemory]
  refine (h.records id' hid').congr fun x hx => ht.outside x (h.lt_fresh hid' hx) fun hin => hne ?_
  exact h.apart id' hid' id hid x hx hin

omit h in
theorem store_self : (m.store id t).memory id = t := congrArg (TaskMemory.mk t.slab) (Function.update_self ..)

/-- A function on one listed record. -/
theorem Owned.store (hid : id ∈ m.taskDataList) (ht : Extends hash (m.memory id) t) (hblank : t.node.made = false → t.objects = [])
    (hhad : t.node.made = true → t.node.had = true) : Onward hash m (m.store id t) := by
  have hother := @store_other hash m t id
  have hnode : ∀ id', id' ≠ id → (m.store id t).node id' = m.node id' := fun id' hne => Function.update_of_ne hne ..
  have hself : (m.store id t).node id = t.node := Function.update_self ..
  have htsk : ∀ id', ((m.store id t).node id').tsk = (m.node id').tsk := fun id' => by
    by_cases hne : id' = id
    · rw [hne, hself, ht.tsk]
      rfl
    · rw [hnode id' hne]
  have hheld : ∀ id' ∈ m.taskDataList, ∀ x ∈ ((m.store id t).memory id').objects,
      x ∈ (m.memory id').objects ∨ m.slab.fresh ≤ x ∧ id' = id := fun id' hid' x hx => by
    by_cases hne : id' = id
    · subst hne
      rw [store_self] at hx
      exact ((ht.objects x).mp hx).imp_right fun hnew => ⟨hnew.1, rfl⟩
    · exact Or.inl (((hother h hid ht hid' hne).2 x).mp hx)
  have hkept : ∀ id' ∈ m.taskDataList, ∀ x ∈ (m.memory id').objects, x ∈ ((m.store id t).memory id').objects := fun id' hid' x hx => by
    by_cases hne : id' = id
    · subst hne
      rw [store_self]
      exact (ht.objects x).mpr (Or.inl hx)
    · exact ((hother h hid ht hid' hne).2 x).mpr hx
  have htable : ∀ a ∈ m.tables, t.slab.obj a = m.slab.obj a ∧ a < m.slab.fresh := fun a ha => by
    obtain ⟨s, hs⟩ := h.tables a ha
    have hlt := h.sound.below a _ (tableAt_eq_some.mp hs)
    exact ⟨ht.outside a hlt (h.given a ha id hid), hlt⟩
  refine ⟨?_, rfl, fun id' hid' hmade => ?_, fun id' hid' a ha => ?_, ht.freed.imp fun _ hl => hl.1.symm⟩
  · exact {
      sound := ht.sound
      records := fun id' hid' => by
        by_cases hne : id' = id
        · rw [hne, store_self]
          exact ht.ok
        · exact (hother h hid ht hid' hne).1
      below := h.below
      once := h.once
      tasks := fun id₁ h₁ id₂ h₂ heq => h.tasks id₁ h₁ id₂ h₂ (by rwa [htsk, htsk] at heq)
      apart := fun id₁ h₁ id₂ h₂ x hx₁ hx₂ => by
        rcases hheld id₁ h₁ x hx₁ with hold₁ | ⟨hnew₁, rfl⟩ <;> rcases hheld id₂ h₂ x hx₂ with hold₂ | ⟨hnew₂, rfl⟩
        · exact h.apart id₁ h₁ id₂ h₂ x hold₁ hold₂
        · exact absurd (h.lt_fresh h₁ hold₁) (not_lt.mpr hnew₂)
        · exact absurd (h.lt_fresh h₂ hold₂) (not_lt.mpr hnew₁)
        · rfl
      blank := fun id' hid' hmade => by
        by_cases hne : id' = id
        · subst hne
          rw [store_self]
          rw [hself] at hmade
          exact hblank hmade
        · rw [hnode id' hne] at hmade
          refine List.eq_nil_iff_forall_not_mem.mpr fun x hx => ?_
          have hx := ((hother h hid ht hid' hne).2 x).mp hx
          rw [h.blank id' hid' hmade] at hx
          cases hx
      had := fun id' hid' hmade => by
        by_cases hne : id' = id
        · rw [hne, hself] at hmade ⊢
          exact hhad hmade
        · rw [hnode id' hne] at hmade ⊢
          exact h.had id' hid' hmade
      tables := fun a ha => by
        obtain ⟨s, hs⟩ := h.tables a ha
        refine ⟨s, ?_⟩
        rw [tableAt_eq_some] at hs ⊢
        exact (htable a ha).1.trans hs
      tablesOnce := h.tablesOnce
      given := fun a ha id' hid' hin => by
        rcases hheld id' hid' a hin with hold | ⟨hnew, -⟩
        · exact h.given a ha id' hid' hold
        · exact absurd (htable a ha).2 (not_lt.mpr hnew)
      covered := fun x o ho => by
        have ho : t.slab.obj x = some o := ho
        have hmine : x ∈ t.objects → ∃ id' ∈ m.taskDataList, x ∈ ((m.store id t).memory id').objects := fun hx =>
          ⟨id, hid, by rwa [store_self]⟩
        by_cases hnew : m.slab.fresh ≤ x
        · exact Or.inr (hmine ((ht.objects x).mpr (Or.inr ⟨hnew, o, ho⟩)))
        by_cases hin : x ∈ (m.memory id).objects
        · exact Or.inr (hmine ((ht.objects x).mpr (Or.inl hin)))
        · rw [ht.outside x (not_le.mp hnew) hin] at ho
          refine (h.covered x o ho).imp_right fun hheld => ?_
          obtain ⟨id', hid', hx⟩ := hheld
          exact ⟨id', hid', hkept id' hid' x hx⟩ }
  · by_cases hne : id' = id
    · subst hne
      rw [hself]
      exact ht.made hmade
    · rwa [hnode id' hne]
  · by_cases hne : id' = id
    · subst hne
      rw [hself]
      exact ht.pages a ha
    · rwa [hnode id' hne]

/-- A function on a record with a live snapshot. -/
theorem Owned.storeMade (hid : id ∈ m.taskDataList) (hmade : (m.node id).made = true) (ht : Extends hash (m.memory id) t) :
    Onward hash m (m.store id t) := by
  have hmade' : t.node.made = true := ht.made hmade
  refine h.store hid ht (fun hno => ?_) fun _ => ht.had (h.had id hid hmade)
  rw [hno] at hmade'
  cases hmade'

/-! ### The hooks -/

theorem hook_onward (call : HookCall) : Onward hash m (m.hook hash call) := by
  cases call with
  | doWpPage owner page original alloc =>
    rw [hook]
    cases hlive : m.live owner with
    | none => exact .refl h
    | some id =>
      obtain ⟨hid, hmade⟩ := live_eq_some hlive
      exact h.storeMade hid hmade (recordDirtyPage_extends (h.records id hid) h.sound page original alloc)
  | pageAddNewAnonRmap owner page alloc =>
    rw [hook]
    cases hlive : m.live owner with
    | none => exact .refl h
    | some id =>
      obtain ⟨hid, hmade⟩ := live_eq_some hlive
      dsimp only
      cases hadd : (m.memory id).pageAddNewAnonRmap hash page alloc with
      | none =>
        have hm := Onward.refl h
        exact ⟨{ h with }, rfl, hm.made, hm.entries, hm.freed⟩
      | some t => exact h.storeMade hid hmade (pageAddNewAnonRmap_extends (h.records id hid) h.sound hadd)
  | doMunmap owner addrs original alloc =>
    rw [hook]
    cases hlive : m.live owner with
    | none => exact .refl h
    | some id =>
      obtain ⟨hid, hmade⟩ := live_eq_some hlive
      exact h.storeMade hid hmade (recordDirtyPages_extends (h.records id hid) h.sound original alloc addrs)

theorem hooks_onward (calls : List HookCall) : Onward hash m (m.hooks hash calls) := by
  induction calls generalizing m with
  | nil => exact .refl h
  | cons call calls ih =>
    have hfirst := hook_onward h call
    exact hfirst.trans (ih hfirst.owned)

/-! ### Making a record -/

omit h in
theorem new_ok (slab : Slab Object) : Ok hash ⟨slab, .new tsk⟩ where
  vmas := by simp [TaskNode.new]
  vmasOnce := List.nodup_nil
  snapshotted := List.Sublist.refl []
  entries := by simp [TaskNode.new]
  entriesOnce _ := List.nodup_nil
  keys := by simp [TaskNode.mem_pages, TaskNode.new]
  buffers := by simp [TaskNode.mem_pages, TaskNode.new]
  buffersOnce := by simp [TaskNode.mem_pages, TaskNode.new]
  dirty := by simp [TaskNode.new]
  dirtyOnce := List.nodup_nil
  files := by simp [TaskNode.new]
  offsets := by simp [TaskNode.new]

omit h in
theorem new_objects (slab : Slab Object) : objects ⟨slab, .new tsk⟩ = [] := by
  simp [objects, TaskNode.pages, TaskNode.new]

/-- Something goes wrong in the kernel that changes nothing here. -/
theorem Owned.oopsed {b : Bool} : Owned hash { m with oops := b } := { h with }

/-- A record for a task that has none. -/
theorem Owned.new (hlist : m'.taskDataList = m.fresh :: m.taskDataList) (hslab : m'.slab = m.slab) (hfresh : m'.fresh = m.fresh + 1)
    (htables : m'.tables = m.tables) (hnode : ∀ id ∈ m.taskDataList, m'.node id = m.node id) (hnew : m'.node m.fresh = .new tsk)
    (hno : ∀ id ∈ m.taskDataList, (m.node id).tsk ≠ tsk) : m'.Owned hash := by
  have hmemory : ∀ id ∈ m.taskDataList, m'.memory id = m.memory id := fun id hid => by
    unfold memory
    rw [hslab, hnode id hid]
  have hmemory' : m'.memory m.fresh = ⟨m.slab, .new tsk⟩ := by
    unfold memory
    rw [hslab, hnew]
  have hempty : (m'.memory m.fresh).objects = [] := by
    rw [hmemory', new_objects]
  have htsk : (m'.node m.fresh).tsk = tsk := by
    rw [hnew]
    rfl
  exact {
    sound := hslab ▸ h.sound
    records := by
      rw [hlist, List.forall_mem_cons]
      refine ⟨hmemory' ▸ new_ok m.slab, fun id hid => ?_⟩
      rw [hmemory id hid]
      exact h.records id hid
    below := by
      rw [hlist, hfresh, List.forall_mem_cons]
      exact ⟨Nat.lt_succ_self _, fun id hid => Nat.lt_succ_of_lt (h.below id hid)⟩
    once := hlist ▸ List.nodup_cons.mpr ⟨fun hin => lt_irrefl _ (h.below _ hin), h.once⟩
    tasks := by
      rw [hlist]
      intro id hid id' hid' heq
      rcases List.mem_cons.mp hid with rfl | hid <;> rcases List.mem_cons.mp hid' with rfl | hid'
      · rfl
      · rw [htsk, hnode id' hid'] at heq
        exact absurd heq.symm (hno id' hid')
      · rw [htsk, hnode id hid] at heq
        exact absurd heq (hno id hid)
      · rw [hnode id hid, hnode id' hid'] at heq
        exact h.tasks id hid id' hid' heq
    apart := by
      rw [hlist]
      intro id hid id' hid' x hx hx'
      rcases List.mem_cons.mp hid with rfl | hid
      · rw [hempty] at hx
        cases hx
      rcases List.mem_cons.mp hid' with rfl | hid'
      · rw [hempty] at hx'
        cases hx'
      rw [hmemory id hid] at hx
      rw [hmemory id' hid'] at hx'
      exact h.apart id hid id' hid' x hx hx'
    blank := by
      rw [hlist, List.forall_mem_cons]
      refine ⟨fun _ => hempty, fun id hid hmade => ?_⟩
      rw [hnode id hid] at hmade
      rw [hmemory id hid, h.blank id hid hmade]
    had := by
      rw [hlist, List.forall_mem_cons]
      refine ⟨fun hmade => ?_, fun id hid hmade => ?_⟩
      · rw [hnew] at hmade
        cases hmade
      · rw [hnode id hid] at hmade ⊢
        exact h.had id hid hmade
    tables := by
      rw [htables, hslab]
      exact h.tables
    tablesOnce := htables ▸ h.tablesOnce
    given := by
      rw [htables, hlist]
      intro a ha
      rw [List.forall_mem_cons]
      refine ⟨by simp [hempty], fun id hid => ?_⟩
      rw [hmemory id hid]
      exact h.given a ha id hid
    covered := by
      rw [htables, hslab, hlist]
      intro x o ho
      refine (h.covered x o ho).imp_right fun hheld => ?_
      obtain ⟨id, hid, hx⟩ := hheld
      exact ⟨id, List.mem_cons_of_mem _ hid, by rwa [hmemory id hid]⟩ }

theorem Owned.ensureTaskData {alloc : Bool} {r : Option Nat} (hr : m.ensureTaskData tsk alloc = (m', r)) :
    Later hash m m' ∧ ∀ id, r = some id → id ∈ m'.taskDataList := by
  unfold ModuleMemory.ensureTaskData at hr
  cases hget : m.getTaskData tsk with
  | some id =>
    rw [hget] at hr
    obtain ⟨rfl, rfl⟩ := Prod.mk.inj hr
    refine ⟨⟨h, List.prefix_rfl⟩, fun id' hid' => ?_⟩
    rw [← Option.some.inj hid']
    exact (getTaskData_eq_some hget).1
  | none =>
    rw [hget] at hr
    cases alloc with
    | false =>
      obtain ⟨rfl, rfl⟩ := Prod.mk.inj hr
      exact ⟨⟨h, List.prefix_rfl⟩, fun id' hid' => by cases hid'⟩
    | true =>
      obtain ⟨rfl, rfl⟩ := Prod.mk.inj hr
      have hno : ∀ id ∈ m.taskDataList, (m.node id).tsk ≠ tsk := fun id hid => by
        simpa using List.find?_eq_none.mp hget id hid
      have hnode : ∀ id ∈ m.taskDataList, Function.update m.node m.fresh (.new tsk) id = m.node id := fun id hid =>
        Function.update_of_ne (h.below id hid).ne ..
      exact ⟨⟨h.new rfl rfl rfl rfl hnode (Function.update_self ..) hno, List.prefix_rfl⟩,
        fun id' hid' => Option.some.inj hid' ▸ List.mem_cons_self⟩

theorem addVmrange_later {env : Env} {f : RangeLists → RangeLists} : Later hash m (m.addVmrange tsk env f) := by
  unfold addVmrange
  cases hr : m.ensureTaskData tsk env.kzallocTaskData with
  | mk m₁ r =>
    obtain ⟨hlater, hlisted⟩ := h.ensureTaskData hr
    have h₁ := hlater.owned
    cases r with
    | none =>
      dsimp only
      split
      · exact ⟨h₁.oopsed, hlater.freed⟩
      · exact hlater
    | some id =>
      dsimp only
      split
      swap
      · exact hlater
      have hid := hlisted id rfl
      have hext : Extends hash (m₁.memory id) ⟨m₁.slab, { m₁.node id with ranges := f (m₁.node id).ranges }⟩ :=
        .of_same { h₁.records id hid with } h₁.sound rfl rfl (fun _ _ => rfl) (fun _ => Iff.rfl) (fun hmade => hmade)
          (fun hhad => hhad) rfl fun _ hx => hx
      exact hlater.trans (h₁.store hid hext (h₁.blank id hid) (h₁.had id hid)).later

/-- The steps of a take, for a record that holds nothing yet. -/
theorem Owned.takes (hid : id ∈ m.taskDataList) (hmade : (m.node id).made = false) (env : Env) (fs : Files) (files : Nat)
    {config : Nat} {mm : Mm} {regs : PtRegs} (ht : (m.memory id).initializeSnapshot config regs mm.brk = t) :
    Extends hash (m.memory id) t ∧ t.node.dirtyPages = [] ∧ Taking hash t (t.takeMemorySnapshot hash env.take mm) ∧
      Extends hash (t.takeMemorySnapshot hash env.take mm) ((t.takeMemorySnapshot hash env.take mm).takeFilesSnapshot env fs files).1 := by
  have hok := h.records id hid
  have hno : ∀ x, x ∉ (m.memory id).objects := fun x hx => by
    rw [h.blank id hid hmade] at hx
    cases hx
  have hfiles : (m.node id).files = none := Option.eq_none_iff_forall_ne_some.mpr fun a ha =>
    hno a (mem_objects.mpr (Or.inr (Or.inr (Or.inl ha))))
  have hoffsets : (m.node id).offsets = none := Option.eq_none_iff_forall_ne_some.mpr fun a ha =>
    hno a (mem_objects.mpr (Or.inr (Or.inr (Or.inr ha))))
  have hqueue : (m.node id).dirtyPages = [] := List.eq_nil_iff_forall_not_mem.mpr fun a ha =>
    hno a (mem_objects.mpr (Or.inr (Or.inl ⟨a, (hok.dirty a ha).1, Or.inr rfl⟩)))
  have hinit := initializeSnapshot_extends hok h.sound config regs mm.brk
  rw [ht] at hinit
  have hmemory := @takeVmas_taking hash t env.take mm.mmap ⟨t, mm, ⟨0, 0⟩⟩
    ⟨.refl hinit.ok hinit.sound, ht ▸ hqueue, ht ▸ hfiles, ht ▸ hoffsets⟩
  exact ⟨hinit, ht ▸ hqueue, hmemory,
    takeFilesSnapshot_extends hmemory.keeps.ok hmemory.keeps.sound env fs files hmemory.files hmemory.offsets⟩

theorem takeSnapshot_later {config : Nat} {env : Env} {mm : Mm} {regs : PtRegs} {fs : Files} {files : Nat} :
    Later hash m (m.takeSnapshot hash tsk config env mm regs fs files) := by
  unfold takeSnapshot
  cases hr : m.ensureTaskData tsk env.kzallocTaskData with
  | mk m₁ r =>
    obtain ⟨hlater, hlisted⟩ := h.ensureTaskData hr
    have h₁ := hlater.owned
    cases r with
    | none => exact ⟨h₁.oopsed, hlater.freed⟩
    | some id =>
      dsimp only
      split
      · exact hlater
      rename_i hmade
      have hid := hlisted id rfl
      obtain ⟨t, ht⟩ : ∃ t, (m₁.memory id).initializeSnapshot config regs mm.brk = t := ⟨_, rfl⟩
      obtain ⟨hinit, -, hmemory, htake⟩ := h₁.takes hid (by simpa using hmade) env fs files ht
      have hext := (hinit.trans hmemory.keeps).trans htake
      have hmade' : t.node.made = true := ht ▸ rfl
      have hhad' : t.node.had = true := ht ▸ rfl
      rw [ht]
      refine hlater.trans (h₁.store hid hext (fun hunmade => ?_) fun _ => htake.had (hmemory.keeps.had hhad')).later
      rw [htake.made (hmemory.keeps.made hmade')] at hunmade
      cases hunmade

/-! ### Tables that processes have -/

/-- The memory changes where no record has objects. -/
theorem Owned.elsewhere {slab : Slab Object} {tables : List Nat} (hsound : slab.Sound) (hfreed : m.slab.freed <+: slab.freed)
    (hobj : ∀ id ∈ m.taskDataList, ∀ x ∈ (m.memory id).objects, slab.obj x = m.slab.obj x)
    (htables : ∀ a ∈ tables, (a ∈ m.tables ∧ slab.obj a = m.slab.obj a) ∨ ∃ s, slab.obj a = some (.filesStruct s)) (honce : tables.Nodup)
    (hgiven : ∀ a ∈ tables, ∀ id ∈ m.taskDataList, a ∉ (m.memory id).objects)
    (hcovered : ∀ x o, slab.obj x = some o → x ∈ tables ∨ ∃ id ∈ m.taskDataList, x ∈ (m.memory id).objects) :
    Onward hash m { m with slab, tables } := by
  have hsame : ∀ id ∈ m.taskDataList, Ok hash ⟨slab, m.node id⟩ ∧ ∀ x, x ∈ objects ⟨slab, m.node id⟩ ↔ x ∈ (m.memory id).objects :=
    fun id hid => (h.records id hid).congr (hobj id hid)
  refine ⟨?_, rfl, fun _ _ hmade => hmade, fun _ _ _ ha => ha, hfreed⟩
  exact {
    sound := hsound
    records := fun id hid => (hsame id hid).1
    below := h.below
    once := h.once
    tasks := h.tasks
    apart := fun id hid id' hid' x hx hx' =>
      h.apart id hid id' hid' x (((hsame id hid).2 x).mp hx) (((hsame id' hid').2 x).mp hx')
    blank := fun id hid hmade => by
      refine List.eq_nil_iff_forall_not_mem.mpr fun x hx => ?_
      have hx := ((hsame id hid).2 x).mp hx
      rw [h.blank id hid hmade] at hx
      cases hx
    had := h.had
    tables := fun a ha => by
      rcases htables a ha with ⟨hold, hobj⟩ | ⟨s, hs⟩
      · obtain ⟨s, hs⟩ := h.tables a hold
        exact ⟨s, by rwa [tableAt_eq_some, hobj, ← tableAt_eq_some]⟩
      · exact ⟨s, tableAt_eq_some.mpr hs⟩
    tablesOnce := honce
    given := fun a ha id hid hin => hgiven a ha id hid (((hsame id hid).2 a).mp hin)
    covered := fun x o ho => by
      refine (hcovered x o ho).imp_right fun hheld => ?_
      obtain ⟨id, hid, hx⟩ := hheld
      exact ⟨id, hid, ((hsame id hid).2 x).mpr hx⟩ }

theorem putTable_onward : Onward hash m (m.putTable a) := by
  unfold putTable
  split
  swap
  · exact .refl h
  rename_i ha
  obtain ⟨s, hs⟩ := h.tables a ha
  have hobj := tableAt_eq_some.mp hs
  have hne : ∀ id ∈ m.taskDataList, ∀ x ∈ (m.memory id).objects, x ≠ a := fun id hid x hx heq => h.given a ha id hid (heq ▸ hx)
  unfold putFilesStruct
  rw [hs]
  dsimp only
  by_cases hlast : s.count ≤ 1
  · have hgone : (m.slab.free a).obj a = none := by rw [Slab.free_obj, if_pos rfl]
    have hrest : ∀ x, x ≠ a → (m.slab.free a).obj x = m.slab.obj x := fun x hx => by rw [Slab.free_obj, if_neg hx]
    rw [if_pos hlast, hgone]
    show Onward hash m { m with slab := m.slab.free a, tables := m.tables.erase a }
    refine h.elsewhere (h.sound.free hobj) (List.prefix_append _ _)
      (fun id hid x hx => hrest x (hne id hid x hx)) (fun b hb => ?_) (h.tablesOnce.erase a) (fun b hb => ?_) fun x o ho => ?_
    · obtain ⟨hba, hb⟩ := h.tablesOnce.mem_erase_iff.mp hb
      exact Or.inl ⟨hb, hrest b hba⟩
    · exact h.given b (List.mem_of_mem_erase hb)
    · by_cases hxa : x = a
      · rw [hxa, hgone] at ho
        cases ho
      · rw [hrest x hxa] at ho
        exact (h.covered x o ho).imp_left fun hx => h.tablesOnce.mem_erase_iff.mpr ⟨hxa, hx⟩
  · rw [if_neg hlast]
    have hrest : ∀ x, x ≠ a → (m.slab.modify a fun _ => .filesStruct { s with count := s.count - 1 }).obj x = m.slab.obj x := fun x hx =>
      Slab.modify_obj_of_ne hx
    have hself : (m.slab.modify a fun _ => .filesStruct { s with count := s.count - 1 }).obj a =
        some (.filesStruct { s with count := s.count - 1 }) := by
      rw [Slab.modify_obj_self, hobj]
      rfl
    rw [hself]
    refine h.elsewhere h.sound.modify List.prefix_rfl (fun id hid x hx => hrest x (hne id hid x hx)) (fun b hb => ?_) h.tablesOnce h.given
      fun x o ho => ?_
    · by_cases hba : b = a
      · rw [hba]
        exact Or.inr ⟨_, hself⟩
      · exact Or.inl ⟨hb, hrest b hba⟩
    · by_cases hxa : x = a
      · exact Or.inl (hxa ▸ ha)
      · rw [hrest x hxa] at ho
        exact h.covered x o ho

theorem putTables_onward (n : Nat) : Onward hash m ((List.range n).foldl (fun m _ => m.putTable a) m) := by
  induction List.range n generalizing m with
  | nil => exact .refl h
  | cons k l ih =>
    have hfirst := putTable_onward (a := a) h
    exact hfirst.trans (ih hfirst.owned)

theorem recoverFilesSnapshot_onward (r : Restoring) : Onward hash m (m.recoverFilesSnapshot r id) := by
  unfold recoverFilesSnapshot
  split
  swap
  · exact .refl h
  split
  swap
  · exact .refl h
  split
  swap
  · have hm := Onward.refl h
    exact ⟨h.oopsed, rfl, hm.made, hm.entries, hm.freed⟩
  split
  swap
  · exact .refl h
  dsimp only
  rename_i s saved _ _ _
  generalize resizeFds r.env.fdtSize s.fds = fds
  have hnew : (m.slab.alloc (.filesStruct ⟨1, fds⟩)).1.obj m.slab.fresh = some (.filesStruct ⟨1, fds⟩) := Slab.alloc_obj_self
  have hheld : ∀ id ∈ m.taskDataList, ∀ x ∈ (m.memory id).objects, x ≠ m.slab.fresh := fun id hid x hx =>
    (h.lt_fresh hid hx).ne
  have htable : ∀ a ∈ m.tables, a ≠ m.slab.fresh := fun a ha => by
    obtain ⟨s, hs⟩ := h.tables a ha
    exact (h.sound.below a _ (tableAt_eq_some.mp hs)).ne
  split
  · -- The threads of the caller get the duplicate.
    obtain ⟨slab, hslab⟩ : ∃ slab, slab = (m.slab.alloc (.filesStruct ⟨1, fds⟩)).1.modify m.slab.fresh
      fun _ => .filesStruct ⟨r.threads + 1, fds⟩ := ⟨_, rfl⟩
    have hrest : ∀ x, x ≠ m.slab.fresh → slab.obj x = m.slab.obj x := fun x hx => by
      rw [hslab, Slab.modify_obj_of_ne hx, Slab.alloc_obj_of_ne hx]
    have hself : slab.obj m.slab.fresh = some (.filesStruct ⟨r.threads + 1, fds⟩) := by
      rw [hslab, Slab.modify_obj_self, hnew]
      rfl
    have hsound : slab.Sound := hslab ▸ h.sound.alloc.modify
    have hgiven : Onward hash m { m with slab, tables := m.slab.fresh :: m.tables } := by
      refine h.elsewhere hsound (by rw [hslab]; exact List.prefix_rfl) (fun id hid x hx => hrest x (hheld id hid x hx)) (fun a ha => ?_)
        (List.nodup_cons.mpr ⟨fun hin => htable _ hin rfl, h.tablesOnce⟩) (fun a ha id hid hin => ?_) fun x o ho => ?_
      · rcases List.mem_cons.mp ha with rfl | ha
        · exact Or.inr ⟨_, hself⟩
        · exact Or.inl ⟨ha, hrest a (htable a ha)⟩
      · rcases List.mem_cons.mp ha with rfl | ha
        · exact hheld id hid _ hin rfl
        · exact h.given a ha id hid hin
      · by_cases hx : x = m.slab.fresh
        · exact Or.inl (hx ▸ List.mem_cons_self)
        · rw [hrest x hx] at ho
          exact (h.covered x o ho).imp_left (List.mem_cons_of_mem _)
    subst hslab
    exact hgiven.trans (putTables_onward hgiven.owned _)
  · -- A file cannot be sought back.
    rw [Slab.alloc_addr, putFilesStruct_last hnew]
    have hrest : ∀ x, x ≠ m.slab.fresh → ((m.slab.alloc (.filesStruct ⟨1, fds⟩)).1.free m.slab.fresh).obj x = m.slab.obj x := fun x hx => by
      rw [Slab.free_obj, if_neg hx, Slab.alloc_obj_of_ne hx]
    refine h.elsewhere (h.sound.alloc.free hnew) (List.prefix_append _ _) (fun id hid x hx => hrest x (hheld id hid x hx))
      (fun a ha => Or.inl ⟨ha, hrest a (htable a ha)⟩) h.tablesOnce h.given fun x o ho => ?_
    by_cases hx : x = m.slab.fresh
    · rw [hx, Slab.free_obj, if_pos rfl] at ho
      cases ho
    · rw [hrest x hx] at ho
      exact h.covered x o ho

/-! ### Restore -/

/-- Two changes of an entry, and then it leaves the dirty list. -/
theorem recoverEntry_onward (r : Restoring) (hid : id ∈ m.taskDataList) (hmade : (m.node id).made = true) (ha : a ∈ (m.node id).pages) :
    Onward hash m (ModuleMemory.recoverEntry hash r id m a) := by
  have hok := h.records id hid
  unfold recoverEntry
  cases hsp : pageAt m.slab a with
  | none =>
    have hm := Onward.refl h
    exact ⟨h.oopsed, rfl, hm.made, hm.entries, hm.freed⟩
  | some sp =>
    dsimp only
    split
    · have hhooks := hooks_onward h ((r.copy sp.pageBase).map (PageHook.call sp.pageBase))
      generalize m.hooks hash ((r.copy sp.pageBase).map (PageHook.call sp.pageBase)) = m₁ at hhooks
      have hid₁ : id ∈ m₁.taskDataList := hhooks.list ▸ hid
      have hmade₁ := hhooks.made id hid hmade
      have ha₁ : a ∈ (m₁.memory id).node.pages := hhooks.entries id hid a ha
      have hclean := extends_modifyPage (f := fun sp => { sp with dirty := false, hasHadPte := true }) (hhooks.owned.records id hid₁)
        hhooks.owned.sound ha₁ (fun _ => rfl) (fun _ => rfl) fun _ _ => rfl
      split
      · have hprivate := extends_modifyPage (f := PageObject.setPrivate) hclean.ok hclean.sound (hclean.pages a ha₁) (fun _ => rfl)
          (fun _ => rfl) fun _ _ => rfl
        have hleave := extends_dequeue hprivate.ok hprivate.sound (hprivate.pages a (hclean.pages a ha₁))
        exact hhooks.trans (hhooks.owned.storeMade hid₁ hmade₁ ((hclean.trans hprivate).trans hleave))
      · exact hhooks.trans (hhooks.owned.storeMade hid₁ hmade₁ hclean)
    split
    · exact h.storeMade hid hmade (extends_dequeue hok h.sound ha)
    split
    · have hnone := extends_modifyPage (f := fun sp => { sp.setNonePte with hasHadPte := false }) hok h.sound ha (fun _ => rfl)
        (fun _ => rfl) fun _ _ => rfl
      exact h.storeMade hid hmade (hnone.trans (extends_dequeue hnone.ok hnone.sound (hnone.pages a ha)))
    · exact h.storeMade hid hmade (extends_dequeue hok h.sound ha)

theorem recoverEntries_onward (r : Restoring) (hid : id ∈ m.taskDataList) (hmade : (m.node id).made = true) {l : List Nat}
    (hl : ∀ a ∈ l, a ∈ (m.node id).pages) : Onward hash m (l.foldl (ModuleMemory.recoverEntry hash r id) m) := by
  induction l generalizing m with
  | nil => exact .refl h
  | cons a l ih =>
    obtain ⟨ha, hl⟩ := List.forall_mem_cons.mp hl
    have hfirst := recoverEntry_onward h r hid hmade ha
    exact hfirst.trans (ih hfirst.owned (hfirst.list ▸ hid) (hfirst.made id hid hmade) fun b hb => hfirst.entries id hid b (hl b hb))

/-- A record whose dirty list is not empty has a live snapshot. -/
theorem Owned.made_of_dirty (hid : id ∈ m.taskDataList) (ha : a ∈ (m.node id).dirtyPages) :
    (m.node id).made = true ∧ a ∈ (m.node id).pages := by
  have hin := ((h.records id hid).dirty a ha).1
  refine ⟨?_, hin⟩
  by_contra hmade
  have hx : a ∈ (m.memory id).objects := mem_objects.mpr (Or.inr (Or.inl ⟨a, hin, Or.inr rfl⟩))
  rw [h.blank id hid (by simpa using hmade)] at hx
  cases hx

theorem recoverMemorySnapshot_onward (r : Restoring) (hid : id ∈ m.taskDataList) : Onward hash m (m.recoverMemorySnapshot hash r id) := by
  have hloop : ∀ {m₁ : ModuleMemory}, Onward hash m m₁ → Onward hash m ((m₁.node id).dirtyPages.foldl (ModuleMemory.recoverEntry hash r id) m₁) := by
    intro m₁ h₁
    have hid₁ : id ∈ m₁.taskDataList := h₁.list ▸ hid
    have hdirty := fun a => @Owned.made_of_dirty hash m₁ id a h₁.owned hid₁
    cases hl : (m₁.node id).dirtyPages with
    | nil => exact h₁
    | cons a l =>
      rw [hl] at hdirty
      exact h₁.trans (recoverEntries_onward h₁.owned r hid₁ (hdirty a List.mem_cons_self).1 fun b hb => (hdirty b hb).2)
  have hvmas : Onward hash m (if hasFlag (m.node id).config aflSnapshotMmap then m.hooks hash r.vmas else m) := by
    split
    · exact hooks_onward h r.vmas
    · exact .refl h
  unfold recoverMemorySnapshot
  dsimp only
  split
  · exact hvmas
  · exact hloop hvmas

theorem restoreSnapshot_onward (r : Restoring) (hid : id ∈ m.taskDataList) : Onward hash m (m.restoreSnapshot hash r id) := by
  have hbrk := hooks_onward h r.brk
  have hmemory := recoverMemorySnapshot_onward hbrk.owned r (hbrk.list ▸ hid)
  exact (hbrk.trans hmemory).trans (recoverFilesSnapshot_onward hmemory.owned r)

theorem recoverSnapshot_onward (r : Restoring) : Onward hash m (m.recoverSnapshot hash tsk r) := by
  unfold recoverSnapshot
  cases hget : m.getTaskData tsk with
  | none => exact .refl h
  | some id => exact restoreSnapshot_onward h r (getTaskData_eq_some hget).1

/-! ### Clean -/

/-- A record goes with all its objects. -/
theorem Owned.removed (hid : id ∈ m.taskDataList) (hslab : m'.slab = m.slab.freeAll (m.memory id).objects)
    (hlist : m'.taskDataList = m.taskDataList.erase id) (hfresh : m'.fresh = m.fresh) (htables : m'.tables = m.tables)
    (hnode : ∀ id', id' ≠ id → m'.node id' = m.node id') : m'.Owned hash := by
  have hlisted : ∀ {id'}, id' ∈ m'.taskDataList → id' ≠ id ∧ id' ∈ m.taskDataList := fun hid' =>
    h.once.mem_erase_iff.mp (hlist ▸ hid')
  have hobj : ∀ x, x ∉ (m.memory id).objects → m'.slab.obj x = m.slab.obj x := fun x hx => by
    rw [hslab, Slab.freeAll_obj, if_neg hx]
  have hsame : ∀ id' ∈ m'.taskDataList, (m'.memory id').Ok hash ∧ ∀ x, x ∈ (m'.memory id').objects ↔ x ∈ (m.memory id').objects := by
    intro id' hid'
    obtain ⟨hne, hold⟩ := hlisted hid'
    have hmemory : m'.memory id' = ⟨m'.slab, (m.memory id').node⟩ := congrArg (TaskMemory.mk m'.slab) (hnode id' hne)
    rw [hmemory]
    exact (h.records id' hold).congr fun x hx => hobj x fun hin => hne (h.apart id' hold id hid x hx hin)
  exact {
    sound := hslab ▸ h.sound.freeAll (h.records id hid).objects_nodup fun x hx => (h.records id hid).there hx
    records := fun id' hid' => (hsame id' hid').1
    below := fun id' hid' => hfresh ▸ h.below id' (hlisted hid').2
    once := hlist ▸ h.once.erase id
    tasks := fun id₁ h₁ id₂ h₂ heq => by
      rw [hnode id₁ (hlisted h₁).1, hnode id₂ (hlisted h₂).1] at heq
      exact h.tasks id₁ (hlisted h₁).2 id₂ (hlisted h₂).2 heq
    apart := fun id₁ h₁ id₂ h₂ x hx₁ hx₂ =>
      h.apart id₁ (hlisted h₁).2 id₂ (hlisted h₂).2 x (((hsame id₁ h₁).2 x).mp hx₁) (((hsame id₂ h₂).2 x).mp hx₂)
    blank := fun id' hid' hmade => by
      rw [hnode id' (hlisted hid').1] at hmade
      refine List.eq_nil_iff_forall_not_mem.mpr fun x hx => ?_
      have hx := ((hsame id' hid').2 x).mp hx
      rw [h.blank id' (hlisted hid').2 hmade] at hx
      cases hx
    had := fun id' hid' hmade => by
      rw [hnode id' (hlisted hid').1] at hmade ⊢
      exact h.had id' (hlisted hid').2 hmade
    tables := by
      rw [htables]
      intro a ha
      obtain ⟨s, hs⟩ := h.tables a ha
      exact ⟨s, by rwa [tableAt_eq_some, hobj a (h.given a ha id hid), ← tableAt_eq_some]⟩
    tablesOnce := htables ▸ h.tablesOnce
    given := by
      rw [htables]
      exact fun a ha id' hid' hin => h.given a ha id' (hlisted hid').2 (((hsame id' hid').2 a).mp hin)
    covered := by
      rw [htables]
      intro x o ho
      have hx : x ∉ (m.memory id).objects := fun hin => by
        rw [hslab, Slab.freeAll_obj, if_pos hin] at ho
        cases ho
      rw [hobj x hx] at ho
      refine (h.covered x o ho).imp_right fun hheld => ?_
      obtain ⟨id', hid', hin⟩ := hheld
      have hlisted' : id' ∈ m'.taskDataList := hlist ▸ h.once.mem_erase_iff.mpr ⟨fun heq => hx (heq ▸ hin), hid'⟩
      exact ⟨id', hlisted', ((hsame id' hlisted').2 x).mpr hin⟩ }

/-- What `clean_snapshot` does for a task with a record. -/
structure Cleaned (hash : Nat → Fin 256) (id : Nat) (m m' : ModuleMemory) : Prop where
  owned : m'.Owned hash
  slab : m'.slab = m.slab.freeAll (m.memory id).objects
  list : m'.taskDataList = m.taskDataList.erase id
  node : ∀ id', id' ≠ id → m'.node id' = m.node id'

omit h in
theorem Cleaned.later (hc : Cleaned hash id m m') : Later hash m m' where
  owned := hc.owned
  freed := by
    rw [hc.slab, Slab.freeAll_freed]
    exact List.prefix_append _ _

theorem cleanSnapshot_cleaned (hget : m.getTaskData tsk = some id) : Cleaned hash id m (m.cleanSnapshot tsk) := by
  have hid := (getTaskData_eq_some hget).1
  unfold cleanSnapshot
  rw [hget]
  dsimp only
  rw [clean_eq (h.records id hid)]
  have hnode : ∀ id', id' ≠ id → Function.update m.node id { m.node id with
      made := false, allVmas := [], snapshottedVmas := [], ssPages := fun _ => [], files := none, offsets := none } id' = m.node id' :=
    fun id' hne => Function.update_of_ne hne ..
  exact ⟨h.removed hid rfl rfl rfl rfl hnode, rfl, rfl, hnode⟩

theorem cleanSnapshot_later : Later hash m (m.cleanSnapshot tsk) := by
  cases hget : m.getTaskData tsk with
  | none =>
    unfold cleanSnapshot
    rw [hget]
    exact (Onward.refl h).later
  | some id => exact (cleanSnapshot_cleaned h hget).later

/-- The task has no record any more. -/
theorem Cleaned.getTaskData (hget : m.getTaskData tsk = some id) (hc : Cleaned hash id m m') : m'.getTaskData tsk = none := by
  obtain ⟨hid, htsk⟩ := getTaskData_eq_some hget
  by_contra hsome
  obtain ⟨id', hget'⟩ := Option.ne_none_iff_exists'.mp hsome
  obtain ⟨hid', htsk'⟩ := getTaskData_eq_some hget'
  rw [hc.list] at hid'
  obtain ⟨hne, hid'⟩ := h.once.mem_erase_iff.mp hid'
  rw [hc.node id' hne] at htsk'
  exact hne (h.tasks id' hid' id hid (htsk'.trans htsk.symm))

theorem doExitHook_later : Later hash m (m.doExitHook tsk) := by
  unfold doExitHook
  cases hget : m.getTaskData tsk with
  | none => exact (Onward.refl h).later
  | some id =>
    dsimp only
    split
    · exact cleanSnapshot_later h
    · exact (Onward.refl h).later

theorem exitSnapshot_later (r : Restoring) : Later hash m (m.exitSnapshot hash tsk r).1 := by
  unfold exitSnapshot
  cases hget : m.getTaskData tsk with
  | none => exact (Onward.refl h).later
  | some id =>
    dsimp only
    split
    · exact (restoreSnapshot_onward h r (getTaskData_eq_some hget).1).later
    split
    · exact cleanSnapshot_later h
    · exact (Onward.refl h).later

theorem sysExitGroupHook_later (r : Restoring) : Later hash m (m.sysExitGroupHook hash tsk r) := by
  have hexit : Later hash m (m.exitSnapshot hash tsk r).1 := exitSnapshot_later h r
  unfold sysExitGroupHook
  cases hr : m.exitSnapshot hash tsk r with
  | mk m₁ exits =>
    rw [hr] at hexit
    cases exits with
    | false => exact hexit
    | true => exact hexit.trans (doExitHook_later hexit.owned)

/-- What every call keeps. -/
theorem step_later (call : ModuleCall) : Later hash m (m.step hash call) := by
  cases call with
  | excludeVmrange tsk start end_ env => exact @addVmrange_later hash m tsk h env (·.exclude start end_)
  | includeVmrange tsk start end_ env => exact @addVmrange_later hash m tsk h env (·.include_ start end_)
  | take tsk config env mm regs fs files => exact takeSnapshot_later h
  | hook call => exact (hook_onward h call).later
  | restore tsk r => exact (recoverSnapshot_onward h r).later
  | clean tsk => exact cleanSnapshot_later h
  | exit tsk => exact doExitHook_later h
  | exitGroup tsk r => exact sysExitGroupHook_later h r
  | putTable a => exact (putTable_onward h).later

end

theorem loaded_owned : loaded.Owned hash where
  sound := ⟨by simp [loaded], by simp [loaded], List.nodup_nil⟩
  records := by simp [loaded]
  below := by simp [loaded]
  once := List.nodup_nil
  tasks := by simp [loaded]
  apart := by simp [loaded]
  blank := by simp [loaded]
  had := by simp [loaded]
  tables := by simp [loaded]
  tablesOnce := List.nodup_nil
  given := by simp [loaded]
  covered := by simp [loaded]

theorem run_later (h : m.Owned hash) (hrun : Run (ModuleMemory.step hash) (fun _ _ => True) m m') : Later hash m m' :=
  hrun.invariant (I := Later hash m) (Onward.refl h).later fun _ call hlater _ => hlater.trans (step_later hlater.owned call)

/-! ### The end of a snapshot -/

/-- A call with which a task ends its snapshot: `clean_snapshot`, or an exit that goes on. -/
def Ends (hash : Nat → Fin 256) (m : ModuleMemory) (tsk : Nat) : ModuleCall → Prop
  | .clean t => t = tsk
  | .exit t => t = tsk
  | .exitGroup t r => t = tsk ∧ (m.exitSnapshot hash t r).2 = true
  | _ => False

section
variable (h : m.Owned hash) (hget : m.getTaskData tsk = some id)
include h hget

theorem doExitHook_slab : (m.doExitHook tsk).slab = m.slab.freeAll (m.memory id).objects := by
  unfold doExitHook
  rw [hget]
  dsimp only
  split
  · exact (cleanSnapshot_cleaned h hget).slab
  · -- Without a snapshot there are no objects.
    rename_i hhad
    have hid := (getTaskData_eq_some hget).1
    have hmade : (m.node id).made = false := by
      by_contra hmade
      exact hhad (h.had id hid (by simpa using hmade))
    rw [h.blank id hid hmade]
    rfl

theorem sysExitGroupHook_slab {r : Restoring} (hexit : (m.exitSnapshot hash tsk r).2 = true) :
    (m.sysExitGroupHook hash tsk r).slab = m.slab.freeAll (m.memory id).objects := by
  unfold sysExitGroupHook
  unfold exitSnapshot at hexit ⊢
  rw [hget] at hexit ⊢
  dsimp only at hexit ⊢
  by_cases hcaught : (hasFlag (m.node id).config aflSnapshotExit && (m.node id).made) = true
  · rw [if_pos hcaught] at hexit
    cases hexit
  rw [if_neg hcaught]
  by_cases hhad : (m.node id).had = true
  · have hclean := cleanSnapshot_cleaned h hget
    rw [if_pos hhad]
    show ((m.cleanSnapshot tsk).doExitHook tsk).slab = _
    unfold doExitHook
    rw [hclean.getTaskData h hget]
    exact hclean.slab
  · rw [if_neg hhad]
    exact doExitHook_slab h hget

theorem ends_slab {call : ModuleCall} (hends : Ends hash m tsk call) : (m.step hash call).slab = m.slab.freeAll (m.memory id).objects := by
  cases call with
  | clean t =>
    obtain rfl : t = tsk := hends
    exact (cleanSnapshot_cleaned h hget).slab
  | exit t =>
    obtain rfl : t = tsk := hends
    exact doExitHook_slab h hget
  | exitGroup t r =>
    obtain ⟨rfl, hexit⟩ := hends
    exact sysExitGroupHook_slab h hget hexit
  | _ => exact hends.elim

end
end ModuleMemory
end AflSnapshot
