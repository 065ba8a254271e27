import AflSnapshot.Theorems.Owners
import AflSnapshot.Theorems.Sessions

/-! # An object of a snapshot is freed once -/

namespace AflSnapshot
open Runs

namespace TaskMemory
variable {hash : Nat → Fin 256} {t : TaskMemory} {x : Nat}

/-- The record leads to the address. -/
def Refers (t : TaskMemory) (x : Nat) : Prop :=
  x ∈ t.node.allVmas ∨ x ∈ t.node.snapshottedVmas ∨
    (∃ a, (a ∈ t.node.pages ∨ a ∈ t.node.dirtyPages) ∧ (x = a ∨ bufferAt t.slab a = some x)) ∨
    t.node.files = some x ∨ t.node.offsets = some x

/-- The second list of VMAs and the dirty list lead to nothing that the record does not hold. -/
theorem Ok.refers_iff (h : t.Ok hash) : t.Refers x ↔ x ∈ t.objects := by
  rw [mem_objects]
  constructor
  · rintro (hx | hx | ⟨a, ha, hx⟩ | hx)
    · exact Or.inl hx
    · exact Or.inl (h.snapshotted.subset hx)
    · exact Or.inr (Or.inl ⟨a, ha.elim id fun hdirty => (h.dirty a hdirty).1, hx.symm⟩)
    · exact Or.inr (Or.inr hx)
  · rintro (hx | ⟨a, ha, hx⟩ | hx)
    · exact Or.inl hx
    · exact Or.inr (Or.inr (Or.inl ⟨a, Or.inl ha, hx.symm⟩))
    · exact Or.inr (Or.inr (Or.inr hx))

end TaskMemory

namespace ModuleMemory
variable {hash : Nat → Fin 256} {m m' : ModuleMemory} {tsk id : Nat}

/-- Between `m` and `m'` the snapshot of the record is freed, and nothing else, and every object of it once in all. -/
structure FreedOnce (hash : Nat → Fin 256) (id : Nat) (m m' : ModuleMemory) : Prop where
  there : ∀ x, (m.memory id).Refers x → (∃ o, m.slab.obj x = some o) ∧ x ∉ m.slab.freed
  frees : ∃ l, m'.slab.freed = m.slab.freed ++ l ∧ l.Nodup ∧ ∀ x, x ∈ l ↔ (m.memory id).Refers x
  /-- What is still there, a process has or another record holds. -/
  held : ∀ x o, m'.slab.obj x = some o → x ∈ m'.tables ∨ ∃ id' ∈ m'.taskDataList, (m'.memory id').Refers x
  after : ∀ m'', Run (ModuleMemory.step hash) (fun _ _ => True) m' m'' →
    (∀ x, (m.memory id).Refers x → m''.slab.freed.count x = 1 ∧ m''.slab.obj x = none) ∧
      ∀ id' ∈ m''.taskDataList, ∀ x, (m''.memory id').Refers x → x ∉ m''.slab.freed

/-- No listed record leads to an object that was freed. -/
theorem Owned.not_freed (h : m.Owned hash) (hid : id ∈ m.taskDataList) {x : Nat} (hx : (m.memory id).Refers x) :
    (∃ o, m.slab.obj x = some o) ∧ x ∉ m.slab.freed := by
  obtain ⟨o, ho⟩ := (h.records id hid).there ((h.records id hid).refers_iff.mp hx)
  have ho : m.slab.obj x = some o := ho
  refine ⟨⟨o, ho⟩, fun hfreed => ?_⟩
  rw [(h.sound.gone x hfreed).2] at ho
  cases ho

/-- A task that ends its snapshot, by `clean_snapshot` or by an exit, after any run. -/
theorem snapshot_freed_once {call : ModuleCall} (hrun : Run (ModuleMemory.step hash) (fun _ _ => True) loaded m)
    (hid : id ∈ m.taskDataList) (htsk : (m.node id).tsk = tsk) (hends : Ends hash m tsk call) :
    FreedOnce hash id m (m.step hash call) := by
  have h := (run_later loaded_owned hrun).owned
  have hnext := step_later h call
  have hslab := ends_slab h (h.getTaskData hid htsk) hends
  have hrefers : ∀ x, (m.memory id).Refers x ↔ x ∈ (m.memory id).objects := fun x => (h.records id hid).refers_iff
  have hfreed : (m.step hash call).slab.freed = m.slab.freed ++ (m.memory id).objects := by
    rw [hslab, Slab.freeAll_freed]
  refine ⟨fun x hx => h.not_freed hid hx, ⟨_, hfreed, (h.records id hid).objects_nodup, fun x => (hrefers x).symm⟩, fun x o ho => ?_,
    fun m'' hrun'' => ?_⟩
  · refine (hnext.owned.covered x o ho).imp_right fun hheld => ?_
    obtain ⟨id', hid', hx⟩ := hheld
    exact ⟨id', hid', (hnext.owned.records id' hid').refers_iff.mpr hx⟩
  · have hlater := run_later hnext.owned hrun''
    refine ⟨fun x hx => ?_, fun id' hid' x hx => (hlater.owned.not_freed hid' hx).2⟩
    have hin : x ∈ m''.slab.freed := hlater.freed.subset (by rw [hfreed]; exact List.mem_append_right _ ((hrefers x).mp hx))
    exact ⟨hlater.owned.sound.count_freed hin, (hlater.owned.sound.gone x hin).2⟩

/-- The first page of the heap is written before and after a take that also saves the open files. -/
def written : ModuleMemory :=
  (loaded.step (fun p => Fin.ofNat 256 (p / pageSize)) (.take 1 aflSnapshotFds .calm ((heapMm.populate 4096).setPte 4096 (.present 10 true))
    (fun _ => 0) ⟨fun _ => ⟨1, []⟩, 1, fun _ => ⟨0, true⟩, 0⟩ 0)).step (fun p => Fin.ofNat 256 (p / pageSize))
      (.hook (.doWpPage 1 4096 (fun _ => 7) true))

example : (written.memory 0).node.dirtyPages = [1] := by decide +kernel

theorem snapshot_freed_once_written : (written.memory 0).Refers 5 ∧
    FreedOnce (fun p => Fin.ofNat 256 (p / pageSize)) 0 written (written.step (fun p => Fin.ofNat 256 (p / pageSize)) (.clean 1)) := by
  have hpage : 1 ∈ (written.memory 0).node.pages := TaskNode.mem_pages.mpr ⟨1, by decide +kernel⟩
  have hbuffer : bufferAt (written.memory 0).slab 1 = some 5 := by decide +kernel
  refine ⟨Or.inr (Or.inr (Or.inl ⟨1, Or.inl hpage, Or.inr hbuffer⟩)), ?_⟩
  exact snapshot_freed_once (.step (.step .start trivial) trivial) (by decide +kernel) (by decide +kernel) rfl

/-! ### Every object -/

/-- The places for objects: the tables that processes have, and what the listed records hold. -/
def places (m : ModuleMemory) : List Nat := m.tables ++ m.taskDataList.flatMap fun id => (m.memory id).objects

/-- The objects that are there are at one place each, and no place leads to an object that was freed. Without a snapshot a record
    holds nothing. -/
structure Accounted (m : ModuleMemory) : Prop where
  once : m.places.Nodup
  there : ∀ x, x ∈ m.places ↔ ∃ o, m.slab.obj x = some o
  freed : ∀ x ∈ m.slab.freed, m.slab.freed.count x = 1 ∧ x ∉ m.places
  refers : ∀ id ∈ m.taskDataList, ∀ x, (m.memory id).Refers x ↔ x ∈ (m.memory id).objects
  blank : ∀ id ∈ m.taskDataList, (m.node id).made = false → (m.memory id).objects = []

theorem mem_places {x : Nat} : x ∈ m.places ↔ x ∈ m.tables ∨ ∃ id ∈ m.taskDataList, x ∈ (m.memory id).objects := by
  simp [places]

theorem Owned.mem_places (h : m.Owned hash) {x : Nat} : x ∈ m.places ↔ ∃ o, m.slab.obj x = some o := by
  rw [ModuleMemory.mem_places]
  constructor
  · rintro (hx | ⟨id, hid, hx⟩)
    · obtain ⟨s, hs⟩ := h.tables x hx
      exact ⟨_, tableAt_eq_some.mp hs⟩
    · exact (h.records id hid).there hx
  · rintro ⟨o, ho⟩
    exact h.covered x o ho

theorem Owned.places_nodup (h : m.Owned hash) : m.places.Nodup := by
  refine List.nodup_append'.mpr ⟨h.tablesOnce, List.nodup_flatMap.mpr ⟨fun id hid => (h.records id hid).objects_nodup, ?_⟩, fun x hx hin => ?_⟩
  · refine h.once.imp_of_mem fun {id id'} hid hid' hne x hx hx' => hne ?_
    exact h.apart id hid id' hid' x hx hx'
  · obtain ⟨id, hid, hheld⟩ := List.mem_flatMap.mp hin
    exact h.given x hx id hid hheld

end ModuleMemory
end AflSnapshot
