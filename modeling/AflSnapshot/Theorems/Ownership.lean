import AflSnapshot.Allocated
import AflSnapshot.Lib.Runs

/-! # Who holds the objects of the snapshots

Every object that the module has allocated is held by one record, at one place, or is a table that a restore has given away
(`ModuleMemory.Owned`). A function that works on one record frees nothing that was there before it, and what it allocates and
leaves behind is held by that record (`TaskMemory.Extends`). -/

namespace AflSnapshot
open PageWalk Runs

/-! ### Reads -/

section
variable {slab slab' : Slab Object} {a b x : Nat} {o : Object} {f : PageObject → PageObject} {β : Type} {g : Object → Option β}

theorem bind_modify {h : Object → Object} (hg : ∀ o, slab.obj a = some o → g (h o) = g o) :
    ((slab.modify a h).obj x).bind g = (slab.obj x).bind g := by
  by_cases hx : x = a
  · subst hx
    rw [Slab.modify_obj_self]
    cases ho : slab.obj x with
    | none => rfl
    | some o => exact hg o ho
  · rw [Slab.modify_obj_of_ne hx]

theorem mapPage_other (hg : ∀ sp sp', g (.snapshotPage sp) = g (.snapshotPage sp')) (o : Object) : g (o.mapPage f) = g o := by
  cases o with
  | snapshotPage sp => exact hg _ _
  | _ => rfl

@[simp] theorem ssVmaAt_modify : ssVmaAt (slab.modify a (Object.mapPage f)) x = ssVmaAt slab x :=
  bind_modify fun o _ => mapPage_other (fun _ _ => rfl) o

@[simp] theorem bytesAt_modify : bytesAt (slab.modify a (Object.mapPage f)) x = bytesAt slab x :=
  bind_modify fun o _ => mapPage_other (fun _ _ => rfl) o

@[simp] theorem tableAt_modify : tableAt (slab.modify a (Object.mapPage f)) x = tableAt slab x :=
  bind_modify fun o _ => mapPage_other (fun _ _ => rfl) o

@[simp] theorem offsetsAt_modify : offsetsAt (slab.modify a (Object.mapPage f)) x = offsetsAt slab x :=
  bind_modify fun o _ => mapPage_other (fun _ _ => rfl) o

theorem pageAt_modify : pageAt (slab.modify a (Object.mapPage f)) x = if x = a then (pageAt slab x).map f else pageAt slab x := by
  unfold pageAt
  by_cases hx : x = a
  · subst hx
    rw [Slab.modify_obj_self, if_pos rfl]
    cases slab.obj x with
    | none => rfl
    | some o => cases o <;> rfl
  · rw [Slab.modify_obj_of_ne hx, if_neg hx]

theorem bufferAt_modify (hf : ∀ sp, (f sp).pageData = sp.pageData) :
    bufferAt (slab.modify a (Object.mapPage f)) x = bufferAt slab x := by
  unfold bufferAt
  rw [pageAt_modify]
  split
  · cases pageAt slab x with
    | none => rfl
    | some sp => exact hf sp
  · rfl

/-! An object of one kind is of no other kind. -/

theorem ssVmaAt_eq_some {v : SnapshotVma} : ssVmaAt slab a = some v ↔ slab.obj a = some (.snapshotVma v) := by
  unfold ssVmaAt
  cases slab.obj a with
  | none => simp
  | some o => cases o <;> simp [Object.toVma]

theorem pageAt_eq_some {sp : PageObject} : pageAt slab a = some sp ↔ slab.obj a = some (.snapshotPage sp) := by
  unfold pageAt
  cases slab.obj a with
  | none => simp
  | some o => cases o <;> simp [Object.toPage]

theorem bytesAt_eq_some {bytes : Page} : bytesAt slab a = some bytes ↔ slab.obj a = some (.pageData bytes) := by
  unfold bytesAt
  cases slab.obj a with
  | none => simp
  | some o => cases o <;> simp [Object.toBytes]

theorem tableAt_eq_some {s : FilesStruct} : tableAt slab a = some s ↔ slab.obj a = some (.filesStruct s) := by
  unfold tableAt
  cases slab.obj a with
  | none => simp
  | some o => cases o <;> simp [Object.toTable]

theorem offsetsAt_eq_some {l : List Int} : offsetsAt slab a = some l ↔ slab.obj a = some (.offsets l) := by
  unfold offsetsAt
  cases slab.obj a with
  | none => simp
  | some o => cases o <;> simp [Object.toOffsets]

end

/-! ### One record -/

theorem TaskNode.mem_pages {node : TaskNode} {a : Nat} : a ∈ node.pages ↔ ∃ i, a ∈ node.ssPages i := by
  simp [TaskNode.pages]

namespace TaskMemory

/-- What the record refers to is there and of the right kind, each at one place, and the entries that are linked in a second
    list are marked so. -/
structure Ok (hash : Nat → Fin 256) (t : TaskMemory) : Prop where
  vmas : ∀ a ∈ t.node.allVmas, ∃ v, ssVmaAt t.slab a = some v
  vmasOnce : t.node.allVmas.Nodup
  snapshotted : t.node.snapshottedVmas.Sublist t.node.allVmas
  entries : ∀ i, ∀ a ∈ t.node.ssPages i, ∃ sp, pageAt t.slab a = some sp ∧ hash sp.pageBase = i
  entriesOnce : ∀ i, (t.node.ssPages i).Nodup
  keys : ∀ a ∈ t.node.pages, ∀ a' ∈ t.node.pages, ∀ sp sp', pageAt t.slab a = some sp → pageAt t.slab a' = some sp' →
    sp.pageBase = sp'.pageBase → a = a'
  buffers : ∀ a ∈ t.node.pages, ∀ b, bufferAt t.slab a = some b → ∃ bytes, bytesAt t.slab b = some bytes
  buffersOnce : ∀ a ∈ t.node.pages, ∀ a' ∈ t.node.pages, ∀ b, bufferAt t.slab a = some b → bufferAt t.slab a' = some b → a = a'
  dirty : ∀ a ∈ t.node.dirtyPages, a ∈ t.node.pages ∧ ∀ sp, pageAt t.slab a = some sp → sp.inDirtyList = true
  dirtyOnce : t.node.dirtyPages.Nodup
  files : ∀ a, t.node.files = some a → ∃ s, tableAt t.slab a = some s ∧ s.count = 1
  offsets : ∀ a, t.node.offsets = some a → ∃ l, offsetsAt t.slab a = some l

variable {hash : Nat → Fin 256} {t t' t'' : TaskMemory} {a b x page : Nat} {sp : PageObject} {f : PageObject → PageObject}

theorem mem_objects : x ∈ t.objects ↔ x ∈ t.node.allVmas ∨ (∃ a ∈ t.node.pages, bufferAt t.slab a = some x ∨ x = a) ∨
    t.node.files = some x ∨ t.node.offsets = some x := by
  simp [objects]

namespace Ok

theorem entry (h : t.Ok hash) (ha : a ∈ t.node.pages) : ∃ sp, pageAt t.slab a = some sp := by
  obtain ⟨i, hi⟩ := TaskNode.mem_pages.mp ha
  obtain ⟨sp, hsp, -⟩ := h.entries i a hi
  exact ⟨sp, hsp⟩

/-- What the record holds is there. -/
theorem there (h : t.Ok hash) (hx : x ∈ t.objects) : ∃ o, t.slab.obj x = some o := by
  rcases mem_objects.mp hx with hv | ⟨a, ha, hb | rfl⟩ | hfiles | hoffsets
  · obtain ⟨v, hv⟩ := h.vmas x hv
    exact ⟨_, ssVmaAt_eq_some.mp hv⟩
  · obtain ⟨bytes, hbytes⟩ := h.buffers a ha x hb
    exact ⟨_, bytesAt_eq_some.mp hbytes⟩
  · obtain ⟨sp, hsp⟩ := h.entry ha
    exact ⟨_, pageAt_eq_some.mp hsp⟩
  · obtain ⟨s, hs, -⟩ := h.files x hfiles
    exact ⟨_, tableAt_eq_some.mp hs⟩
  · obtain ⟨l, hl⟩ := h.offsets x hoffsets
    exact ⟨_, offsetsAt_eq_some.mp hl⟩

/-- A change of the memory after which the record's objects still are what they were. -/
theorem of_reads {slab : Slab Object} (h : t.Ok hash) (hvmas : ∀ a ∈ t.node.allVmas, ssVmaAt slab a = ssVmaAt t.slab a)
    (hpages : ∀ a ∈ t.node.pages, ∀ sp, pageAt t.slab a = some sp → ∃ sp', pageAt slab a = some sp' ∧
      sp'.pageBase = sp.pageBase ∧ sp'.pageData = sp.pageData ∧ (a ∈ t.node.dirtyPages → sp'.inDirtyList = sp.inDirtyList))
    (hbytes : ∀ a ∈ t.node.pages, ∀ b, bufferAt t.slab a = some b → ∃ bytes, bytesAt slab b = some bytes)
    (hfiles : ∀ a, t.node.files = some a → tableAt slab a = tableAt t.slab a)
    (hoffsets : ∀ a, t.node.offsets = some a → offsetsAt slab a = offsetsAt t.slab a) : Ok hash ⟨slab, t.node⟩ := by
  have hback : ∀ a ∈ t.node.pages, ∀ sp', pageAt slab a = some sp' → ∃ sp, pageAt t.slab a = some sp ∧
      sp'.pageBase = sp.pageBase ∧ sp'.pageData = sp.pageData ∧ (a ∈ t.node.dirtyPages → sp'.inDirtyList = sp.inDirtyList) := by
    intro a ha sp' hsp'
    obtain ⟨sp, hsp⟩ := h.entry ha
    obtain ⟨sp'', hsp'', hsame⟩ := hpages a ha sp hsp
    obtain rfl : sp'' = sp' := Option.some.inj (hsp''.symm.trans hsp')
    exact ⟨sp, hsp, hsame⟩
  have hbuffer : ∀ a ∈ t.node.pages, bufferAt slab a = bufferAt t.slab a := by
    intro a ha
    obtain ⟨sp, hsp⟩ := h.entry ha
    obtain ⟨sp', hsp', -, hdata, -⟩ := hpages a ha sp hsp
    unfold bufferAt
    rw [hsp, hsp']
    exact hdata
  exact {
    vmas := fun a ha => by
      obtain ⟨v, hv⟩ := h.vmas a ha
      exact ⟨v, (hvmas a ha).trans hv⟩
    vmasOnce := h.vmasOnce
    snapshotted := h.snapshotted
    entries := fun i a ha => by
      obtain ⟨sp, hsp, hi⟩ := h.entries i a ha
      obtain ⟨sp', hsp', hbase, -⟩ := hpages a (TaskNode.mem_pages.mpr ⟨i, ha⟩) sp hsp
      exact ⟨sp', hsp', by rw [hbase, hi]⟩
    entriesOnce := h.entriesOnce
    keys := fun a ha a' ha' sp sp' hsp hsp' heq => by
      obtain ⟨sp₁, hsp₁, hbase, -⟩ := hback a ha sp hsp
      obtain ⟨sp₂, hsp₂, hbase', -⟩ := hback a' ha' sp' hsp'
      exact h.keys a ha a' ha' sp₁ sp₂ hsp₁ hsp₂ (by rw [← hbase, heq, hbase'])
    buffers := fun a ha b hb => hbytes a ha b ((hbuffer a ha).symm.trans hb)
    buffersOnce := fun a ha a' ha' b hb hb' =>
      h.buffersOnce a ha a' ha' b ((hbuffer a ha).symm.trans hb) ((hbuffer a' ha').symm.trans hb')
    dirty := fun a ha => by
      obtain ⟨hin, hmarked⟩ := h.dirty a ha
      refine ⟨hin, fun sp' hsp' => ?_⟩
      obtain ⟨sp, hsp, -, -, hqueued⟩ := hback a hin sp' hsp'
      rw [hqueued ha, hmarked sp hsp]
    dirtyOnce := h.dirtyOnce
    files := fun a ha => by
      obtain ⟨s, hs, hcount⟩ := h.files a ha
      exact ⟨s, (hfiles a ha).trans hs, hcount⟩
    offsets := fun a ha => by
      obtain ⟨l, hl⟩ := h.offsets a ha
      exact ⟨l, (hoffsets a ha).trans hl⟩ }

/-- The memory is as it was where the record's objects are. -/
theorem congr {slab : Slab Object} (h : t.Ok hash) (hobj : ∀ x ∈ t.objects, slab.obj x = t.slab.obj x) :
    Ok hash ⟨slab, t.node⟩ ∧ ∀ x, x ∈ objects ⟨slab, t.node⟩ ↔ x ∈ t.objects := by
  have hpage : ∀ a ∈ t.node.pages, pageAt slab a = pageAt t.slab a := fun a ha => by
    unfold pageAt
    rw [hobj a (mem_objects.mpr (Or.inr (Or.inl ⟨a, ha, Or.inr rfl⟩)))]
  constructor
  · refine h.of_reads (fun a ha => ?_) (fun a ha sp hsp => ⟨sp, (hpage a ha).trans hsp, rfl, rfl, fun _ => rfl⟩)
      (fun a ha b hb => ?_) (fun a ha => ?_) fun a ha => ?_
    · unfold ssVmaAt
      rw [hobj a (mem_objects.mpr (Or.inl ha))]
    · unfold bytesAt
      rw [hobj b (mem_objects.mpr (Or.inr (Or.inl ⟨a, ha, Or.inl hb⟩)))]
      exact h.buffers a ha b hb
    · unfold tableAt
      rw [hobj a (mem_objects.mpr (Or.inr (Or.inr (Or.inl ha))))]
    · unfold offsetsAt
      rw [hobj a (mem_objects.mpr (Or.inr (Or.inr (Or.inr ha))))]
  · have hbuffer : ∀ a ∈ t.node.pages, bufferAt slab a = bufferAt t.slab a := fun a ha => by
      unfold bufferAt
      rw [hpage a ha]
    intro x
    rw [mem_objects, mem_objects]
    refine or_congr_right (or_congr_left (exists_congr fun a => and_congr_right fun ha => ?_))
    show bufferAt slab a = some x ∨ x = a ↔ _
    rw [hbuffer a ha]

end Ok
/-- What a function that works on one record does to the memory. -/
structure Extends (hash : Nat → Fin 256) (t t' : TaskMemory) : Prop where
  ok : t'.Ok hash
  sound : t'.slab.Sound
  fresh : t.slab.fresh ≤ t'.slab.fresh
  freed : ∃ l, t'.slab.freed = t.slab.freed ++ l ∧ ∀ a ∈ l, t.slab.fresh ≤ a
  outside : ∀ x < t.slab.fresh, x ∉ t.objects → t'.slab.obj x = t.slab.obj x
  objects : ∀ x, x ∈ t'.objects ↔ x ∈ t.objects ∨ t.slab.fresh ≤ x ∧ ∃ o, t'.slab.obj x = some o
  made : t.node.made = true → t'.node.made = true
  had : t.node.had = true → t'.node.had = true
  tsk : t'.node.tsk = t.node.tsk
  pages : ∀ x ∈ t.node.pages, x ∈ t'.node.pages

namespace Extends

theorem refl (h : t.Ok hash) (hs : t.slab.Sound) : Extends hash t t where
  ok := h
  sound := hs
  fresh := le_rfl
  freed := ⟨[], (List.append_nil _).symm, by simp⟩
  outside _ _ _ := rfl
  objects x := by
    refine (or_iff_left ?_).symm
    rintro ⟨hle, o, ho⟩
    have hlt := hs.below x o ho
    omega
  made := id
  had := id
  tsk := rfl
  pages _ hx := hx

theorem trans (h₁ : Extends hash t t') (h₂ : Extends hash t' t'') : Extends hash t t'' where
  ok := h₂.ok
  sound := h₂.sound
  fresh := le_trans h₁.fresh h₂.fresh
  freed := by
    obtain ⟨l₁, hl₁, hnew₁⟩ := h₁.freed
    obtain ⟨l₂, hl₂, hnew₂⟩ := h₂.freed
    refine ⟨l₁ ++ l₂, by rw [hl₂, hl₁, List.append_assoc], fun a ha => ?_⟩
    rcases List.mem_append.mp ha with ha | ha
    · exact hnew₁ a ha
    · exact le_trans h₁.fresh (hnew₂ a ha)
  outside x hx hout := by
    have hout' : x ∉ t'.objects := fun hin => by
      rcases (h₁.objects x).mp hin with hin | ⟨hle, -⟩
      · exact hout hin
      · omega
    rw [h₂.outside x (lt_of_lt_of_le hx h₁.fresh) hout', h₁.outside x hx hout]
  objects x := by
    rw [h₂.objects x, h₁.objects x]
    constructor
    · rintro ((hin | ⟨hle, ho⟩) | ⟨hle, ho⟩)
      · exact Or.inl hin
      · exact Or.inr ⟨hle, h₂.ok.there ((h₂.objects x).mpr (Or.inl ((h₁.objects x).mpr (Or.inr ⟨hle, ho⟩))))⟩
      · exact Or.inr ⟨le_trans h₁.fresh hle, ho⟩
    · rintro (hin | ⟨hle, o, ho⟩)
      · exact Or.inl (Or.inl hin)
      by_cases hx : t'.slab.fresh ≤ x
      · exact Or.inr ⟨hx, o, ho⟩
      · by_cases hin : x ∈ t'.objects
        · exact Or.inl ((h₁.objects x).mp hin)
        · exact Or.inl (Or.inr ⟨hle, o, (h₂.outside x (by omega) hin) ▸ ho⟩)
  made hmade := h₂.made (h₁.made hmade)
  had hhad := h₂.had (h₁.had hhad)
  tsk := h₂.tsk.trans h₁.tsk
  pages x hx := h₂.pages x (h₁.pages x hx)

/-- Nothing is allocated. -/
theorem of_same (hok : t'.Ok hash) (hsound : t'.slab.Sound) (hfresh : t'.slab.fresh = t.slab.fresh)
    (hfreed : t'.slab.freed = t.slab.freed) (houtside : ∀ x, x ∉ t.objects → t'.slab.obj x = t.slab.obj x)
    (hobjects : ∀ x, x ∈ t'.objects ↔ x ∈ t.objects) (hmade : t.node.made = true → t'.node.made = true)
    (hhad : t.node.had = true → t'.node.had = true) (htsk : t'.node.tsk = t.node.tsk)
    (hpages : ∀ x ∈ t.node.pages, x ∈ t'.node.pages) : Extends hash t t' where
  ok := hok
  sound := hsound
  fresh := hfresh.ge
  freed := ⟨[], by rw [hfreed, List.append_nil], by simp⟩
  outside x _ := houtside x
  objects x := by
    rw [hobjects]
    refine (or_iff_left ?_).symm
    rintro ⟨hle, o, ho⟩
    have hlt := hsound.below x o ho
    omega
  made := hmade
  had := hhad
  tsk := htsk
  pages := hpages

/-- One object is allocated and linked. -/
theorem of_alloc (hok : t'.Ok hash) (hsound : t'.slab.Sound) (hfresh : t'.slab.fresh = t.slab.fresh + 1)
    (hfreed : t'.slab.freed = t.slab.freed)
    (houtside : ∀ x, x ≠ t.slab.fresh → x ∉ t.objects → t'.slab.obj x = t.slab.obj x)
    (hobjects : ∀ x, x ∈ t'.objects ↔ x = t.slab.fresh ∨ x ∈ t.objects) (hmade : t.node.made = true → t'.node.made = true)
    (hhad : t.node.had = true → t'.node.had = true) (htsk : t'.node.tsk = t.node.tsk)
    (hpages : ∀ x ∈ t.node.pages, x ∈ t'.node.pages) : Extends hash t t' where
  ok := hok
  sound := hsound
  fresh := by omega
  freed := ⟨[], by rw [hfreed, List.append_nil], by simp⟩
  outside x hx := houtside x hx.ne
  objects x := by
    rw [hobjects, or_comm]
    refine or_congr_right ⟨fun hx => ⟨hx.ge, hok.there ((hobjects x).mpr (Or.inl hx))⟩, ?_⟩
    rintro ⟨hle, o, ho⟩
    have hlt := hsound.below x o ho
    omega
  made := hmade
  had := hhad
  tsk := htsk
  pages := hpages

end Extends

/-! ### Changes of an entry -/

section
variable (h : t.Ok hash) (hs : t.slab.Sound)
include h

theorem getSnapshotPage_eq_some : t.getSnapshotPage hash page = some a ↔
    a ∈ t.node.pages ∧ ∃ sp, pageAt t.slab a = some sp ∧ sp.pageBase = page := by
  have hfound : ∀ b, ((pageAt t.slab b).any fun sp => sp.pageBase == page) = true ↔
      ∃ sp, pageAt t.slab b = some sp ∧ sp.pageBase = page := fun b => by
    cases pageAt t.slab b <;> simp
  have hget : ∀ {b}, t.getSnapshotPage hash page = some b → b ∈ t.node.pages ∧ ∃ sp, pageAt t.slab b = some sp ∧ sp.pageBase = page := by
    intro b hb
    unfold getSnapshotPage at hb
    have hany := List.find?_some hb
    exact ⟨TaskNode.mem_pages.mpr ⟨_, List.mem_of_find?_eq_some hb⟩, (hfound b).mp hany⟩
  refine ⟨hget, ?_⟩
  rintro ⟨ha, sp, hsp, hbase⟩
  obtain ⟨i, hi⟩ := TaskNode.mem_pages.mp ha
  obtain ⟨sp', hsp', hhash⟩ := h.entries i a hi
  obtain rfl : sp' = sp := Option.some.inj (hsp'.symm.trans hsp)
  rw [hbase] at hhash
  subst hhash
  cases hb : t.getSnapshotPage hash page with
  | none => exact absurd ((hfound a).mpr ⟨sp', hsp, hbase⟩) (List.find?_eq_none.mp hb a hi)
  | some b =>
    obtain ⟨hin, sp₁, hsp₁, hbase₁⟩ := hget hb
    rw [h.keys b hin a ha sp₁ sp' hsp₁ hsp (hbase₁.trans hbase.symm)]

theorem getSnapshotPage_eq_none : t.getSnapshotPage hash page = none ↔
    ∀ a ∈ t.node.pages, ∀ sp, pageAt t.slab a = some sp → sp.pageBase ≠ page := by
  constructor
  · intro hget a ha sp hsp hbase
    rw [(getSnapshotPage_eq_some h).mpr ⟨ha, sp, hsp, hbase⟩] at hget
    cases hget
  · intro hno
    by_contra hget
    obtain ⟨a, hget⟩ := Option.ne_none_iff_exists'.mp hget
    obtain ⟨ha, sp, hsp, hbase⟩ := (getSnapshotPage_eq_some h).mp hget
    exact hno a ha sp hsp hbase

omit h in
theorem modifyPage_objects (hdata : ∀ sp, (f sp).pageData = sp.pageData) : x ∈ (t.modifyPage a f).objects ↔ x ∈ t.objects := by
  rw [mem_objects, mem_objects]
  refine or_congr_right (or_congr_left (exists_congr fun c => and_congr_right fun _ => ?_))
  show bufferAt (t.slab.modify a (Object.mapPage f)) c = some x ∨ x = c ↔ _
  rw [bufferAt_modify hdata]

omit h in
theorem modifyPage_outside (ha : a ∈ t.node.pages) (hx : x ∉ t.objects) : (t.modifyPage a f).slab.obj x = t.slab.obj x :=
  Slab.modify_obj_of_ne fun hxa => hx (mem_objects.mpr (Or.inr (Or.inl ⟨a, ha, Or.inr hxa⟩)))

/-- A change of an entry that keeps its page and its buffer, and the mark of one that is queued. -/
theorem Ok.modifyPage (hbase : ∀ sp, (f sp).pageBase = sp.pageBase) (hdata : ∀ sp, (f sp).pageData = sp.pageData)
    (hqueued : a ∈ t.node.dirtyPages → ∀ sp, (f sp).inDirtyList = sp.inDirtyList) : (t.modifyPage a f).Ok hash := by
  refine h.of_reads (fun x _ => ssVmaAt_modify) (fun x _ sp hsp => ?_) (fun x hx b hb => ?_) (fun x _ => tableAt_modify)
    fun x _ => offsetsAt_modify
  · by_cases hxa : x = a
    · subst hxa
      exact ⟨f sp, by rw [pageAt_modify, if_pos rfl, hsp]; rfl, hbase sp, hdata sp, fun hin => hqueued hin sp⟩
    · exact ⟨sp, by rw [pageAt_modify, if_neg hxa, hsp], rfl, rfl, fun _ => rfl⟩
  · rw [bytesAt_modify]
    exact h.buffers x hx b hb

include hs

theorem extends_modifyPage (ha : a ∈ t.node.pages) (hbase : ∀ sp, (f sp).pageBase = sp.pageBase)
    (hdata : ∀ sp, (f sp).pageData = sp.pageData)
    (hqueued : a ∈ t.node.dirtyPages → ∀ sp, (f sp).inDirtyList = sp.inDirtyList) : Extends hash t (t.modifyPage a f) := by
  exact .of_same (h.modifyPage hbase hdata hqueued) hs.modify rfl rfl (fun x => modifyPage_outside ha)
    (fun x => modifyPage_objects hdata) id id rfl fun _ hx => hx

/-- An entry that is not queued is queued. -/
theorem extends_enqueue (ha : a ∈ t.node.pages) (hsp : pageAt t.slab a = some sp) (hout : sp.inDirtyList = false) :
    Extends hash t (t.enqueue a) := by
  have hnot : a ∉ t.node.dirtyPages := fun hin => by
    rw [(h.dirty a hin).2 sp hsp] at hout
    cases hout
  obtain ⟨hvmas, hvmasOnce, hsnap, hentries, honce, hkeys, hbuf, hbufOnce, hdirty, hdirtyOnce, hfiles, hoffsets⟩ :=
    h.modifyPage (f := fun sp => { sp with inDirtyList := true }) (a := a) (fun _ => rfl) (fun _ => rfl) fun hin => absurd hin hnot
  refine .of_same ⟨hvmas, hvmasOnce, hsnap, hentries, honce, hkeys, hbuf, hbufOnce, fun x hx => ?_, ?_, hfiles, hoffsets⟩
    hs.modify rfl rfl (fun x => modifyPage_outside ha) (fun x => modifyPage_objects fun _ => rfl) id id rfl fun _ hx => hx
  · rcases List.mem_append.mp hx with hx | hx
    · exact hdirty x hx
    · obtain rfl := List.mem_singleton.mp hx
      refine ⟨ha, fun sp' hsp' => ?_⟩
      have hmarked : pageAt (t.slab.modify x (Object.mapPage fun sp => { sp with inDirtyList := true })) x = some sp' := hsp'
      rw [pageAt_modify, if_pos rfl, hsp] at hmarked
      rw [← Option.some.inj hmarked]
  · refine List.nodup_append.mpr ⟨hdirtyOnce, List.nodup_singleton a, fun x hx y hy heq => hnot ?_⟩
    rw [← List.mem_singleton.mp hy, ← heq]
    exact hx

/-- An entry leaves the dirty list, where it is in it. -/
theorem extends_dequeue (ha : a ∈ t.node.pages) : Extends hash t (t.dequeue a) := by
  have herase : Ok hash ⟨t.slab, { t.node with dirtyPages := t.node.dirtyPages.erase a }⟩ :=
    { h with
      dirty := fun x hx => h.dirty x (List.mem_of_mem_erase hx)
      dirtyOnce := h.dirtyOnce.erase a }
  refine .of_same (herase.modifyPage (f := fun sp => { sp with inDirtyList := false }) (fun _ => rfl) (fun _ => rfl) fun hin => ?_)
    hs.modify rfl rfl (fun x => modifyPage_outside ha) (fun x => modifyPage_objects fun _ => rfl) id id rfl fun _ hx => hx
  exact absurd hin (h.dirtyOnce.not_mem_erase)

end

/-! ### New objects -/

theorem pageAt_alloc {slab : Slab Object} : pageAt (slab.alloc (.snapshotPage sp)).1 slab.fresh = some sp :=
  pageAt_eq_some.mpr Slab.alloc_obj_self

theorem mem_pages_hashAdd : x ∈ (t.hashAdd hash page a).node.pages ↔ x = a ∨ x ∈ t.node.pages := by
  rw [TaskNode.mem_pages, TaskNode.mem_pages]
  show (∃ i, x ∈ Function.update t.node.ssPages (hash page) (a :: t.node.ssPages (hash page)) i) ↔ _
  constructor
  · rintro ⟨i, hi⟩
    by_cases hip : i = hash page
    · rw [hip, Function.update_self] at hi
      exact (List.mem_cons.mp hi).imp_right fun hx => ⟨_, hx⟩
    · rw [Function.update_of_ne hip] at hi
      exact Or.inr ⟨i, hi⟩
  · rintro (rfl | ⟨i, hi⟩)
    · exact ⟨hash page, by rw [Function.update_self]; exact List.mem_cons_self⟩
    · by_cases hip : i = hash page
      · exact ⟨hash page, by rw [Function.update_self]; exact List.mem_cons_of_mem _ (hip ▸ hi)⟩
      · exact ⟨i, by rwa [Function.update_of_ne hip]⟩

section
variable (h : t.Ok hash) (hs : t.slab.Sound)
include h hs

theorem Ok.lt_fresh (hx : x ∈ t.objects) : x < t.slab.fresh := by
  obtain ⟨o, ho⟩ := h.there hx
  exact hs.below x o ho

/-- An object that is not linked yet. -/
theorem Ok.alloc (o : Object) : Ok hash ⟨(t.slab.alloc o).1, t.node⟩ ∧
    ∀ x, x ∈ TaskMemory.objects ⟨(t.slab.alloc o).1, t.node⟩ ↔ x ∈ t.objects :=
  h.congr fun _ hx => Slab.alloc_obj_of_ne (h.lt_fresh hs hx).ne

theorem extends_hashAdd (hnone : t.getSnapshotPage hash page = none) (hbase : sp.pageBase = page) (hdata : sp.pageData = none) :
    Extends hash t
      ((⟨(t.slab.alloc (.snapshotPage sp)).1, t.node⟩ : TaskMemory).hashAdd hash page t.slab.fresh) := by
  obtain ⟨hok, hobjects⟩ := h.alloc hs (.snapshotPage sp)
  have hnew : pageAt (t.slab.alloc (.snapshotPage sp)).1 t.slab.fresh = some sp := pageAt_alloc
  have hbuffer : bufferAt (t.slab.alloc (.snapshotPage sp)).1 t.slab.fresh = none := by
    unfold bufferAt
    rw [hnew]
    exact hdata
  have hnot : ∀ i, t.slab.fresh ∉ t.node.ssPages i := fun i hi =>
    absurd (h.lt_fresh hs (mem_objects.mpr (Or.inr (Or.inl ⟨_, TaskNode.mem_pages.mpr ⟨i, hi⟩, Or.inr rfl⟩)))) (lt_irrefl _)
  have hother : ∀ a ∈ t.node.pages, ∀ sp', pageAt (t.slab.alloc (.snapshotPage sp)).1 a = some sp' → sp'.pageBase ≠ page := by
    intro a ha sp' hsp'
    refine (getSnapshotPage_eq_none h).mp hnone a ha sp' ?_
    unfold pageAt at hsp' ⊢
    rwa [Slab.alloc_obj_of_ne (h.lt_fresh hs (mem_objects.mpr (Or.inr (Or.inl ⟨a, ha, Or.inr rfl⟩)))).ne] at hsp'
  have hok' : Ok hash ((⟨(t.slab.alloc (.snapshotPage sp)).1, t.node⟩ : TaskMemory).hashAdd hash page t.slab.fresh) := {
    hok with
    entries := fun i a ha => by
      have ha : a ∈ Function.update t.node.ssPages (hash page) (t.slab.fresh :: t.node.ssPages (hash page)) i := ha
      by_cases hip : i = hash page
      · subst hip
        rw [Function.update_self] at ha
        rcases List.mem_cons.mp ha with rfl | ha
        · exact ⟨sp, hnew, by rw [hbase]⟩
        · exact hok.entries _ a ha
      · rw [Function.update_of_ne hip] at ha
        exact hok.entries i a ha
    entriesOnce := fun i => by
      show (Function.update t.node.ssPages (hash page) (t.slab.fresh :: t.node.ssPages (hash page)) i).Nodup
      by_cases hip : i = hash page
      · subst hip
        rw [Function.update_self]
        exact List.nodup_cons.mpr ⟨hnot _, h.entriesOnce _⟩
      · rw [Function.update_of_ne hip]
        exact h.entriesOnce i
    keys := fun a ha a' ha' sp₁ sp₂ h₁ h₂ heq => by
      rcases mem_pages_hashAdd.mp ha with rfl | ha <;> rcases mem_pages_hashAdd.mp ha' with rfl | ha'
      · rfl
      · obtain rfl := Option.some.inj (hnew.symm.trans h₁)
        exact absurd (heq.symm.trans hbase) (hother a' ha' sp₂ h₂)
      · obtain rfl := Option.some.inj (hnew.symm.trans h₂)
        exact absurd (heq.trans hbase) (hother a ha sp₁ h₁)
      · exact hok.keys a ha a' ha' sp₁ sp₂ h₁ h₂ heq
    buffers := fun a ha b hb => by
      have hb : bufferAt (t.slab.alloc (.snapshotPage sp)).1 a = some b := hb
      rcases mem_pages_hashAdd.mp ha with rfl | ha
      · rw [hbuffer] at hb
        cases hb
      · exact hok.buffers a ha b hb
    buffersOnce := fun a ha a' ha' b hb hb' => by
      have hb : bufferAt (t.slab.alloc (.snapshotPage sp)).1 a = some b := hb
      have hb' : bufferAt (t.slab.alloc (.snapshotPage sp)).1 a' = some b := hb'
      rcases mem_pages_hashAdd.mp ha with rfl | ha
      · rw [hbuffer] at hb
        cases hb
      rcases mem_pages_hashAdd.mp ha' with rfl | ha'
      · rw [hbuffer] at hb'
        cases hb'
      exact hok.buffersOnce a ha a' ha' b hb hb'
    dirty := fun a ha => ⟨mem_pages_hashAdd.mpr (Or.inr (hok.dirty a ha).1), (hok.dirty a ha).2⟩ }
  refine .of_alloc hok' hs.alloc rfl rfl (fun x hx _ => Slab.alloc_obj_of_ne hx) (fun x => ?_) id id rfl
    fun x hx => mem_pages_hashAdd.mpr (Or.inr hx)
  rw [← hobjects x, mem_objects, mem_objects]
  constructor
  · rintro (hv | ⟨a, ha, hx⟩ | hrest)
    · exact Or.inr (Or.inl hv)
    · have hx : bufferAt (t.slab.alloc (.snapshotPage sp)).1 a = some x ∨ x = a := hx
      rcases mem_pages_hashAdd.mp ha with rfl | ha
      · rw [hbuffer] at hx
        exact Or.inl (hx.resolve_left (by simp))
      · exact Or.inr (Or.inr (Or.inl ⟨a, ha, hx⟩))
    · exact Or.inr (Or.inr (Or.inr hrest))
  · rintro (rfl | hv | ⟨a, ha, hx⟩ | hrest)
    · exact Or.inr (Or.inl ⟨t.slab.fresh, mem_pages_hashAdd.mpr (Or.inl rfl), Or.inr rfl⟩)
    · exact Or.inl hv
    · exact Or.inr (Or.inl ⟨a, mem_pages_hashAdd.mpr (Or.inr ha), hx⟩)
    · exact Or.inr (Or.inr hrest)

/-- What `add_snapshot_page` returns: an entry of the table that is not marked as queued. -/
structure Added (hash : Nat → Fin 256) (t t' : TaskMemory) (a : Nat) : Prop where
  keeps : Extends hash t t'
  mem : a ∈ t'.node.pages
  node : t'.node = { t.node with ssPages := t'.node.ssPages }
  out : ∀ sp, pageAt t'.slab a = some sp → sp.inDirtyList = false

omit h hs in
theorem Added.modifyPage (hadd : Added hash t t' a) (hbase : ∀ sp, (f sp).pageBase = sp.pageBase)
    (hdata : ∀ sp, (f sp).pageData = sp.pageData) (hmark : ∀ sp, (f sp).inDirtyList = sp.inDirtyList) :
    Added hash t (t'.modifyPage a f) a where
  keeps := hadd.keeps.trans (extends_modifyPage hadd.keeps.ok hadd.keeps.sound hadd.mem hbase hdata fun _ => hmark)
  mem := hadd.mem
  node := hadd.node
  out sp hsp := by
    have hsp : pageAt (t'.slab.modify a (Object.mapPage f)) a = some sp := hsp
    rw [pageAt_modify, if_pos rfl, Option.map_eq_some_iff] at hsp
    obtain ⟨sp', hsp', rfl⟩ := hsp
    rw [hmark, hadd.out sp' hsp']

/-- An entry is made or, where nothing is queued yet, used again. -/
theorem addSnapshotPage_added {attemptReuse alloc : Bool} (hadd : t.addSnapshotPage hash page attemptReuse alloc = some (t', a))
    (hnew : t.getSnapshotPage hash page = none ∨ attemptReuse = true ∧ t.node.dirtyPages = []) : Added hash t t' a := by
  unfold addSnapshotPage at hadd
  cases hold : if attemptReuse then t.getSnapshotPage hash page else none with
  | some b =>
    rw [hold] at hadd
    obtain ⟨rfl, rfl⟩ := Prod.mk.inj (Option.some.inj hadd)
    cases hreuse : attemptReuse with
    | false =>
      rw [hreuse] at hold
      cases hold
    | true =>
      rw [hreuse, if_pos rfl] at hold
      obtain ⟨hb, sp, hsp, -⟩ := (getSnapshotPage_eq_some h).mp hold
      have hempty : t.node.dirtyPages = [] := by
        rcases hnew with hnone | ⟨-, hempty⟩
        · rw [hnone] at hold
          cases hold
        · exact hempty
      refine ⟨extends_modifyPage h hs hb (fun _ => rfl) (fun _ => rfl) fun hin => ?_, hb, rfl, fun sp' hsp' => ?_⟩
      · rw [hempty] at hin
        cases hin
      · have hsp' : pageAt (t.slab.modify b (Object.mapPage _)) b = some sp' := hsp'
        rw [pageAt_modify, if_pos rfl, hsp] at hsp'
        rw [← Option.some.inj hsp']
  | none =>
    rw [hold] at hadd
    cases alloc with
    | false => cases hadd
    | true =>
      obtain ⟨rfl, rfl⟩ := Prod.mk.inj (Option.some.inj hadd)
      have hnone : t.getSnapshotPage hash page = none := by
        rcases hnew with hnone | ⟨hreuse, -⟩
        · exact hnone
        · rwa [hreuse, if_pos rfl] at hold
      refine ⟨extends_hashAdd h hs hnone rfl rfl, mem_pages_hashAdd.mpr (Or.inl rfl), rfl, fun sp hsp => ?_⟩
      rw [← Option.some.inj (pageAt_alloc.symm.trans hsp)]

/-! ### Buffers -/

/-- The bytes of a buffer are written. -/
theorem extends_write (ha : a ∈ t.node.pages) (hb : bufferAt t.slab a = some b) (original : Page) :
    Extends hash t ⟨t.slab.modify b fun _ => .pageData original, t.node⟩ := by
  obtain ⟨bytes, hbytes⟩ := h.buffers a ha b hb
  have ho := bytesAt_eq_some.mp hbytes
  have hsame : ∀ {β : Type} {g : Object → Option β}, g (.pageData original) = g (.pageData bytes) → ∀ x,
      ((t.slab.modify b fun _ => .pageData original).obj x).bind g = (t.slab.obj x).bind g := fun hg x =>
    bind_modify fun o' ho' => by
      rw [ho] at ho'
      rw [← Option.some.inj ho']
      exact hg
  have hpage : ∀ x, pageAt (t.slab.modify b fun _ => .pageData original) x = pageAt t.slab x := hsame rfl
  refine .of_same (h.of_reads (fun x _ => hsame rfl x) (fun x _ sp hsp => ⟨sp, (hpage x).trans hsp, rfl, rfl, fun _ => rfl⟩)
    (fun x hx c hc => ?_) (fun x _ => hsame rfl x) fun x _ => hsame rfl x) hs.modify rfl rfl (fun x hx => ?_) (fun x => ?_) id id rfl fun _ hx => hx
  · by_cases hcb : c = b
    · refine ⟨original, ?_⟩
      unfold bytesAt
      rw [hcb, Slab.modify_obj_self, ho]
      rfl
    · obtain ⟨bytes', hbytes'⟩ := h.buffers x hx c hc
      refine ⟨bytes', ?_⟩
      unfold bytesAt at hbytes' ⊢
      rwa [Slab.modify_obj_of_ne hcb]
  · exact Slab.modify_obj_of_ne fun hxb => hx (mem_objects.mpr (Or.inr (Or.inl ⟨a, ha, Or.inl (hxb ▸ hb)⟩)))
  · rw [mem_objects, mem_objects]
    refine or_congr_right (or_congr_left (exists_congr fun c => and_congr_right fun _ => ?_))
    show bufferAt (t.slab.modify b fun _ => .pageData original) c = some x ∨ x = c ↔ _
    unfold bufferAt
    rw [hpage]

/-- An entry without a buffer gets one. -/
theorem extends_giveBuffer (ha : a ∈ t.node.pages) (hb : bufferAt t.slab a = none) (original : Page)
    (hbase : ∀ sp, (f sp).pageBase = sp.pageBase) (hdata : ∀ sp, (f sp).pageData = some t.slab.fresh)
    (hmark : ∀ sp, (f sp).inDirtyList = sp.inDirtyList) :
    Extends hash t ((⟨(t.slab.alloc (.pageData original)).1, t.node⟩ : TaskMemory).modifyPage a f) := by
  obtain ⟨hok, hobjects⟩ := h.alloc hs (.pageData original)
  obtain ⟨sp, hsp⟩ := hok.entry (a := a) ha
  obtain ⟨slab', hslab⟩ : ∃ slab', slab' = (t.slab.alloc (.pageData original)).1.modify a (Object.mapPage f) := ⟨_, rfl⟩
  have hpage : ∀ x, pageAt slab' x =
      if x = a then (pageAt (t.slab.alloc (.pageData original)).1 x).map f else pageAt (t.slab.alloc (.pageData original)).1 x :=
    fun x => hslab ▸ pageAt_modify
  have hbuffer : ∀ x, bufferAt slab' x = if x = a then some t.slab.fresh else bufferAt (t.slab.alloc (.pageData original)).1 x := by
    intro x
    unfold bufferAt
    rw [hpage]
    by_cases hxa : x = a
    · have hsp : pageAt (t.slab.alloc (.pageData original)).1 a = some sp := hsp
      rw [if_pos hxa, if_pos hxa, hxa, hsp]
      exact hdata sp
    · rw [if_neg hxa, if_neg hxa]
  have hbytes : bytesAt slab' t.slab.fresh = some original := by
    rw [hslab, bytesAt_modify]
    exact bytesAt_eq_some.mpr Slab.alloc_obj_self
  have hbelow : ∀ c ∈ t.node.pages, ∀ b, bufferAt (t.slab.alloc (.pageData original)).1 c = some b → b ≠ t.slab.fresh :=
    fun c hc b hcb => (h.lt_fresh hs ((hobjects b).mp (mem_objects.mpr (Or.inr (Or.inl ⟨c, hc, Or.inl hcb⟩))))).ne
  have hback : ∀ c ∈ t.node.pages, ∀ sp', pageAt slab' c = some sp' → ∃ sp, pageAt (t.slab.alloc (.pageData original)).1 c = some sp ∧
      sp'.pageBase = sp.pageBase ∧ sp'.inDirtyList = sp.inDirtyList := by
    intro c _ sp' hsp'
    rw [hpage] at hsp'
    split at hsp'
    · obtain ⟨sp₁, hsp₁, rfl⟩ := Option.map_eq_some_iff.mp hsp'
      exact ⟨sp₁, hsp₁, hbase sp₁, hmark sp₁⟩
    · exact ⟨sp', hsp', rfl, rfl⟩
  have hok' : Ok hash ⟨slab', t.node⟩ := {
    vmas := fun c hc => by
      obtain ⟨v, hv⟩ := hok.vmas c hc
      exact ⟨v, by rwa [hslab, ssVmaAt_modify]⟩
    vmasOnce := h.vmasOnce
    snapshotted := h.snapshotted
    entries := fun i c hc => by
      obtain ⟨sp₁, hsp₁, hi⟩ := hok.entries i c hc
      by_cases hca : c = a
      · exact ⟨f sp₁, (hpage c).trans (by rw [if_pos hca, hsp₁]; rfl), (congrArg hash (hbase sp₁)).trans hi⟩
      · exact ⟨sp₁, (hpage c).trans (by rw [if_neg hca, hsp₁]), hi⟩
    entriesOnce := h.entriesOnce
    keys := fun c hc c' hc' sp₁ sp₂ h₁ h₂ heq => by
      obtain ⟨sp₁', h₁', hbase₁, -⟩ := hback c hc sp₁ h₁
      obtain ⟨sp₂', h₂', hbase₂, -⟩ := hback c' hc' sp₂ h₂
      exact hok.keys c hc c' hc' sp₁' sp₂' h₁' h₂' (by rw [← hbase₁, heq, hbase₂])
    buffers := fun c hc b hcb => by
      have hcb : bufferAt slab' c = some b := hcb
      rw [hbuffer] at hcb
      split at hcb
      · exact ⟨original, Option.some.inj hcb ▸ hbytes⟩
      · obtain ⟨bytes, hbytes⟩ := hok.buffers c hc b hcb
        exact ⟨bytes, by rwa [hslab, bytesAt_modify]⟩
    buffersOnce := fun c hc c' hc' b hcb hcb' => by
      have hcb : bufferAt slab' c = some b := hcb
      have hcb' : bufferAt slab' c' = some b := hcb'
      rw [hbuffer] at hcb hcb'
      by_cases hca : c = a <;> by_cases hca' : c' = a
      · rw [hca, hca']
      · rw [if_pos hca] at hcb
        rw [if_neg hca'] at hcb'
        exact absurd (Option.some.inj hcb).symm (hbelow c' hc' b hcb')
      · rw [if_neg hca] at hcb
        rw [if_pos hca'] at hcb'
        exact absurd (Option.some.inj hcb').symm (hbelow c hc b hcb)
      · rw [if_neg hca] at hcb
        rw [if_neg hca'] at hcb'
        exact hok.buffersOnce c hc c' hc' b hcb hcb'
    dirty := fun c hc => by
      obtain ⟨hin, hmarked⟩ := hok.dirty c hc
      refine ⟨hin, fun sp' hsp' => ?_⟩
      obtain ⟨sp₁, hsp₁, -, hsame⟩ := hback c hin sp' hsp'
      rw [hsame, hmarked sp₁ hsp₁]
    dirtyOnce := h.dirtyOnce
    files := fun c hc => by
      obtain ⟨s, hs', hcount⟩ := hok.files c hc
      exact ⟨s, by rwa [hslab, tableAt_modify], hcount⟩
    offsets := fun c hc => by
      obtain ⟨l, hl⟩ := hok.offsets c hc
      exact ⟨l, by rwa [hslab, offsetsAt_modify]⟩ }
  show Extends hash t ⟨(t.slab.alloc (.pageData original)).1.modify a (Object.mapPage f), t.node⟩
  refine .of_alloc (hslab ▸ hok') hs.alloc.modify rfl rfl (fun x hx hout => ?_) (fun x => ?_) id id rfl fun _ hx => hx
  · refine (Slab.modify_obj_of_ne fun hxa => hout ?_).trans (Slab.alloc_obj_of_ne hx)
    exact mem_objects.mpr (Or.inr (Or.inl ⟨a, ha, Or.inr hxa⟩))
  · rw [← hslab, ← hobjects x, mem_objects, mem_objects]
    have hnone : bufferAt (t.slab.alloc (.pageData original)).1 a = none := by
      unfold bufferAt pageAt at hb ⊢
      rwa [Slab.alloc_obj_of_ne (h.lt_fresh hs (mem_objects.mpr (Or.inr (Or.inl ⟨a, ha, Or.inr rfl⟩)))).ne]
    constructor
    · rintro (hv | ⟨c, hc, hx⟩ | hrest)
      · exact Or.inr (Or.inl hv)
      · have hx : bufferAt slab' c = some x ∨ x = c := hx
        rw [hbuffer] at hx
        by_cases hca : c = a
        · rw [if_pos hca] at hx
          rcases hx with hx | hx
          · exact Or.inl (Option.some.inj hx).symm
          · exact Or.inr (Or.inr (Or.inl ⟨c, hc, Or.inr hx⟩))
        · rw [if_neg hca] at hx
          exact Or.inr (Or.inr (Or.inl ⟨c, hc, hx⟩))
      · exact Or.inr (Or.inr (Or.inr hrest))
    · rintro (rfl | hv | ⟨c, hc, hx⟩ | hrest)
      · exact Or.inr (Or.inl ⟨a, ha, Or.inl ((hbuffer a).trans (if_pos rfl))⟩)
      · exact Or.inl hv
      · refine Or.inr (Or.inl ⟨c, hc, ?_⟩)
        show bufferAt slab' c = some x ∨ x = c
        rw [hbuffer]
        by_cases hca : c = a
        · have hx : bufferAt (t.slab.alloc (.pageData original)).1 c = some x ∨ x = c := hx
          rw [hca, hnone] at hx
          exact Or.inr ((hx.resolve_left (by simp)).trans hca.symm)
        · rw [if_neg hca]
          exact hx
      · exact Or.inr (Or.inr hrest)

/-! ### The functions on entries -/

/-- The entry of a page that is written, queued where it was not. -/
def markDirty (t : TaskMemory) (a : Nat) (sp : PageObject) : TaskMemory :=
  let t := t.modifyPage a fun sp => { sp with dirty := true }
  if sp.inDirtyList then t else t.enqueue a

theorem markDirty_extends (ha : a ∈ t.node.pages) (hsp : pageAt t.slab a = some sp) :
    Extends hash t (t.markDirty a sp) ∧ pageAt (t.markDirty a sp).slab a = some { sp with dirty := true, inDirtyList := true } := by
  have hmark := extends_modifyPage (f := fun sp => { sp with dirty := true }) h hs ha (fun _ => rfl) (fun _ => rfl) fun _ _ => rfl
  have hentry : pageAt (t.slab.modify a (Object.mapPage fun sp => { sp with dirty := true })) a = some { sp with dirty := true } := by
    rw [pageAt_modify, if_pos rfl, hsp]
    rfl
  unfold markDirty
  dsimp only
  cases hin : sp.inDirtyList with
  | true =>
    rw [hin] at hentry
    exact ⟨hmark, hentry⟩
  | false =>
    refine ⟨hmark.trans (extends_enqueue hmark.ok hmark.sound ha hentry hin), ?_⟩
    show pageAt ((t.slab.modify a (Object.mapPage fun sp => { sp with dirty := true })).modify a (Object.mapPage _)) a = _
    rw [pageAt_modify, if_pos rfl, hentry]
    rfl

theorem recordDirtyPage_extends (page : Nat) (original : Page) (alloc : Bool) :
    Extends hash t (t.recordDirtyPage hash page original alloc).1 := by
  unfold recordDirtyPage
  cases hget : t.getSnapshotPage hash page with
  | none => exact .refl h hs
  | some a =>
    obtain ⟨ha, sp, hsp, -⟩ := (getSnapshotPage_eq_some h).mp hget
    obtain ⟨hthere, hsp₂⟩ := markDirty_extends h hs ha hsp
    dsimp only
    rw [hsp]
    dsimp only
    split
    · exact .refl h hs
    show Extends hash t (if sp.hasBeenCopied = true then (t.markDirty a sp, some a) else _ : TaskMemory × Option Nat).1
    have ha₂ : a ∈ (t.markDirty a sp).node.pages := hthere.pages a ha
    have hbuffer : bufferAt (t.markDirty a sp).slab a = sp.pageData := by
      unfold bufferAt
      rw [hsp₂]
      rfl
    split
    · exact hthere
    cases hb : sp.pageData with
    | some b =>
      have hwrite := extends_write hthere.ok hthere.sound ha₂ (hbuffer.trans hb) original
      exact hthere.trans (hwrite.trans (extends_modifyPage hwrite.ok hwrite.sound ha₂ (fun _ => rfl) (fun _ => rfl) fun _ _ => rfl))
    | none =>
      cases alloc with
      | false => exact hthere
      | true =>
        exact hthere.trans (extends_giveBuffer hthere.ok hthere.sound ha₂ (hbuffer.trans hb) original (fun _ => rfl)
          (fun _ => rfl) fun _ => rfl)

theorem recordDirtyPages_extends (original : Nat → Page) (alloc : Nat → Bool) (addrs : List Nat) :
    Extends hash t (t.recordDirtyPages hash original alloc addrs) := by
  induction addrs generalizing t with
  | nil => exact .refl h hs
  | cons addr addrs ih =>
    have hfirst := recordDirtyPage_extends h hs addr (original addr) (alloc addr)
    exact hfirst.trans (ih hfirst.ok hfirst.sound)

theorem notePte_extends (ha : a ∈ t.node.pages) : Extends hash t (t.notePte a) := by
  have hmark := extends_modifyPage (f := fun sp => { sp with hasHadPte := true }) h hs ha (fun _ => rfl) (fun _ => rfl) fun _ _ => rfl
  unfold notePte
  dsimp only
  generalize ht₁ : (t.modifyPage a fun sp => { sp with hasHadPte := true }) = t₁ at hmark
  have ha₁ : a ∈ t₁.node.pages := ht₁ ▸ ha
  cases hsp : pageAt t₁.slab a with
  | none => exact hmark
  | some sp =>
    dsimp only
    split
    · rename_i hqueue
      have hout : sp.inDirtyList = false := by simpa using (Bool.and_eq_true_iff.mp hqueue).2
      exact hmark.trans (extends_enqueue hmark.ok hmark.sound ha₁ hsp hout)
    · exact hmark

theorem pageAddNewAnonRmap_extends {alloc : Bool} (hadd : t.pageAddNewAnonRmap hash page alloc = some t') : Extends hash t t' := by
  unfold pageAddNewAnonRmap at hadd
  cases hget : t.getSnapshotPage hash page with
  | some a =>
    rw [hget] at hadd
    obtain rfl := Option.some.inj hadd
    exact notePte_extends h hs ((getSnapshotPage_eq_some h).mp hget).1
  | none =>
    rw [hget] at hadd
    dsimp only at hadd
    split at hadd
    swap
    · obtain rfl := Option.some.inj hadd
      exact .refl h hs
    cases hnew : t.addSnapshotPage hash page false alloc with
    | none =>
      rw [hnew] at hadd
      cases hadd
    | some r =>
      obtain ⟨t₁, a⟩ := r
      rw [hnew] at hadd
      obtain rfl := Option.some.inj hadd
      have hadded := (addSnapshotPage_added h hs hnew (Or.inl hget)).modifyPage (f := PageObject.setNonePte) (fun _ => rfl)
        (fun _ => rfl) fun _ => rfl
      exact hadded.keeps.trans (notePte_extends hadded.keeps.ok hadded.keeps.sound hadded.mem)

theorem makeSnapshotPage_extends {mm : Mm} {alloc : Bool} (hempty : t.node.dirtyPages = []) :
    Extends hash t (t.makeSnapshotPage hash mm page alloc).1.1 ∧ (t.makeSnapshotPage hash mm page alloc).1.1.node =
      { t.node with ssPages := (t.makeSnapshotPage hash mm page alloc).1.1.node.ssPages } := by
  unfold makeSnapshotPage
  cases hadd : t.addSnapshotPage hash page true alloc with
  | none => exact ⟨.refl h hs, rfl⟩
  | some r =>
    obtain ⟨t₁, a⟩ := r
    have hadded := addSnapshotPage_added h hs hadd (Or.inr ⟨rfl, hempty⟩)
    have hkind : ∀ f : PageObject → PageObject, (∀ sp, (f sp).pageBase = sp.pageBase) → (∀ sp, (f sp).pageData = sp.pageData) →
        (∀ sp, (f sp).inDirtyList = sp.inDirtyList) → Extends hash t (t₁.modifyPage a f) ∧
          (t₁.modifyPage a f).node = { t.node with ssPages := (t₁.modifyPage a f).node.ssPages } :=
      fun f hbase hdata hmark => ⟨(hadded.modifyPage hbase hdata hmark).keeps, (hadded.modifyPage hbase hdata hmark).node⟩
    dsimp only
    split
    · exact hkind _ (fun _ => rfl) (fun _ => rfl) fun _ => rfl
    split
    · exact hkind _ (fun _ => rfl) (fun _ => rfl) fun _ => rfl
    · exact hkind _ (fun _ => rfl) (fun _ => rfl) fun _ => rfl

/-! ### Take -/

theorem addSnapshotVma_extends {vma : VmArea} {garbage : Nat} {alloc : Bool} (hadd : t.addSnapshotVma vma garbage alloc = some (t', a)) :
    Extends hash t t' ∧ t'.node.allVmas = t.node.allVmas ++ [a] ∧
      t' = ⟨t'.slab, { t.node with allVmas := t.node.allVmas ++ [a] }⟩ := by
  cases alloc with
  | false => cases hadd
  | true =>
    obtain ⟨rfl, rfl⟩ := Prod.mk.inj (Option.some.inj hadd)
    refine ⟨?_, rfl, rfl⟩
    obtain ⟨hok, hobjects⟩ := h.alloc hs (.snapshotVma (TaskData.snapshotVmaOf vma garbage))
    have hnot : t.slab.fresh ∉ t.node.allVmas := fun hin =>
      absurd (h.lt_fresh hs (mem_objects.mpr (Or.inl hin))) (lt_irrefl _)
    have hok' : Ok hash ⟨(t.slab.alloc (.snapshotVma (TaskData.snapshotVmaOf vma garbage))).1,
        { t.node with allVmas := t.node.allVmas ++ [t.slab.fresh] }⟩ := {
      hok with
      vmas := fun a ha => by
        rcases List.mem_append.mp ha with ha | ha
        · exact hok.vmas a ha
        · refine ⟨TaskData.snapshotVmaOf vma garbage, ?_⟩
          rw [List.mem_singleton.mp ha]
          exact ssVmaAt_eq_some.mpr Slab.alloc_obj_self
      vmasOnce := by
        refine List.nodup_append.mpr ⟨h.vmasOnce, List.nodup_singleton _, fun x hx y hy heq => hnot ?_⟩
        rw [← List.mem_singleton.mp hy, ← heq]
        exact hx
      snapshotted := h.snapshotted.trans (List.sublist_append_left _ _) }
    refine .of_alloc hok' hs.alloc rfl rfl (fun x hx _ => Slab.alloc_obj_of_ne hx) (fun x => ?_) id id rfl fun _ hx => hx
    rw [← hobjects x, mem_objects, mem_objects]
    show x ∈ t.node.allVmas ++ [t.slab.fresh] ∨ _ ↔ _
    rw [List.mem_append, List.mem_singleton, or_comm (a := x ∈ t.node.allVmas), or_assoc]
    exact Iff.rfl

/-- The VMA that was just added is linked in the second list. -/
theorem extends_addSnapshotted {l : List Nat} (hall : t.node.allVmas = l ++ [a]) (hsub : t.node.snapshottedVmas.Sublist l) :
    Extends hash t (t.addSnapshotted a) := by
  refine .of_same { h with snapshotted := ?_ } hs rfl rfl (fun _ _ => rfl) (fun _ => Iff.rfl) id id rfl fun _ hx => hx
  show (t.node.snapshottedVmas ++ [a]).Sublist t.node.allVmas
  rw [hall]
  exact hsub.append (List.Sublist.refl [a])

/-- What the loop of `take_memory_snapshot` keeps. -/
structure Taking (hash : Nat → Fin 256) (t t' : TaskMemory) : Prop where
  keeps : Extends hash t t'
  unqueued : t'.node.dirtyPages = []
  files : t'.node.files = none
  offsets : t'.node.offsets = none

omit h hs in
theorem walkPageVma_taking {alloc : Nat → Bool} {vma : VmArea} {s : TakeState} (hs : Taking hash t s.t) :
    Taking hash t (TakeState.walkPageVma hash alloc vma s).1.t := by
  unfold TakeState.walkPageVma
  refine walk_keeps (P := fun s : TakeState => Taking hash t s.t) (fun g hg a e s hs => ?_) (fun a e s hs => ?_) _ _ hs
  · simp only [TakeState.walkOps, List.mem_cons, List.not_mem_nil, or_false] at hg
    rcases hg with rfl | rfl | rfl | rfl <;> exact hs
  · unfold TakeState.pteEntry
    dsimp only
    split
    · exact hs
    · obtain ⟨hext, hnode⟩ := @makeSnapshotPage_extends hash s.t a hs.keeps.ok hs.keeps.sound s.mm (alloc a) hs.unqueued
      refine ⟨hs.keeps.trans hext, ?_, ?_, ?_⟩ <;> dsimp only <;> rw [hnode]
      · exact hs.unqueued
      · exact hs.files
      · exact hs.offsets

omit h hs in
theorem takeVmas_taking {alloc : TakeAlloc} (vmas : List VmArea) {s : TakeState} (hs : Taking hash t s.t) :
    Taking hash t (TakeState.takeVmas hash alloc vmas s).1.t := by
  induction vmas generalizing s with
  | nil => exact hs
  | cons vma vmas ih =>
    rw [TakeState.takeVmas]
    cases hadd : s.t.addSnapshotVma vma (alloc.garbage vma.vmStart) (alloc.snapshotVma vma.vmStart) with
    | none => exact hs
    | some r =>
      obtain ⟨t₁, a⟩ := r
      obtain ⟨hext, hall, heq⟩ := addSnapshotVma_extends hs.keeps.ok hs.keeps.sound hadd
      have hsub : t₁.node.snapshottedVmas.Sublist s.t.node.allVmas := by
        rw [heq]
        exact hs.keeps.ok.snapshotted
      have h₁ : Taking hash t t₁ := by
        refine ⟨hs.keeps.trans hext, ?_, ?_, ?_⟩ <;> rw [heq]
        · exact hs.unqueued
        · exact hs.files
        · exact hs.offsets
      dsimp only
      split
      · exact ih h₁
      · have hlinked := extends_addSnapshotted h₁.keeps.ok h₁.keeps.sound hall hsub
        have hwalk := @walkPageVma_taking hash t alloc.snapshotPage vma { s with t := t₁.addSnapshotted a }
          ⟨h₁.keeps.trans hlinked, h₁.unqueued, h₁.files, h₁.offsets⟩
        split
        · exact ih hwalk
        · exact hwalk

theorem initializeSnapshot_extends (config : Nat) (regs : PtRegs) (brk : Nat) : Extends hash t (t.initializeSnapshot config regs brk) :=
  .of_same { h with } hs rfl rfl (fun _ _ => rfl) (fun _ => Iff.rfl) (fun _ => rfl) (fun _ => rfl) rfl
    fun _ hx => hx

/-! ### Files -/

/-- Objects are allocated, and some of them freed again; none is linked. -/
theorem Ok.unlinked {slab : Slab Object} (hobj : ∀ x < t.slab.fresh, slab.obj x = t.slab.obj x) :
    Ok hash ⟨slab, t.node⟩ ∧ ∀ x, x ∈ TaskMemory.objects ⟨slab, t.node⟩ ↔ x ∈ t.objects :=
  h.congr fun x hx => hobj x (h.lt_fresh hs hx)

theorem extends_of_freed {slab : Slab Object} {l : List Nat} (hsound : slab.Sound) (hfresh : t.slab.fresh ≤ slab.fresh)
    (hfreed : slab.freed = t.slab.freed ++ l) (hl : ∀ a ∈ l, t.slab.fresh ≤ a) (hobj : ∀ x < t.slab.fresh, slab.obj x = t.slab.obj x)
    (hnone : ∀ x, t.slab.fresh ≤ x → slab.obj x = none) : Extends hash t ⟨slab, t.node⟩ := by
  obtain ⟨hok, hobjects⟩ := h.unlinked hs hobj
  refine ⟨hok, hsound, hfresh, ⟨l, hfreed, hl⟩, fun x hx _ => hobj x hx, fun x => ?_, id, id, rfl, fun _ hx => hx⟩
  rw [hobjects]
  refine (or_iff_left ?_).symm
  rintro ⟨hle, o, ho⟩
  have ho : slab.obj x = some o := ho
  rw [hnone x hle] at ho
  cases ho

/-- A duplicate and its array of offsets. -/
theorem extends_files {slab : Slab Object} {fds : List (Option Nat)} {offsets : List Int} (hsound : slab.Sound)
    (hfresh : slab.fresh = t.slab.fresh + 2) (hfreed : slab.freed = t.slab.freed)
    (hbelow : ∀ x < t.slab.fresh, slab.obj x = t.slab.obj x) (hcopy : slab.obj t.slab.fresh = some (.filesStruct ⟨1, fds⟩))
    (harray : slab.obj (t.slab.fresh + 1) = some (.offsets offsets)) (hfiles : t.node.files = none)
    (hoffsets : t.node.offsets = none) :
    Extends hash t ⟨slab, { t.node with files := some t.slab.fresh, offsets := some (t.slab.fresh + 1) }⟩ := by
  obtain ⟨hok, hobjects⟩ := h.unlinked hs hbelow
  have hok' : Ok hash ⟨slab, { t.node with files := some t.slab.fresh, offsets := some (t.slab.fresh + 1) }⟩ := {
    hok with
    files := fun a ha => by
      obtain rfl := Option.some.inj ha
      exact ⟨⟨1, fds⟩, tableAt_eq_some.mpr hcopy, rfl⟩
    offsets := fun a ha => by
      obtain rfl := Option.some.inj ha
      exact ⟨offsets, offsetsAt_eq_some.mpr harray⟩ }
  refine ⟨hok', hsound, ?_, ⟨[], by rw [hfreed, List.append_nil], by simp⟩, fun x hx _ => hbelow x hx, fun x => ?_, id, id, rfl, fun _ hx => hx⟩
  · show t.slab.fresh ≤ slab.fresh
    omega
  · rw [← hobjects x, mem_objects, mem_objects]
    show x ∈ t.node.allVmas ∨ (∃ a ∈ t.node.pages, bufferAt slab a = some x ∨ x = a) ∨ some t.slab.fresh = some x ∨
      some (t.slab.fresh + 1) = some x ↔ (x ∈ t.node.allVmas ∨ (∃ a ∈ t.node.pages, bufferAt slab a = some x ∨ x = a) ∨
      t.node.files = some x ∨ t.node.offsets = some x) ∨ t.slab.fresh ≤ x ∧ ∃ o, slab.obj x = some o
    have hnew : (t.slab.fresh ≤ x ∧ ∃ o, slab.obj x = some o) ↔ t.slab.fresh = x ∨ t.slab.fresh + 1 = x := by
      constructor
      · rintro ⟨hle, o, ho⟩
        have hlt := hsound.below x o ho
        omega
      · rintro (rfl | rfl)
        · exact ⟨le_rfl, _, hcopy⟩
        · exact ⟨Nat.le_succ _, _, harray⟩
    rw [hnew, hfiles, hoffsets, Option.some.injEq, Option.some.injEq]
    simp only [reduceCtorEq, or_false]
    exact (or_assoc).symm

omit h hs in
theorem putFilesStruct_last {slab : Slab Object} {fds : List (Option Nat)} (ha : slab.obj a = some (.filesStruct ⟨1, fds⟩)) :
    putFilesStruct slab a = slab.free a := by
  unfold putFilesStruct
  rw [tableAt_eq_some.mpr ha]
  rfl

theorem takeFilesSnapshot_extends (env : Env) (fs : Files) (n : Nat) (hfiles : t.node.files = none) (hoffsets : t.node.offsets = none) :
    Extends hash t (t.takeFilesSnapshot env fs n).1 := by
  have hnone : ∀ x, t.slab.fresh ≤ x → t.slab.obj x = none := fun x hx => by
    by_contra hsome
    obtain ⟨o, ho⟩ := Option.ne_none_iff_exists'.mp hsome
    have hbelow := hs.below x o ho
    omega
  unfold takeFilesSnapshot
  split
  swap
  · have hblank : ∀ a, (none : Option Nat) = some a → False := fun a ha => by cases ha
    refine .of_same { h with files := fun a ha => (hblank a ha).elim, offsets := fun a ha => (hblank a ha).elim } hs rfl rfl
      (fun _ _ => rfl) (fun x => ?_) id id rfl fun _ hx => hx
    rw [mem_objects, mem_objects, hfiles, hoffsets]
    exact Iff.rfl
  split
  swap
  · exact .refl h hs
  dsimp only
  generalize resizeFds env.fdtSize (fs.filesStruct n).fds = fds
  have hcopy : (t.slab.alloc (.filesStruct ⟨1, fds⟩)).1.obj t.slab.fresh = some (.filesStruct ⟨1, fds⟩) := Slab.alloc_obj_self
  split
  swap
  · -- The array cannot be allocated.
    rw [Slab.alloc_addr, putFilesStruct_last hcopy]
    refine extends_of_freed (l := [t.slab.fresh]) h hs (hs.alloc.free hcopy) (Nat.le_succ _) rfl (by simp) (fun x hx => ?_) fun x hx => ?_
    · show ((t.slab.alloc (.filesStruct ⟨1, fds⟩)).1.free t.slab.fresh).obj x = _
      rw [Slab.free_obj, if_neg hx.ne, Slab.alloc_obj_of_ne hx.ne]
    · show ((t.slab.alloc (.filesStruct ⟨1, fds⟩)).1.free t.slab.fresh).obj x = none
      rw [Slab.free_obj]
      split
      · rfl
      · rename_i hne
        rw [Slab.alloc_obj_of_ne hne, hnone x hx]
  generalize List.replicate fds.length (-1 : Int) = blank
  generalize iterateFd fs.saveFileOffset fds 0 blank = r
  -- The memory with the two new objects.
  obtain ⟨slab, hslab⟩ : ∃ slab, slab = ((t.slab.alloc (.filesStruct ⟨1, fds⟩)).1.alloc (.offsets blank)).1.modify (t.slab.fresh + 1)
    fun _ => .offsets r.1 := ⟨_, rfl⟩
  have hsound : slab.Sound := hslab ▸ hs.alloc.alloc.modify
  have hobj : ∀ x, slab.obj x = if x = t.slab.fresh + 1 then some (.offsets r.1) else
      if x = t.slab.fresh then some (.filesStruct ⟨1, fds⟩) else t.slab.obj x := fun x => by
    rw [hslab]
    by_cases hx : x = t.slab.fresh + 1
    · have hnew : ((t.slab.alloc (.filesStruct ⟨1, fds⟩)).1.alloc (.offsets blank)).1.obj (t.slab.fresh + 1) =
          some (.offsets blank) := Slab.alloc_obj_self
      rw [if_pos hx, hx, Slab.modify_obj_self, hnew]
      rfl
    · rw [if_neg hx, Slab.modify_obj_of_ne hx]
      show Function.update (Function.update t.slab.obj t.slab.fresh _) (t.slab.fresh + 1) _ x = _
      rw [Function.update_of_ne hx, Function.update_apply]
  have hbelow : ∀ x < t.slab.fresh, slab.obj x = t.slab.obj x := fun x hx => by
    rw [hobj, if_neg (by omega), if_neg (by omega)]
  have hcopy' : slab.obj t.slab.fresh = some (.filesStruct ⟨1, fds⟩) := by
    rw [hobj, if_neg (by omega), if_pos rfl]
  have harray : slab.obj (t.slab.fresh + 1) = some (.offsets r.1) := by
    rw [hobj, if_pos rfl]
  have hfresh : slab.fresh = t.slab.fresh + 2 := by
    rw [hslab]
    rfl
  have hfreed : slab.freed = t.slab.freed := by
    rw [hslab]
    rfl
  show Extends hash t (if r.2 = 0 then (_, 0) else _ : TaskMemory × Int).1
  rw [Slab.alloc_addr, Slab.alloc_addr, Slab.alloc_fresh, ← hslab]
  split
  · exact extends_files h hs hsound hfresh hfreed hbelow hcopy' harray hfiles hoffsets
  · rw [putFilesStruct_last hcopy']
    have hrest : (slab.free t.slab.fresh).obj (t.slab.fresh + 1) = some (.offsets r.1) := by
      rw [Slab.free_obj, if_neg (by omega), harray]
    refine extends_of_freed (l := [t.slab.fresh, t.slab.fresh + 1]) h hs ((hsound.free hcopy').free hrest) ?_ ?_ (by simp) (fun x hx => ?_)
      fun x hx => ?_
    · show t.slab.fresh ≤ slab.fresh
      omega
    · show (slab.freed ++ [t.slab.fresh]) ++ [t.slab.fresh + 1] = _
      rw [hfreed, List.append_assoc]
      rfl
    · show ((slab.free t.slab.fresh).free (t.slab.fresh + 1)).obj x = _
      rw [Slab.free_obj, Slab.free_obj, if_neg (by omega), if_neg (by omega), hbelow x hx]
    · show ((slab.free t.slab.fresh).free (t.slab.fresh + 1)).obj x = none
      rw [Slab.free_obj, Slab.free_obj, hobj]
      split
      · rfl
      split
      · rfl
      · rw [hnone x hx]

end
end TaskMemory
end AflSnapshot
