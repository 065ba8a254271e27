import AflSnapshot.Theorems.Ownership

/-! # What is freed with a snapshot

`clean_snapshot` frees the objects of one record, each once, and leaves the objects of the others alone. In every run an
object is freed once at most, and what a listed record refers to is not freed. -/

namespace AflSnapshot
open Runs

section
variable {slab : Slab Object} {a b : Nat}

/-- What is freed with an entry. -/
def heldAt (slab : Slab Object) (a : Nat) : List Nat := (bufferAt slab a).toList ++ [a]

theorem mem_heldAt : b ∈ heldAt slab a ↔ bufferAt slab a = some b ∨ b = a := by
  simp [heldAt]

theorem freeAll_heldAt : slab.freeAll (heldAt slab a) = (kfree slab (bufferAt slab a)).free a := by
  unfold heldAt
  cases bufferAt slab a <;> rfl

end

namespace TaskMemory
variable {hash : Nat → Fin 256} {t : TaskMemory} {a b x : Nat}

namespace Ok

theorem pages_nodup (h : t.Ok hash) : t.node.pages.Nodup := by
  refine List.nodup_flatMap.mpr ⟨fun i _ => h.entriesOnce i, (List.nodup_finRange 256).imp fun {i j} hij a hi hj => hij ?_⟩
  obtain ⟨sp, hsp, hhash⟩ := h.entries i a hi
  obtain ⟨sp', hsp', hhash'⟩ := h.entries j a hj
  rw [← hhash, ← hhash', Option.some.inj (hsp.symm.trans hsp')]

/-- A buffer is no entry. -/
theorem buffer_ne (h : t.Ok hash) (ha : a ∈ t.node.pages) (hb : bufferAt t.slab a = some b) : b ∉ t.node.pages := by
  intro hin
  obtain ⟨bytes, hbytes⟩ := h.buffers a ha b hb
  obtain ⟨sp, hsp⟩ := h.entry hin
  rw [bytesAt_eq_some] at hbytes
  rw [pageAt_eq_some, hbytes] at hsp
  cases hsp

/-- No object is held at two places. -/
theorem objects_nodup (h : t.Ok hash) : t.objects.Nodup := by
  have hvma : ∀ x ∈ t.node.allVmas, ∃ v, t.slab.obj x = some (.snapshotVma v) := fun x hx =>
    (h.vmas x hx).imp fun _ => ssVmaAt_eq_some.mp
  have hfile : ∀ x ∈ t.node.files.toList, ∃ s, t.slab.obj x = some (.filesStruct s) := fun x hx => by
    obtain ⟨s, hs, -⟩ := h.files x (Option.mem_toList.mp hx)
    exact ⟨s, tableAt_eq_some.mp hs⟩
  have hoffset : ∀ x ∈ t.node.offsets.toList, ∃ l, t.slab.obj x = some (.offsets l) := fun x hx =>
    (h.offsets x (Option.mem_toList.mp hx)).imp fun _ => offsetsAt_eq_some.mp
  have hpage : ∀ x ∈ t.node.pages.flatMap (heldAt t.slab), (∃ sp, t.slab.obj x = some (.snapshotPage sp)) ∨
      ∃ bytes, t.slab.obj x = some (.pageData bytes) := fun x hx => by
    obtain ⟨a, ha, hx⟩ := List.mem_flatMap.mp hx
    rcases mem_heldAt.mp hx with hb | rfl
    · exact Or.inr ((h.buffers a ha x hb).imp fun _ => bytesAt_eq_some.mp)
    · exact Or.inl ((h.entry ha).imp fun _ => pageAt_eq_some.mp)
  have hpages : (t.node.pages.flatMap (heldAt t.slab)).Nodup := by
    refine List.nodup_flatMap.mpr ⟨fun a ha => ?_, h.pages_nodup.imp_of_mem fun {a c} ha hc hac x hxa hxc => ?_⟩
    · refine List.nodup_append.mpr ⟨?_, List.nodup_singleton a, fun b hb c hc hbc => ?_⟩
      · cases bufferAt t.slab a <;> simp
      · rw [List.mem_singleton.mp hc] at hbc
        exact h.buffer_ne ha (Option.mem_toList.mp hb) (hbc ▸ ha)
    · rcases mem_heldAt.mp hxa with hb | rfl <;> rcases mem_heldAt.mp hxc with hb' | rfl
      · exact hac (h.buffersOnce a ha c hc x hb hb')
      · exact h.buffer_ne ha hb hc
      · exact h.buffer_ne hc hb' ha
      · exact hac rfl
  show (t.node.allVmas ++ t.node.pages.flatMap (heldAt t.slab) ++ t.node.files.toList ++ t.node.offsets.toList).Nodup
  have hfiles : t.node.files.toList.Nodup := by cases t.node.files <;> simp
  have hoffsets : t.node.offsets.toList.Nodup := by cases t.node.offsets <;> simp
  refine List.nodup_append.mpr ⟨List.nodup_append.mpr ⟨List.nodup_append.mpr ⟨h.vmasOnce, hpages, ?_⟩, hfiles, ?_⟩, hoffsets, ?_⟩
  · rintro x hx y hy rfl
    obtain ⟨v, hv⟩ := hvma x hx
    rcases hpage x hy with ⟨sp, hsp⟩ | ⟨bytes, hbytes⟩ <;> simp_all
  · rintro x hx y hy rfl
    obtain ⟨s, hs⟩ := hfile x hy
    rcases List.mem_append.mp hx with hx | hx
    · obtain ⟨v, hv⟩ := hvma x hx
      simp_all
    · rcases hpage x hx with ⟨sp, hsp⟩ | ⟨bytes, hbytes⟩ <;> simp_all
  · rintro x hx y hy rfl
    obtain ⟨l, hl⟩ := hoffset x hy
    rcases List.mem_append.mp hx with hx | hx
    · rcases List.mem_append.mp hx with hx | hx
      · obtain ⟨v, hv⟩ := hvma x hx
        simp_all
      · rcases hpage x hx with ⟨sp, hsp⟩ | ⟨bytes, hbytes⟩ <;> simp_all
    · obtain ⟨s, hs⟩ := hfile x hx
      simp_all

end Ok

/-! ### Cleaning one record -/

omit hash t a b x in
theorem foldl_erase {l l' : List Nat} (hsub : l' ⊆ l) (hl : l'.Nodup) : l.foldl List.erase l' = [] := by
  induction l generalizing l' with
  | nil => exact List.eq_nil_of_subset_nil hsub
  | cons a l ih =>
    refine ih (fun x hx => ?_) (hl.erase a)
    obtain ⟨hne, hx⟩ := hl.mem_erase_iff.mp hx
    exact (List.mem_cons.mp (hsub hx)).resolve_left hne

theorem cleanSnapshotVmas_eq (h : t.Ok hash) : t.cleanSnapshotVmas =
    ⟨t.slab.freeAll t.node.allVmas, { t.node with allVmas := [], snapshottedVmas := [] }⟩ := by
  have hloop : ∀ (l : List Nat) (t : TaskMemory), l.foldl (fun t a => (⟨t.slab.free a, { t.node with
      allVmas := t.node.allVmas.erase a, snapshottedVmas := t.node.snapshottedVmas.erase a }⟩ : TaskMemory)) t =
      ⟨t.slab.freeAll l, { t.node with
        allVmas := l.foldl List.erase t.node.allVmas, snapshottedVmas := l.foldl List.erase t.node.snapshottedVmas }⟩ := by
    intro l
    induction l with
    | nil => exact fun t => rfl
    | cons a l ih =>
      intro t
      rw [List.foldl_cons, ih]
      rfl
  unfold cleanSnapshotVmas
  rw [hloop, foldl_erase (List.Subset.refl _) h.vmasOnce,
    foldl_erase h.snapshotted.subset (h.snapshotted.nodup h.vmasOnce)]

/-- The entries of a list are freed with their buffers, of which none is an entry. -/
theorem freeEntries {slab : Slab Object} {l : List Nat} (hl : l.Nodup) (hbuffer : ∀ a ∈ l, ∀ b, bufferAt slab a = some b → b ∉ l) :
    l.foldl (fun slab a => (kfree slab (bufferAt slab a)).free a) slab = slab.freeAll (l.flatMap (heldAt slab)) := by
  induction l generalizing slab with
  | nil => rfl
  | cons a l ih =>
    obtain ⟨ha, hl⟩ := List.nodup_cons.mp hl
    have hsame : ∀ c ∈ l, bufferAt (slab.freeAll (heldAt slab a)) c = bufferAt slab c := fun c hc => by
      have hout : c ∉ heldAt slab a := fun hin => by
        rcases mem_heldAt.mp hin with hb | rfl
        · exact hbuffer a List.mem_cons_self c hb (List.mem_cons_of_mem _ hc)
        · exact ha hc
      unfold bufferAt pageAt
      rw [Slab.freeAll_obj, if_neg hout]
    rw [List.foldl_cons, ← freeAll_heldAt, ih hl fun c hc b hb hin => ?_, List.flatMap_cons, Slab.freeAll_append]
    · congr 1
      refine List.flatMap_congr fun c hc => ?_
      show (bufferAt _ c).toList ++ [c] = (bufferAt slab c).toList ++ [c]
      rw [hsame c hc]
    · rw [hsame c hc] at hb
      exact hbuffer c (List.mem_cons_of_mem _ hc) b hb (List.mem_cons_of_mem _ hin)

/-- One bucket of the table is freed. -/
def cleanBucket (t : TaskMemory) (i : Fin 256) : TaskMemory := (t.node.ssPages i).foldl (fun t a =>
  let slab := kfree t.slab (bufferAt t.slab a)
  ⟨slab.free a, { t.node with ssPages := Function.update t.node.ssPages i ((t.node.ssPages i).erase a) }⟩) t

theorem cleanBucket_eq {i : Fin 256} (hi : (t.node.ssPages i).Nodup) : t.cleanBucket i =
    ⟨(t.node.ssPages i).foldl (fun slab a => (kfree slab (bufferAt slab a)).free a) t.slab,
      { t.node with ssPages := Function.update t.node.ssPages i [] }⟩ := by
  have hloop : ∀ (l : List Nat) (t : TaskMemory), l.foldl (fun t a =>
      let slab := kfree t.slab (bufferAt t.slab a)
      (⟨slab.free a, { t.node with ssPages := Function.update t.node.ssPages i ((t.node.ssPages i).erase a) }⟩ : TaskMemory)) t =
      ⟨l.foldl (fun slab a => (kfree slab (bufferAt slab a)).free a) t.slab,
        { t.node with ssPages := Function.update t.node.ssPages i (l.foldl List.erase (t.node.ssPages i)) }⟩ := by
    intro l
    induction l with
    | nil =>
      intro t
      rw [List.foldl_nil, List.foldl_nil, List.foldl_nil, Function.update_eq_self]
    | cons a l ih =>
      intro t
      rw [List.foldl_cons, ih]
      simp only [Function.update_idem, Function.update_self]
      rfl
  unfold cleanBucket
  rw [hloop, foldl_erase (List.Subset.refl _) hi]

theorem cleanPages_eq (h : t.Ok hash) : t.cleanPages =
    ⟨t.slab.freeAll (t.node.pages.flatMap (heldAt t.slab)), { t.node with ssPages := fun _ => [] }⟩ := by
  have hloop : ∀ (is : List (Fin 256)) (t : TaskMemory), is.Nodup → (∀ i, (t.node.ssPages i).Nodup) →
      is.foldl cleanBucket t = ⟨(is.flatMap t.node.ssPages).foldl (fun slab a => (kfree slab (bufferAt slab a)).free a) t.slab,
        { t.node with ssPages := fun i => if i ∈ is then [] else t.node.ssPages i }⟩ := by
    intro is
    induction is with
    | nil => exact fun t _ _ => rfl
    | cons i is ih =>
      intro t his ht
      obtain ⟨hi, his⟩ := List.nodup_cons.mp his
      have hother : ∀ j ∈ is, Function.update t.node.ssPages i [] j = t.node.ssPages j := fun j hj =>
        Function.update_of_ne (fun hji : j = i => hi (hji ▸ hj)) ..
      have hcleared : (fun j => if j ∈ is then [] else Function.update t.node.ssPages i [] j) =
          fun j => if j ∈ i :: is then [] else t.node.ssPages j := by
        funext j
        by_cases hj : j = i
        · simp [hj]
        · simp [hj]
      rw [List.foldl_cons, cleanBucket_eq (ht i), ih _ his fun j => ?_]
      · show (⟨(is.flatMap (Function.update t.node.ssPages i [])).foldl _ _,
          { t.node with ssPages := fun j => if j ∈ is then [] else Function.update t.node.ssPages i [] j }⟩ : TaskMemory) = _
        rw [hcleared, List.flatMap_congr hother, List.flatMap_cons, List.foldl_append]
      · by_cases hj : j = i
        · simp [hj]
        · simpa [Function.update_of_ne hj] using ht j
  show (List.finRange 256).foldl cleanBucket t = _
  rw [hloop _ t (List.nodup_finRange 256) h.entriesOnce]
  show (⟨t.node.pages.foldl _ t.slab, _⟩ : TaskMemory) = _
  rw [freeEntries h.pages_nodup fun a ha b hb => h.buffer_ne ha hb]
  simp

theorem cleanFilesSnapshot_eq (hfiles : ∀ a, t.node.files = some a → ∃ s, tableAt t.slab a = some s ∧ s.count = 1) :
    t.cleanFilesSnapshot = ⟨t.slab.freeAll (t.node.files.toList ++ t.node.offsets.toList), { t.node with files := none, offsets := none }⟩ := by
  unfold cleanFilesSnapshot
  rw [Slab.freeAll_append]
  cases hf : t.node.files with
  | none => cases t.node.offsets <;> rfl
  | some a =>
    obtain ⟨s, hs, hcount⟩ := hfiles a hf
    have hput : putFilesStruct t.slab a = t.slab.free a := by
      unfold putFilesStruct
      rw [hs]
      exact if_pos hcount.le
    dsimp only
    rw [hput]
    cases t.node.offsets <;> rfl

/-- Every object of the record is freed, and nothing else. -/
theorem clean_eq (h : t.Ok hash) : t.cleanMemorySnapshot.cleanFilesSnapshot = ⟨t.slab.freeAll t.objects, { t.node with
    allVmas := [], snapshottedVmas := [], ssPages := fun _ => [], files := none, offsets := none }⟩ := by
  -- The record without its VMAs.
  have hrest : Ok hash ⟨t.slab, { t.node with allVmas := [], snapshottedVmas := [] }⟩ :=
    { h with vmas := by simp, vmasOnce := List.nodup_nil, snapshotted := List.Sublist.refl [] }
  have hobjects : t.objects = t.node.allVmas ++ objects ⟨t.slab, { t.node with allVmas := [], snapshottedVmas := [] }⟩ := by
    simp [objects, TaskNode.pages]
  have hdisjoint := List.disjoint_of_nodup_append (hobjects ▸ h.objects_nodup)
  have hvmas : Ok hash ⟨t.slab.freeAll t.node.allVmas, { t.node with allVmas := [], snapshottedVmas := [] }⟩ :=
    (hrest.congr fun x hx => by rw [Slab.freeAll_obj, if_neg fun hin => hdisjoint hin hx]).1
  have hsame : ∀ a ∈ t.node.pages, heldAt (t.slab.freeAll t.node.allVmas) a = heldAt t.slab a := fun a ha => by
    have hin : a ∈ objects ⟨t.slab, { t.node with allVmas := [], snapshottedVmas := [] }⟩ :=
      mem_objects.mpr (Or.inr (Or.inl ⟨a, ha, Or.inr rfl⟩))
    unfold heldAt bufferAt pageAt
    rw [Slab.freeAll_obj, if_neg fun hvma => hdisjoint hvma hin]
  unfold cleanMemorySnapshot
  rw [cleanSnapshotVmas_eq h, cleanPages_eq hvmas]
  show cleanFilesSnapshot ⟨(t.slab.freeAll t.node.allVmas).freeAll (t.node.pages.flatMap (heldAt (t.slab.freeAll t.node.allVmas))), _⟩ = _
  rw [List.flatMap_congr hsame, ← Slab.freeAll_append, cleanFilesSnapshot_eq fun a ha => ?_]
  · show (⟨(t.slab.freeAll _).freeAll (t.node.files.toList ++ t.node.offsets.toList), _⟩ : TaskMemory) = _
    rw [← Slab.freeAll_append, ← List.append_assoc]
    rfl
  · obtain ⟨s, hs, hcount⟩ := h.files a ha
    have hnodup : ((t.node.allVmas ++ t.node.pages.flatMap (heldAt t.slab)) ++ (t.node.files.toList ++ t.node.offsets.toList)).Nodup := by
      rw [← List.append_assoc]
      exact h.objects_nodup
    have hin : a ∈ t.node.files.toList ++ t.node.offsets.toList := List.mem_append_left _ (Option.mem_toList.mpr ha)
    have hout : a ∉ t.node.allVmas ++ t.node.pages.flatMap (heldAt t.slab) := fun hfreed =>
      List.disjoint_of_nodup_append hnodup hfreed hin
    refine ⟨s, ?_, hcount⟩
    unfold tableAt at hs ⊢
    rwa [Slab.freeAll_obj, if_neg hout]

end TaskMemory
end AflSnapshot
