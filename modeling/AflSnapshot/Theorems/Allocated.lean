import AflSnapshot.Theorems.Filter
import AflSnapshot.Theorems.Ownership
import Mathlib.Data.List.Find

/-! # The records with their objects are the records

What the functions on entries do to the memory is what they do to a `TaskData`: the record of addresses represents one whose
table gives the same entry for every page (`Represents`), and the functions keep that. -/

namespace AflSnapshot

/-- `d'` is `d` but for its table, its dirty list and its files. -/
def SameButFiles (d d' : TaskData) : Prop := SameButPages { d with ss := { d.ss with ssFiles := d'.ss.ssFiles } } d'

section
variable {d d' d'' : TaskData}

theorem SameButPages.butFiles (h : SameButPages d d') : SameButFiles d d' := by
  unfold SameButFiles
  unfold SameButPages at h ⊢
  rw [h]

/-- The record with VMAs added to its two lists. -/
def TaskData.addVmas (d : TaskData) (l l' : List SnapshotVma) : TaskData :=
  { d with ss := { d.ss with allVmas := d.ss.allVmas ++ l, snapshottedVmas := d.ss.snapshottedVmas ++ l' } }

theorem SameButFiles.addVmas (h : SameButFiles d d') (l l' : List SnapshotVma) : SameButFiles (d.addVmas l l') (d'.addVmas l l') := by
  unfold SameButFiles SameButPages TaskData.addVmas at *
  rw [h]

theorem SameButFiles.trans (h : SameButFiles d d') (h' : SameButFiles d' d'') : SameButFiles d d'' := by
  unfold SameButFiles SameButPages at *
  rw [h', h]

end

namespace TaskMemory

variable {hash : Nat → Fin 256} {t t' t'' : TaskMemory} {d d' : TaskData} {a b page q : Nat} {po po' : PageObject}
  {f : PageObject → PageObject} {l l' : List Nat}

/-- The entry that the table leads to. -/
def lookup (hash : Nat → Fin 256) (t : TaskMemory) (page : Nat) : Option SnapshotPage :=
  (t.getSnapshotPage hash page).bind fun a => (pageAt t.slab a).map (PageObject.view t.slab)

theorem lookup_eq_some (hget : t.getSnapshotPage hash page = some a) (hpo : pageAt t.slab a = some po) :
    t.lookup hash page = some (po.view t.slab) := by
  unfold lookup
  rw [hget, Option.bind_some, hpo]
  rfl

theorem lookup_eq_none (hget : t.getSnapshotPage hash page = none) : t.lookup hash page = none := by
  unfold lookup
  rw [hget]
  rfl

/-- The record of addresses stands for `d`, but for the files: the order of the table does not matter. -/
structure Represents (hash : Nat → Fin 256) (t : TaskMemory) (d : TaskData) : Prop where
  same : SameButFiles t.view d
  dirtyPages : d.ss.dirtyPages = t.view.ss.dirtyPages
  pages : ∀ page, d.getSnapshotPage page = t.lookup hash page

theorem view_getSnapshotPage (h : t.Ok hash) (page : Nat) : t.view.getSnapshotPage page = t.lookup hash page := by
  have hfind : t.node.pages.find? (fun a => (pageAt t.slab a).any fun sp => sp.pageBase == page) = t.getSnapshotPage hash page := by
    refine Option.ext fun a => ?_
    rw [getSnapshotPage_eq_some h]
    constructor
    · intro ha
      refine ⟨List.mem_of_find?_eq_some ha, ?_⟩
      have hany := List.find?_some ha
      cases hsp : pageAt t.slab a with
      | none => simp [hsp] at hany
      | some sp => exact ⟨sp, rfl, by simpa [hsp] using hany⟩
    · rintro ⟨ha, sp, hsp, hbase⟩
      have hsome : (t.node.pages.find? fun a => (pageAt t.slab a).any fun sp => sp.pageBase == page).isSome :=
        List.find?_isSome.mpr ⟨a, ha, by simp [hsp, hbase]⟩
      obtain ⟨a', ha'⟩ := Option.isSome_iff_exists.mp hsome
      have hany := List.find?_some ha'
      cases hsp' : pageAt t.slab a' with
      | none => simp [hsp'] at hany
      | some sp' =>
        have hbase' : sp'.pageBase = page := by simpa [hsp'] using hany
        rw [ha', h.keys a' (List.mem_of_find?_eq_some ha') a ha sp' sp hsp' hsp (hbase'.trans hbase.symm)]
  unfold lookup
  rw [← hfind]
  show (t.node.pages.filterMap fun a => (pageAt t.slab a).map (PageObject.view t.slab)).find? _ = _
  rw [List.find?_filterMap]
  congr 2
  funext a
  cases pageAt t.slab a <;> rfl

theorem represents_view (h : t.Ok hash) : Represents hash t t.view := ⟨(SameButPages.refl _).butFiles, rfl, view_getSnapshotPage h⟩

/-! ### An entry changes -/

theorem sameButPages_view (hnode : t'.node = { t.node with ssPages := t'.node.ssPages, dirtyPages := t'.node.dirtyPages })
    (hvmas : ∀ a ∈ t.node.allVmas, ssVmaAt t'.slab a = ssVmaAt t.slab a) (hsub : t.node.snapshottedVmas ⊆ t.node.allVmas)
    (hoffsets : ∀ a, t.node.offsets = some a → offsetsAt t'.slab a = offsetsAt t.slab a) : SameButPages t.view t'.view := by
  have hall : t.node.allVmas.filterMap (ssVmaAt t'.slab) = t.node.allVmas.filterMap (ssVmaAt t.slab) :=
    List.filterMap_congr hvmas
  have hsnap : t.node.snapshottedVmas.filterMap (ssVmaAt t'.slab) = t.node.snapshottedVmas.filterMap (ssVmaAt t.slab) :=
    List.filterMap_congr fun a ha => hvmas a (hsub ha)
  have hoff : t.node.offsets.bind (offsetsAt t'.slab) = t.node.offsets.bind (offsetsAt t.slab) := by
    cases ho : t.node.offsets with
    | none => rfl
    | some a => exact hoffsets a ho
  unfold SameButPages view
  rw [hnode]
  dsimp only
  rw [hall, hsnap, hoff]

/-- The entry of one page is set, and the entries of the others are as before. -/
structure Sets (hash : Nat → Fin 256) (page a : Nat) (l : List Nat) (t t' : TaskMemory) (po' : PageObject) : Prop where
  same : SameButPages t.view t'.view
  dirtyPages : t'.view.ss.dirtyPages = t.view.ss.dirtyPages ++ l
  others : ∀ q, q ≠ page → t'.lookup hash q = t.lookup hash q
  found : t'.getSnapshotPage hash page = some a
  entry : pageAt t'.slab a = some po'

theorem Sets.trans (h₁ : Sets hash page a l t t' po) (h₂ : Sets hash page a l' t' t'' po') : Sets hash page a (l ++ l') t t'' po' where
  same := h₁.same.trans h₂.same
  dirtyPages := by rw [h₂.dirtyPages, h₁.dirtyPages, List.append_assoc]
  others q hq := (h₂.others q hq).trans (h₁.others q hq)
  found := h₂.found
  entry := h₂.entry

theorem view_modify {slab : Slab Object} : PageObject.view (slab.modify a (Object.mapPage f)) = PageObject.view slab := by
  have hbytes : bytesAt (slab.modify a (Object.mapPage f)) = bytesAt slab := funext fun _ => bytesAt_modify
  unfold PageObject.view
  rw [hbytes]

theorem getSnapshotPage_modifyPage (hbase : ∀ sp, (f sp).pageBase = sp.pageBase) :
    (t.modifyPage a f).getSnapshotPage hash q = t.getSnapshotPage hash q := by
  unfold getSnapshotPage
  congr 1
  funext b
  show (pageAt (t.slab.modify a (Object.mapPage f)) b).any _ = _
  rw [pageAt_modify]
  split
  · cases pageAt t.slab b with
    | none => rfl
    | some sp =>
      show ((f sp).pageBase == q) = _
      rw [hbase]
      rfl
  · rfl

theorem dirtyPages_view (hbase : ∀ x, ((pageAt t'.slab x).map PageObject.pageBase) = (pageAt t.slab x).map PageObject.pageBase)
    (hdirty : t'.node.dirtyPages = t.node.dirtyPages ++ l) :
    t'.view.ss.dirtyPages = t.view.ss.dirtyPages ++ l.filterMap fun a => (pageAt t.slab a).map PageObject.pageBase := by
  show t'.node.dirtyPages.filterMap _ = t.node.dirtyPages.filterMap _ ++ _
  rw [hdirty, List.filterMap_append]
  simp only [hbase]

section
variable (h : t.Ok hash) (hget : t.getSnapshotPage hash page = some a) (hpo : pageAt t.slab a = some po)
include h hget hpo

theorem modifyPage_sets (hbase : ∀ sp, (f sp).pageBase = sp.pageBase) : Sets hash page a [] t (t.modifyPage a f) (f po) := by
  obtain ⟨ha, sp, hsp, hkey⟩ := (getSnapshotPage_eq_some h).mp hget
  have hbases : ∀ x, ((pageAt (t.modifyPage a f).slab x).map PageObject.pageBase) = (pageAt t.slab x).map PageObject.pageBase := fun x => by
    show ((pageAt (t.slab.modify a (Object.mapPage f)) x).map PageObject.pageBase) = _
    rw [pageAt_modify]
    split
    · rw [Option.map_map]
      exact congrFun (congrArg Option.map (funext hbase)) _
    · rfl
  refine ⟨sameButPages_view rfl (fun x _ => ssVmaAt_modify) h.snapshotted.subset fun x _ => offsetsAt_modify,
    dirtyPages_view hbases (List.append_nil _).symm, fun q hq => ?_, (getSnapshotPage_modifyPage hbase).trans hget, ?_⟩
  · unfold lookup
    rw [getSnapshotPage_modifyPage hbase]
    cases hget' : t.getSnapshotPage hash q with
    | none => rfl
    | some b =>
      obtain ⟨-, sp', hsp', hkey'⟩ := (getSnapshotPage_eq_some h).mp hget'
      have hne : b ≠ a := fun heq => by
        rw [heq, hsp] at hsp'
        exact hq (by rw [← hkey', ← hkey, Option.some.inj hsp'])
      show (pageAt (t.slab.modify a (Object.mapPage f)) b).map (PageObject.view (t.slab.modify a (Object.mapPage f))) = _
      rw [pageAt_modify, if_neg hne]
      show _ = (pageAt t.slab b).map (PageObject.view t.slab)
      rw [view_modify]
  · show pageAt (t.slab.modify a (Object.mapPage f)) a = _
    rw [pageAt_modify, if_pos rfl, hpo]
    rfl

theorem enqueue_sets : Sets hash page a [page] t (t.enqueue a) { po with inDirtyList := true } := by
  obtain ⟨ha, sp, hsp, hkey⟩ := (getSnapshotPage_eq_some h).mp hget
  obtain rfl : sp = po := Option.some.inj (hsp.symm.trans hpo)
  have hmark := modifyPage_sets (f := fun sp => { sp with inDirtyList := true }) h hget hpo fun _ => rfl
  have hqueue : (t.enqueue a).view.ss.dirtyPages = (t.modifyPage a fun sp => { sp with inDirtyList := true }).view.ss.dirtyPages ++ [page] := by
    show (t.node.dirtyPages ++ [a]).filterMap (fun x => (pageAt (t.slab.modify a _) x).map PageObject.pageBase) = _
    rw [List.filterMap_append]
    congr 1
    have hentry : pageAt (t.slab.modify a (Object.mapPage fun sp => { sp with inDirtyList := true })) a = some { sp with inDirtyList := true } :=
      hmark.entry
    rw [List.filterMap_cons, hentry]
    simp [hkey]
  exact ⟨hmark.same.trans rfl, by rw [hqueue, hmark.dirtyPages, List.append_nil], hmark.others, hmark.found, hmark.entry⟩

/-- The memory changes where the entries and what else the record shows is not; a buffer of the page may change. -/
theorem elsewhere_sets {slab : Slab Object} (hvmas : ∀ a ∈ t.node.allVmas, ssVmaAt slab a = ssVmaAt t.slab a)
    (hoffsets : ∀ a, t.node.offsets = some a → offsetsAt slab a = offsetsAt t.slab a)
    (hpages : ∀ a ∈ t.node.pages, pageAt slab a = pageAt t.slab a)
    (hbytes : ∀ a' ∈ t.node.pages, a' ≠ a → ∀ b, bufferAt t.slab a' = some b → bytesAt slab b = bytesAt t.slab b) :
    Sets hash page a [] t ⟨slab, t.node⟩ po := by
  obtain ⟨ha, sp, hsp, hkey⟩ := (getSnapshotPage_eq_some h).mp hget
  have hlookup : ∀ q, (⟨slab, t.node⟩ : TaskMemory).getSnapshotPage hash q = t.getSnapshotPage hash q := fun q => by
    unfold getSnapshotPage
    show List.find? _ (t.node.ssPages (hash q)) = _
    refine List.find?_congr fun b hb => ?_
    rw [hpages b (TaskNode.mem_pages.mpr ⟨_, hb⟩)]
  refine ⟨sameButPages_view rfl hvmas h.snapshotted.subset hoffsets, ?_, fun q hq => ?_, (hlookup page).trans hget,
    (hpages a ha).trans hpo⟩
  · rw [List.append_nil]
    show t.node.dirtyPages.filterMap _ = t.node.dirtyPages.filterMap _
    refine List.filterMap_congr fun b hb => ?_
    rw [hpages b (h.dirty b hb).1]
  · unfold lookup
    rw [hlookup]
    cases hget' : t.getSnapshotPage hash q with
    | none => rfl
    | some b =>
      obtain ⟨hb, sp', hsp', hkey'⟩ := (getSnapshotPage_eq_some h).mp hget'
      have hne : b ≠ a := fun heq => by
        rw [heq, hsp] at hsp'
        exact hq (by rw [← hkey', ← hkey, Option.some.inj hsp'])
      show (pageAt slab b).map (PageObject.view slab) = (pageAt t.slab b).map (PageObject.view t.slab)
      rw [hpages b hb, hsp']
      show some (sp'.view slab) = some (sp'.view t.slab)
      unfold PageObject.view
      cases hdata : sp'.pageData with
      | none => rfl
      | some c =>
        rw [Option.bind_some, Option.bind_some, hbytes b hb hne c]
        unfold bufferAt
        rw [hsp']
        exact hdata

theorem alloc_sets (hs : t.slab.Sound) (o : Object) : Sets hash page a [] t ⟨(t.slab.alloc o).1, t.node⟩ po := by
  have hobj : ∀ x ∈ t.objects, (t.slab.alloc o).1.obj x = t.slab.obj x := fun x hx => Slab.alloc_obj_of_ne (h.lt_fresh hs hx).ne
  refine elsewhere_sets h hget hpo (fun x hx => ?_) (fun x hx => ?_) (fun x hx => ?_) fun x hx _ b hb => ?_
  · unfold ssVmaAt
    rw [hobj x (mem_objects.mpr (Or.inl hx))]
  · unfold offsetsAt
    rw [hobj x (mem_objects.mpr (Or.inr (Or.inr (Or.inr hx))))]
  · unfold pageAt
    rw [hobj x (mem_objects.mpr (Or.inr (Or.inl ⟨x, hx, Or.inr rfl⟩)))]
  · unfold bytesAt
    rw [hobj b (mem_objects.mpr (Or.inr (Or.inl ⟨x, hx, Or.inl hb⟩)))]

theorem write_sets (hb : po.pageData = some b) (original : Page) :
    Sets hash page a [] t ⟨t.slab.modify b fun _ => .pageData original, t.node⟩ po ∧
      bytesAt (t.slab.modify b fun _ => .pageData original) b = some original := by
  have ha := ((getSnapshotPage_eq_some h).mp hget).1
  have hbuffer : bufferAt t.slab a = some b := by
    unfold bufferAt
    rw [hpo]
    exact hb
  obtain ⟨bytes, hbytes⟩ := h.buffers a ha b hbuffer
  have ho := bytesAt_eq_some.mp hbytes
  have hsame : ∀ {β : Type} {g : Object → Option β}, g (.pageData original) = g (.pageData bytes) → ∀ x,
      ((t.slab.modify b fun _ => .pageData original).obj x).bind g = (t.slab.obj x).bind g := fun hg x =>
    bind_modify fun o' ho' => by
      rw [ho] at ho'
      rw [← Option.some.inj ho']
      exact hg
  refine ⟨elsewhere_sets h hget hpo (fun x _ => hsame rfl x) (fun x _ => hsame rfl x) (fun x _ => hsame rfl x) fun x hx hne c hc => ?_, ?_⟩
  · have hcb : c ≠ b := fun heq => hne (h.buffersOnce x hx a ha b (heq ▸ hc) hbuffer)
    unfold bytesAt
    rw [Slab.modify_obj_of_ne hcb]
  · rw [bytesAt_eq_some, Slab.modify_obj_self, ho]
    rfl

end

/-- A new entry, in front of its bucket. -/
theorem hashAdd_sets (h : t.Ok hash) (hs : t.slab.Sound) (hbase : po.pageBase = page) :
    Sets hash page t.slab.fresh [] t
      ((⟨(t.slab.alloc (.snapshotPage po)).1, t.node⟩ : TaskMemory).hashAdd hash page t.slab.fresh) po := by
  have hobj : ∀ x ∈ t.objects, (t.slab.alloc (.snapshotPage po)).1.obj x = t.slab.obj x := fun x hx =>
    Slab.alloc_obj_of_ne (h.lt_fresh hs hx).ne
  have hold : ∀ x ∈ t.node.pages, pageAt (t.slab.alloc (.snapshotPage po)).1 x = pageAt t.slab x := fun x hx => by
    unfold pageAt
    rw [hobj x (mem_objects.mpr (Or.inr (Or.inl ⟨x, hx, Or.inr rfl⟩)))]
  have hnew : pageAt (t.slab.alloc (.snapshotPage po)).1 t.slab.fresh = some po := pageAt_alloc
  have hget : ∀ q, ((⟨(t.slab.alloc (.snapshotPage po)).1, t.node⟩ : TaskMemory).hashAdd hash page t.slab.fresh).getSnapshotPage hash q =
      if q = page then some t.slab.fresh else t.getSnapshotPage hash q := fun q => by
    have hbucket : (t.node.ssPages (hash q)).find? (fun a => (pageAt (t.slab.alloc (.snapshotPage po)).1 a).any fun sp => sp.pageBase == q) =
        t.getSnapshotPage hash q :=
      List.find?_congr fun x hx => by rw [hold x (TaskNode.mem_pages.mpr ⟨_, hx⟩)]
    show (Function.update t.node.ssPages (hash page) (t.slab.fresh :: t.node.ssPages (hash page)) (hash q)).find?
      (fun a => (pageAt (t.slab.alloc (.snapshotPage po)).1 a).any fun sp => sp.pageBase == q) = _
    by_cases hq : q = page
    · rw [if_pos hq, hq, Function.update_self, List.find?_cons_of_pos]
      simp [hnew, hbase]
    · rw [if_neg hq, ← hbucket]
      by_cases hh : hash q = hash page
      · rw [hh, Function.update_self, List.find?_cons_of_neg]
        simp [hnew, hbase, Ne.symm hq]
      · rw [Function.update_of_ne hh]
  refine ⟨sameButPages_view rfl (fun x hx => ?_) h.snapshotted.subset fun x hx => ?_, ?_, fun q hq => ?_, ?_, hnew⟩
  · show ssVmaAt (t.slab.alloc (.snapshotPage po)).1 x = _
    unfold ssVmaAt
    rw [hobj x (mem_objects.mpr (Or.inl hx))]
  · show offsetsAt (t.slab.alloc (.snapshotPage po)).1 x = _
    unfold offsetsAt
    rw [hobj x (mem_objects.mpr (Or.inr (Or.inr (Or.inr hx))))]
  · rw [List.append_nil]
    show t.node.dirtyPages.filterMap _ = t.node.dirtyPages.filterMap _
    refine List.filterMap_congr fun x hx => ?_
    show (pageAt (t.slab.alloc (.snapshotPage po)).1 x).map _ = _
    rw [hold x (h.dirty x hx).1]
  · unfold lookup
    rw [hget, if_neg hq]
    cases hget' : t.getSnapshotPage hash q with
    | none => rfl
    | some x =>
      obtain ⟨hx, sp, hsp, -⟩ := (getSnapshotPage_eq_some h).mp hget'
      show (pageAt (t.slab.alloc (.snapshotPage po)).1 x).map (PageObject.view (t.slab.alloc (.snapshotPage po)).1) = _
      rw [hold x hx]
      show _ = (pageAt t.slab x).map (PageObject.view t.slab)
      rw [hsp]
      show some (sp.view _) = some (sp.view t.slab)
      unfold PageObject.view
      cases hdata : sp.pageData with
      | none => rfl
      | some b =>
        have hbuffer : bufferAt t.slab x = some b := by
          unfold bufferAt
          rw [hsp]
          exact hdata
        rw [Option.bind_some, Option.bind_some]
        unfold bytesAt
        rw [hobj b (mem_objects.mpr (Or.inr (Or.inl ⟨x, hx, Or.inl hbuffer⟩)))]
  · rw [hget, if_pos rfl]

/-! ### The functions on entries -/

/-- The entry of one page is set on both sides. -/
theorem Represents.set (hr : Represents hash t d) (hset : Sets hash page a l t t' po) (hd : SameButPages d d')
    (hdirty : d'.ss.dirtyPages = d.ss.dirtyPages ++ l) (hentry : d'.getSnapshotPage page = some (po.view t'.slab))
    (hothers : ∀ q, q ≠ page → d'.getSnapshotPage q = d.getSnapshotPage q) : Represents hash t' d' where
  same := (hset.same.symm.butFiles.trans hr.same).trans hd.butFiles
  dirtyPages := by rw [hdirty, hset.dirtyPages, hr.dirtyPages]
  pages q := by
    by_cases hq : q = page
    · rw [hq, hentry, lookup_eq_some hset.found hset.entry]
    · rw [hothers q hq, hset.others q hq, hr.pages]

/-- The entry that is set again, as the table of `d` sees it. -/
theorem Represents.setPage (hr : Represents hash t d) (hget : t.getSnapshotPage hash page = some a) (hpo : pageAt t.slab a = some po')
    (hset : Sets hash page a [] t t' po) (hbase : po.pageBase = page) : Represents hash t' (d.setPage (po.view t'.slab)) := by
  have hold : d.getSnapshotPage page = some (po'.view t.slab) := (hr.pages page).trans (lookup_eq_some hget hpo)
  refine hr.set hset sameButPages_setPage (List.append_nil _).symm (getSnapshotPage_setPage_self hold hbase) fun q hq => ?_
  exact getSnapshotPage_setPage_of_ne fun heq => hq (heq.trans hbase)

section
variable (h : t.Ok hash) (hs : t.slab.Sound) (hr : Represents hash t d)
include h

theorem markDirty_sets (hget : t.getSnapshotPage hash page = some a) (hpo : pageAt t.slab a = some po) :
    Sets hash page a (if po.inDirtyList then [] else [page]) t (t.markDirty a po) { po with dirty := true, inDirtyList := true } ∧
      PageObject.view (t.markDirty a po).slab = PageObject.view t.slab := by
  have ha := ((getSnapshotPage_eq_some h).mp hget).1
  have hmark := modifyPage_sets (f := fun sp => { sp with dirty := true }) h hget hpo fun _ => rfl
  have hok := h.modifyPage (f := fun sp => { sp with dirty := true }) (a := a) (fun _ => rfl) (fun _ => rfl) fun _ _ => rfl
  unfold markDirty
  dsimp only
  cases hin : po.inDirtyList with
  | true =>
    refine ⟨?_, view_modify⟩
    rw [hin] at hmark
    exact hmark
  | false => exact ⟨hmark.trans (enqueue_sets hok hmark.found hmark.entry), view_modify.trans view_modify⟩

include hs hr

theorem recordDirtyPage_represents (page : Nat) (original : Page) (alloc : Bool) :
    Represents hash (t.recordDirtyPage hash page original alloc).1 (d.recordDirtyPage page original alloc).1 := by
  unfold recordDirtyPage TaskData.recordDirtyPage
  cases hget : t.getSnapshotPage hash page with
  | none =>
    rw [hr.pages, lookup_eq_none hget]
    exact hr
  | some a =>
    obtain ⟨ha, sp, hsp, hbase⟩ := (getSnapshotPage_eq_some h).mp hget
    obtain ⟨hset, hview⟩ := markDirty_sets h hget hsp
    obtain ⟨hext, -⟩ := markDirty_extends h hs ha hsp
    have hold := (hr.pages page).trans (lookup_eq_some hget hsp)
    rw [hold]
    dsimp only
    rw [hsp]
    dsimp only
    by_cases hskip : (sp.dirty || sp.isNonePte) = true
    · have hskip' : ((sp.view t.slab).dirty || (sp.view t.slab).isNonePte) = true := hskip
      rw [if_pos hskip, if_pos hskip']
      exact hr
    have hskip' : ¬((sp.view t.slab).dirty || (sp.view t.slab).isNonePte) = true := hskip
    rw [if_neg hskip, if_neg hskip']
    -- The record of `d` with the page queued where it was not.
    obtain ⟨d₁, hd₁, hsame, hdirty, hget₁⟩ : ∃ d₁, d₁ = (if sp.inDirtyList then d else d.addDirty page) ∧ SameButPages d d₁ ∧
        d₁.ss.dirtyPages = d.ss.dirtyPages ++ (if sp.inDirtyList then [] else [page]) ∧
        ∀ q, d₁.getSnapshotPage q = d.getSnapshotPage q := by
      refine ⟨_, rfl, ?_⟩
      cases sp.inDirtyList with
      | true => exact ⟨rfl, (List.append_nil _).symm, fun _ => rfl⟩
      | false => exact ⟨rfl, rfl, fun _ => rfl⟩
    have hclose : ∀ {t₃ po₃}, Sets hash page a (if sp.inDirtyList then [] else [page]) t t₃ po₃ → po₃.pageBase = page →
        Represents hash t₃ (d₁.setPage (po₃.view t₃.slab)) := by
      intro t₃ po₃ hset₃ hbase₃
      refine hr.set hset₃ (hsame.trans sameButPages_setPage) hdirty
        (getSnapshotPage_setPage_self ((hget₁ page).trans hold) hbase₃) fun q hq => ?_
      rw [getSnapshotPage_setPage_of_ne fun heq => hq (heq.trans hbase₃), hget₁]
    have hmarked : Represents hash (t.markDirty a sp) (d₁.setPage { sp.view t.slab with dirty := true, inDirtyList := true }) := by
      have hclosed := hclose hset hbase
      rw [hview] at hclosed
      exact hclosed
    -- The buffer is filled.
    have hfilled : ∀ {t₃ b}, Sets hash page a [] (t.markDirty a sp) t₃
          { sp with dirty := true, inDirtyList := true, pageData := some b, hasBeenCopied := true } →
        bytesAt t₃.slab b = some original → Represents hash t₃
          (d₁.setPage { sp.view t.slab with dirty := true, inDirtyList := true, pageData := some original, hasBeenCopied := true }) := by
      intro t₃ b hset₃ hbytes
      have hboth := hset.trans hset₃
      rw [List.append_nil] at hboth
      have hclosed := hclose hboth hbase
      unfold PageObject.view at hclosed
      rw [Option.bind_some, hbytes] at hclosed
      exact hclosed
    subst hd₁
    by_cases hcopied : sp.hasBeenCopied = true
    · have hcopied' : (sp.view t.slab).hasBeenCopied = true := hcopied
      rw [if_pos hcopied, if_pos hcopied']
      exact hmarked
    have hcopied' : ¬(sp.view t.slab).hasBeenCopied = true := hcopied
    rw [if_neg hcopied, if_neg hcopied']
    cases hb : sp.pageData with
    | some b =>
      have hbuffer : bufferAt t.slab a = some b := by
        unfold bufferAt
        rw [hsp]
        exact hb
      have hbuffer₂ : bufferAt (t.markDirty a sp).slab a = some b := by
        unfold bufferAt
        rw [hset.entry]
        exact hb
      obtain ⟨bytes, hbytes⟩ := h.buffers a ha b hbuffer
      have hsome : ((sp.view t.slab).pageData.isSome || alloc) = true := by
        simp [PageObject.view, hb, hbytes]
      obtain ⟨hwrite, hwritten⟩ := write_sets hext.ok hset.found hset.entry hb original
      have hok := (extends_write hext.ok hext.sound (hext.pages a ha) hbuffer₂ original).ok
      have hcopy := hwrite.trans (modifyPage_sets (f := fun sp => { sp with hasBeenCopied := true }) hok hwrite.found hwrite.entry fun _ => rfl)
      rw [if_pos hsome]
      rw [hb] at hcopy
      exact hfilled hcopy (bytesAt_modify.trans hwritten)
    | none =>
      have hnone : (sp.view t.slab).pageData.isSome = false := by
        simp [PageObject.view, hb]
      rw [hnone, Bool.false_or]
      cases alloc with
      | false => exact hmarked
      | true =>
        have halloc := alloc_sets hext.ok hset.found hset.entry hext.sound (.pageData original)
        have hok := (hext.ok.alloc hext.sound (.pageData original)).1
        have hcopy := halloc.trans (modifyPage_sets
          (f := fun po => { po with pageData := some (t.markDirty a sp).slab.fresh, hasBeenCopied := true }) hok halloc.found halloc.entry
          fun _ => rfl)
        exact hfilled hcopy (bytesAt_modify.trans (bytesAt_eq_some.mpr Slab.alloc_obj_self))

theorem recordDirtyPages_represents (original : Nat → Page) (alloc : Nat → Bool) (addrs : List Nat) :
    Represents hash (t.recordDirtyPages hash original alloc addrs) (d.recordDirtyPages original alloc addrs) := by
  induction addrs generalizing t d with
  | nil => exact hr
  | cons addr addrs ih =>
    have hfirst := recordDirtyPage_extends h hs addr (original addr) (alloc addr)
    exact ih hfirst.ok hfirst.sound (recordDirtyPage_represents h hs hr addr (original addr) (alloc addr))

/-- `add_snapshot_page` gives an address on one side and the entry at this address on the other. -/
theorem addSnapshotPage_represents (attemptReuse alloc : Bool) :
    (t.addSnapshotPage hash page attemptReuse alloc = none ∧ d.addSnapshotPage page attemptReuse alloc = none) ∨
    ∃ t' a d' po, t.addSnapshotPage hash page attemptReuse alloc = some (t', a) ∧
      d.addSnapshotPage page attemptReuse alloc = some (d', po.view t'.slab) ∧ Represents hash t' d' ∧ po.pageBase = page ∧
      t'.getSnapshotPage hash page = some a ∧ pageAt t'.slab a = some po := by
  have hold : (if attemptReuse then d.getSnapshotPage page else none) =
      (if attemptReuse then t.getSnapshotPage hash page else none).bind fun a => (pageAt t.slab a).map (PageObject.view t.slab) := by
    cases attemptReuse with
    | true => exact hr.pages page
    | false => rfl
  unfold addSnapshotPage TaskData.addSnapshotPage
  rw [hold]
  cases hreuse : if attemptReuse then t.getSnapshotPage hash page else none with
  | some a =>
    have hget : t.getSnapshotPage hash page = some a := by
      cases attemptReuse with
      | true => exact hreuse
      | false => cases hreuse
    obtain ⟨ha, sp, hsp, hbase⟩ := (getSnapshotPage_eq_some h).mp hget
    have hset := modifyPage_sets (f := fun sp => { sp with
      pageProt := ⟨false, false, false⟩, hasBeenCopied := false, dirty := false, inDirtyList := false }) h hget hsp fun _ => rfl
    have hr' := hr.setPage hget hsp hset hbase
    refine Or.inr ⟨_, a, _, { sp with pageProt := ⟨false, false, false⟩, hasBeenCopied := false, dirty := false, inDirtyList := false },
      rfl, ?_, hr', hbase, hset.found, hset.entry⟩
    rw [Option.bind_some, hsp]
    show some (_, _) = some (_, _)
    rw [show PageObject.view (t.modifyPage a _).slab = PageObject.view t.slab from view_modify]
    rfl
  | none =>
    cases alloc with
    | false => exact Or.inl ⟨rfl, rfl⟩
    | true =>
      have hset : Sets hash page t.slab.fresh [] t _ ⟨page, ⟨false, false, false⟩, none, false, false, false, false⟩ := hashAdd_sets h hs rfl
      refine Or.inr ⟨_, _, _, _, rfl, rfl, ?_, rfl, hset.found, hset.entry⟩
      refine hr.set hset sameButPages_hashAdd (List.append_nil _).symm ?_ fun q hq => ?_
      · rw [getSnapshotPage_hashAdd]
        exact if_pos rfl
      · rw [getSnapshotPage_hashAdd]
        exact if_neg hq.symm

theorem makeSnapshotPage_represents (mm : Mm) (alloc : Bool) (hempty : t.node.dirtyPages = []) :
    Represents hash (t.makeSnapshotPage hash mm page alloc).1.1 (d.makeSnapshotPage mm page alloc).1.1 ∧
      (d.makeSnapshotPage mm page alloc).1.2 = (t.makeSnapshotPage hash mm page alloc).1.2 ∧
      (d.makeSnapshotPage mm page alloc).2 = (t.makeSnapshotPage hash mm page alloc).2 := by
  unfold makeSnapshotPage TaskData.makeSnapshotPage
  rcases addSnapshotPage_represents h hs hr true alloc with
    ⟨hno, hno'⟩ | ⟨t', a, d', po, hadd, hadd', hr', hbase, hget, hpo⟩
  · rw [hno, hno']
    exact ⟨hr, rfl, rfl⟩
  rw [hadd, hadd']
  have hok := (addSnapshotPage_added h hs hadd (Or.inr ⟨rfl, hempty⟩)).keeps.ok
  -- The protection that the page-table entry calls for.
  have hkind : ∀ f : PageObject → PageObject, (∀ sp, (f sp).pageBase = sp.pageBase) →
      Represents hash (t'.modifyPage a f) (d'.setPage ((f po).view t'.slab)) := fun f hf => by
    have hset := hr'.setPage hget hpo (modifyPage_sets hok hget hpo hf) ((hf po).trans hbase)
    rwa [show PageObject.view (t'.modifyPage a f).slab = PageObject.view t'.slab from view_modify] at hset
  dsimp only
  by_cases hnone : (mm.pte page).isNone = true
  · rw [if_pos hnone, if_pos hnone]
    exact ⟨hkind _ fun _ => rfl, rfl, rfl⟩
  rw [if_neg hnone, if_neg hnone]
  by_cases hwrite : (mm.pte page).write = true
  · rw [if_pos hwrite, if_pos hwrite]
    exact ⟨hkind _ fun _ => rfl, rfl, rfl⟩
  · rw [if_neg hwrite, if_neg hwrite]
    exact ⟨hkind _ fun _ => rfl, rfl, rfl⟩

omit hs in
theorem notePte_represents (hget : t.getSnapshotPage hash page = some a) (hpo : pageAt t.slab a = some po) :
    Represents hash (t.notePte a) (d.notePte (po.view t.slab)) := by
  obtain ⟨ha, sp, hsp, hbase⟩ := (getSnapshotPage_eq_some h).mp hget
  obtain rfl : sp = po := Option.some.inj (hsp.symm.trans hpo)
  have hset := modifyPage_sets (f := fun sp => { sp with hasHadPte := true }) h hget hpo fun _ => rfl
  have hok := h.modifyPage (f := fun sp => { sp with hasHadPte := true }) (a := a) (fun _ => rfl) (fun _ => rfl) fun _ _ => rfl
  have hview : PageObject.view (t.modifyPage a fun sp => { sp with hasHadPte := true }).slab = PageObject.view t.slab := view_modify
  have hold := (hr.pages page).trans (lookup_eq_some hget hpo)
  unfold notePte TaskData.notePte
  dsimp only
  rw [hset.entry]
  dsimp only
  by_cases hqueue : (({ sp with hasHadPte := true } : PageObject).isNonePte && !({ sp with hasHadPte := true } : PageObject).inDirtyList) = true
  · have hqueue' : (({ sp.view t.slab with hasHadPte := true } : SnapshotPage).isNonePte &&
      !({ sp.view t.slab with hasHadPte := true } : SnapshotPage).inDirtyList) = true := hqueue
    have hview' : PageObject.view ((t.modifyPage a fun sp => { sp with hasHadPte := true }).enqueue a).slab = PageObject.view t.slab :=
      view_modify.trans view_modify
    rw [if_pos hqueue, if_pos hqueue']
    refine hr.set (hset.trans (enqueue_sets hok hset.found hset.entry)) (sameButPages_setPage.trans sameButPages_addDirty) ?_ ?_ fun q hq => ?_
    · exact congrArg (d.ss.dirtyPages ++ [·]) hbase
    · rw [hview']
      exact getSnapshotPage_setPage_self hold hbase
    · exact getSnapshotPage_setPage_of_ne fun heq => hq (heq.trans hbase)
  · have hqueue' : ¬(({ sp.view t.slab with hasHadPte := true } : SnapshotPage).isNonePte &&
      !({ sp.view t.slab with hasHadPte := true } : SnapshotPage).inDirtyList) = true := hqueue
    rw [if_neg hqueue, if_neg hqueue']
    have hdata := hr.setPage hget hpo hset hbase
    rw [hview] at hdata
    exact hdata

include hs

theorem pageAddNewAnonRmap_represents (page : Nat) (alloc : Bool) :
    (t.pageAddNewAnonRmap hash page alloc = none ∧ d.pageAddNewAnonRmap page alloc = none) ∨
    ∃ t' d', t.pageAddNewAnonRmap hash page alloc = some t' ∧ d.pageAddNewAnonRmap page alloc = some d' ∧ Represents hash t' d' := by
  unfold pageAddNewAnonRmap TaskData.pageAddNewAnonRmap
  cases hget : t.getSnapshotPage hash page with
  | some a =>
    obtain ⟨-, sp, hsp, -⟩ := (getSnapshotPage_eq_some h).mp hget
    rw [hr.pages, lookup_eq_some hget hsp]
    exact Or.inr ⟨_, _, rfl, rfl, notePte_represents h hr hget hsp⟩
  | none =>
    have hvmas : d.isSnapshottedAddress page = t.view.isSnapshottedAddress page := (isSnapshottedAddress_congr hr.same).trans rfl
    rw [hr.pages, lookup_eq_none hget, hvmas]
    dsimp only
    by_cases hin : t.view.isSnapshottedAddress page = true
    swap
    · rw [if_neg hin, if_neg hin]
      exact Or.inr ⟨t, d, rfl, rfl, hr⟩
    rw [if_pos hin, if_pos hin]
    rcases addSnapshotPage_represents h hs hr false alloc with
      ⟨hno, hno'⟩ | ⟨t', a, d', po, hadd, hadd', hr', hbase, hget', hpo⟩
    · rw [hno, hno']
      exact Or.inl ⟨rfl, rfl⟩
    rw [hadd, hadd']
    have hadded := addSnapshotPage_added h hs hadd (Or.inl hget)
    have hset := modifyPage_sets (f := PageObject.setNonePte) hadded.keeps.ok hget' hpo fun _ => rfl
    have hok := (hadded.modifyPage (f := PageObject.setNonePte) (fun _ => rfl) (fun _ => rfl) fun _ => rfl).keeps.ok
    have hview : PageObject.view (t'.modifyPage a PageObject.setNonePte).slab = PageObject.view t'.slab := view_modify
    have hdata := hr'.setPage hget' hpo hset hbase
    have hnote := notePte_represents hok hdata hset.found hset.entry
    rw [hview] at hnote
    exact Or.inr ⟨_, _, rfl, rfl, hnote⟩

end
/-! ### The VMAs of a snapshot -/

section
variable (h : t.Ok hash)
include h

/-- The memory is as it was where the record's objects are. -/
theorem view_congr {slab : Slab Object} (hobj : ∀ x ∈ t.objects, slab.obj x = t.slab.obj x) : (⟨slab, t.node⟩ : TaskMemory).view = t.view := by
  have hvma : ∀ x ∈ t.node.allVmas, ssVmaAt slab x = ssVmaAt t.slab x := fun x hx => by
    unfold ssVmaAt
    rw [hobj x (mem_objects.mpr (Or.inl hx))]
  have hpage : ∀ x ∈ t.node.pages, pageAt slab x = pageAt t.slab x := fun x hx => by
    unfold pageAt
    rw [hobj x (mem_objects.mpr (Or.inr (Or.inl ⟨x, hx, Or.inr rfl⟩)))]
  have hentry : ∀ x ∈ t.node.pages, (pageAt slab x).map (PageObject.view slab) = (pageAt t.slab x).map (PageObject.view t.slab) := fun x hx => by
    rw [hpage x hx]
    obtain ⟨sp, hsp⟩ := h.entry hx
    rw [hsp]
    show some (sp.view slab) = some (sp.view t.slab)
    unfold PageObject.view
    cases hdata : sp.pageData with
    | none => rfl
    | some b =>
      have hbuffer : bufferAt t.slab x = some b := by
        unfold bufferAt
        rw [hsp]
        exact hdata
      rw [Option.bind_some, Option.bind_some]
      unfold bytesAt
      rw [hobj b (mem_objects.mpr (Or.inr (Or.inl ⟨x, hx, Or.inl hbuffer⟩)))]
  have hoffsets : t.node.offsets.bind (offsetsAt slab) = t.node.offsets.bind (offsetsAt t.slab) := by
    cases ho : t.node.offsets with
    | none => rfl
    | some x =>
      show offsetsAt slab x = offsetsAt t.slab x
      unfold offsetsAt
      rw [hobj x (mem_objects.mpr (Or.inr (Or.inr (Or.inr ho))))]
  have hall := List.filterMap_congr hvma
  have hsnap := List.filterMap_congr fun x hx => hvma x (h.snapshotted.subset hx)
  have hdirty := List.filterMap_congr fun x hx => congrArg (Option.map PageObject.pageBase) (hpage x (h.dirty x hx).1)
  have hpages := List.filterMap_congr hentry
  unfold view
  dsimp only
  rw [hall, hsnap, hoffsets, hdirty, hpages]

/-- Neither side changes its entries, and both change the rest in the same way. -/
theorem Represents.outline (h' : t'.Ok hash) (hr : Represents hash t d) (hsame : SameButFiles t'.view d')
    (hentries : t'.view.ss.ssPages = t.view.ss.ssPages) (hdirty : t'.view.ss.dirtyPages = t.view.ss.dirtyPages)
    (hentries' : d'.ss.ssPages = d.ss.ssPages) (hdirty' : d'.ss.dirtyPages = d.ss.dirtyPages) : Represents hash t' d' where
  same := hsame
  dirtyPages := by rw [hdirty', hr.dirtyPages, hdirty]
  pages page := by
    have hpage : d'.getSnapshotPage page = d.getSnapshotPage page := congrArg (Keyed.get SnapshotPage.pageBase · page) hentries'
    have hpage' : t'.view.getSnapshotPage page = t.view.getSnapshotPage page := congrArg (Keyed.get SnapshotPage.pageBase · page) hentries
    rw [hpage, hr.pages, ← view_getSnapshotPage h, ← hpage', view_getSnapshotPage h']

/-- The objects of the record are left as they are. -/
theorem Represents.congr {slab : Slab Object} (hr : Represents hash t d) (hobj : ∀ x ∈ t.objects, slab.obj x = t.slab.obj x) :
    Represents hash ⟨slab, t.node⟩ d := by
  have hview := view_congr h hobj
  exact hr.outline h (h.congr hobj).1 (hview ▸ hr.same) (by rw [hview]) (by rw [hview]) rfl rfl

/-- VMAs are added to the two lists on both sides. -/
theorem Represents.addVmas (hr : Represents hash t d) (as as' : List Nat) (l l' : List SnapshotVma) (h' : t'.Ok hash)
    (hobj : ∀ x ∈ t.objects, t'.slab.obj x = t.slab.obj x)
    (hnode : t'.node = { t.node with allVmas := t.node.allVmas ++ as, snapshottedVmas := t.node.snapshottedVmas ++ as' })
    (hl : as.filterMap (ssVmaAt t'.slab) = l) (hl' : as'.filterMap (ssVmaAt t'.slab) = l') (hd : d' = d.addVmas l l') :
    Represents hash t' d' := by
  have hview : t'.view = t.view.addVmas l l' := by
    rw [← view_congr h hobj, ← hl, ← hl']
    unfold TaskData.addVmas view
    rw [hnode]
    dsimp only
    rw [List.filterMap_append, List.filterMap_append]
    rfl
  subst hd
  refine hr.outline h h' ?_ ?_ ?_ rfl rfl <;> rw [hview]
  · exact hr.same.addVmas l l'
  · rfl
  · rfl

variable (hr : Represents hash t d)
include hr

theorem addSnapshotVma_represents (hs : t.slab.Sound) (vma : VmArea) (garbage : Nat) (alloc : Bool) :
    (t.addSnapshotVma vma garbage alloc = none ∧ d.addSnapshotVma vma garbage alloc = none) ∨
    ∃ t' a d' v, t.addSnapshotVma vma garbage alloc = some (t', a) ∧ d.addSnapshotVma vma garbage alloc = some (d', v) ∧
      Represents hash t' d' ∧ ssVmaAt t'.slab a = some v := by
  cases alloc with
  | false => exact Or.inl ⟨rfl, rfl⟩
  | true =>
    obtain ⟨t', a, hadd⟩ : ∃ t' a, t.addSnapshotVma vma garbage true = some (t', a) := ⟨_, _, rfl⟩
    obtain ⟨hext, -, heq⟩ := addSnapshotVma_extends h hs hadd
    obtain ⟨rfl, rfl⟩ := Prod.mk.inj (Option.some.inj hadd)
    have hnew : ssVmaAt (t.slab.alloc (.snapshotVma (TaskData.snapshotVmaOf vma garbage))).1 t.slab.fresh =
        some (TaskData.snapshotVmaOf vma garbage) := ssVmaAt_eq_some.mpr Slab.alloc_obj_self
    refine Or.inr ⟨_, _, _, _, rfl, rfl, hr.addVmas h [t.slab.fresh] [] [TaskData.snapshotVmaOf vma garbage] [] hext.ok
      (fun x hx => Slab.alloc_obj_of_ne (h.lt_fresh hs hx).ne) ?_ ?_ rfl ?_, hnew⟩
    · rw [List.append_nil]
      rfl
    · rw [List.filterMap_cons, hnew]
      rfl
    · unfold TaskData.addVmas
      rw [List.append_nil]

theorem addSnapshotted_represents {v : SnapshotVma} (hok : (t.addSnapshotted a).Ok hash) (hv : ssVmaAt t.slab a = some v) :
    Represents hash (t.addSnapshotted a) { d with ss := { d.ss with snapshottedVmas := d.ss.snapshottedVmas ++ [v] } } := by
  refine hr.addVmas h [] [a] [] [v] hok (fun _ _ => rfl) ?_ rfl ?_ ?_
  · rw [List.append_nil]
    rfl
  · show List.filterMap (ssVmaAt t.slab) [a] = [v]
    rw [List.filterMap_cons, hv]
    rfl
  · unfold TaskData.addVmas
    rw [List.append_nil]

end

end TaskMemory

/-! ### Take -/

namespace TakeState
open PageWalk TaskMemory

variable {hash : Nat → Fin 256} {s : TakeState} {w : WalkState}

/-- The state of the walk on both sides. -/
structure Represents (hash : Nat → Fin 256) (s : TakeState) (w : WalkState) : Prop where
  ok : s.t.Ok hash
  sound : s.t.slab.Sound
  unqueued : s.t.node.dirtyPages = []
  data : TaskMemory.Represents hash s.t w.data
  mm : w.mm = s.mm
  walkData : w.walkData = s.walkData

theorem Represents.checkRange (h : Represents hash s w) (addr next : Nat) :
    snapshotWalkCheckRange w.data addr next w.walkData = snapshotWalkCheckRange s.t.view addr next s.walkData := by
  have hconfig : w.data.config = s.t.view.config := (congrArg TaskData.config h.data.same).trans rfl
  have hranges : w.data.ranges = s.t.view.ranges := (congrArg TaskData.ranges h.data.same).trans rfl
  rw [h.walkData]
  exact checkRange_congr hconfig hranges _

theorem Represents.setWalkData (h : Represents hash s w) (walkData : SnapshotWalkData) :
    Represents hash { s with walkData } { w with walkData } := ⟨h.ok, h.sound, h.unqueued, h.data, h.mm, rfl⟩

theorem pteEntry_represents (alloc : Nat → Bool) (addr next : Nat) (h : Represents hash s w) :
    (snapshotPteEntry alloc addr next w).2 = (pteEntry hash alloc addr next s).2 ∧
      Represents hash (pteEntry hash alloc addr next s).1 (snapshotPteEntry alloc addr next w).1 := by
  have hset := h.setWalkData (snapshotWalkCheckRange s.t.view addr next s.walkData).1
  unfold pteEntry snapshotPteEntry
  rw [h.checkRange]
  dsimp only
  split
  · exact ⟨rfl, hset⟩
  · obtain ⟨hdata, hmm, hres⟩ := @makeSnapshotPage_represents hash s.t w.data addr h.ok h.sound h.data s.mm (alloc addr) h.unqueued
    obtain ⟨hext, hnode⟩ := @makeSnapshotPage_extends hash s.t addr h.ok h.sound s.mm (alloc addr) h.unqueued
    rw [h.mm]
    refine ⟨hres, hext.ok, hext.sound, ?_, hdata, hmm, rfl⟩
    dsimp only
    rw [hnode]
    exact h.unqueued

theorem upperEntry_simulates (l : Level pageSize) : Stage.Simulates (Represents hash) ⟨l, upperEntry⟩ ⟨l, snapshotUpperEntry⟩ where
  level := rfl
  entry addr next s w h := by
    have hset := h.setWalkData (snapshotWalkCheckRange s.t.view addr next s.walkData).1
    rw [← h.checkRange] at hset
    refine ⟨rfl, ?_⟩
    unfold upperEntry snapshotUpperEntry
    dsimp only
    rw [← h.checkRange]
    exact hset

theorem lowerEntry_simulates (l : Level pageSize) : Stage.Simulates (Represents hash) ⟨l, lowerEntry⟩ ⟨l, snapshotLowerEntry⟩ where
  level := rfl
  entry addr next s w h := by
    have hset := h.setWalkData (snapshotWalkCheckRange s.t.view addr next s.walkData).1
    unfold lowerEntry snapshotLowerEntry
    dsimp only
    rw [h.checkRange]
    exact ⟨rfl, hset⟩

theorem walkPageVma_represents (alloc : Nat → Bool) (vma : VmArea) (h : Represents hash s w) :
    (AflSnapshot.walkPageVma alloc vma w).2 = (walkPageVma hash alloc vma s).2 ∧
      Represents hash (walkPageVma hash alloc vma s).1 (AflSnapshot.walkPageVma alloc vma w).1 := by
  unfold walkPageVma AflSnapshot.walkPageVma
  refine walk_simulates ?_ (fun a e s w hs => pteEntry_represents alloc a e hs) _ _ h
  unfold walkOps snapshotWalkOps
  rw [h.mm]
  exact .cons (upperEntry_simulates _) (.cons (upperEntry_simulates _)
    (.cons (lowerEntry_simulates _) (.cons (lowerEntry_simulates _) .nil)))

theorem takeVmas_represents (alloc : TakeAlloc) (vmas : List VmArea) (h : Represents hash s w) :
    (AflSnapshot.takeVmas alloc vmas w).2 = (takeVmas hash alloc vmas s).2 ∧
      Represents hash (takeVmas hash alloc vmas s).1 (AflSnapshot.takeVmas alloc vmas w).1 := by
  induction vmas generalizing s w with
  | nil => exact ⟨rfl, h⟩
  | cons vma vmas ih =>
    rw [takeVmas, AflSnapshot.takeVmas]
    rcases addSnapshotVma_represents h.ok h.data h.sound vma (alloc.garbage vma.vmStart) (alloc.snapshotVma vma.vmStart) with
      ⟨hno, hno'⟩ | ⟨t, a, d, v, hadd, hadd', hdata, hv⟩
    · rw [hno, hno']
      exact ⟨rfl, h⟩
    rw [hadd, hadd']
    dsimp only
    obtain ⟨hext, hall, heq⟩ := addSnapshotVma_extends h.ok h.sound hadd
    have hqueue : t.node.dirtyPages = [] := by
      rw [heq]
      exact h.unqueued
    have hlisted : Represents hash { s with t } { w with data := d } := ⟨hext.ok, hext.sound, hqueue, hdata, h.mm, h.walkData⟩
    have hskip : skipsVma d w.mm vma = skipsVma t.view s.mm vma :=
      skipsVma_congr ((congrArg TaskData.config hdata.same).trans rfl) ((congrArg TaskData.ranges hdata.same).trans rfl) (by rw [h.mm]) vma
    rw [hskip]
    split
    · exact ih hlisted
    -- The VMA is walked.
    have hsub : t.node.snapshottedVmas.Sublist s.t.node.allVmas := by
      rw [heq]
      exact h.ok.snapshotted
    have hlinked := extends_addSnapshotted hext.ok hext.sound hall hsub
    have hstart : Represents hash { s with t := t.addSnapshotted a }
        { w with data := { d with ss := { d.ss with snapshottedVmas := d.ss.snapshottedVmas ++ [v] } } } :=
      ⟨hlinked.ok, hlinked.sound, hqueue, addSnapshotted_represents hext.ok hdata hlinked.ok hv, h.mm, h.walkData⟩
    obtain ⟨hres, hwalked⟩ := walkPageVma_represents alloc.snapshotPage vma hstart
    rw [hres]
    split
    · exact ih hwalked
    · exact ⟨hres, hwalked⟩

end TakeState

namespace TaskMemory
variable {hash : Nat → Fin 256} {t : TaskMemory} {d : TaskData}

theorem takeMemorySnapshot_represents (h : t.Ok hash) (hs : t.slab.Sound) (hr : Represents hash t d) (hempty : t.node.dirtyPages = [])
    (alloc : TakeAlloc) (mm : Mm) :
    Represents hash (t.takeMemorySnapshot hash alloc mm) (AflSnapshot.takeMemorySnapshot alloc d mm).1.1 :=
  (TakeState.takeVmas_represents (w := ⟨d, mm, ⟨0, 0⟩⟩) alloc mm.mmap ⟨h, hs, hempty, hr, rfl, rfl⟩).2.data

/-! ### Other changes of a record -/

section
variable {a page : Nat} {sp : PageObject} {f : PageObject → PageObject} {g : SnapshotPage → SnapshotPage}

/-- An entry changes on both sides, and keeps its place and its buffer. -/
theorem modifyPage_represents (h : t.Ok hash) (hr : Represents hash t d) (hget : t.getSnapshotPage hash page = some a)
    (hbase : ∀ sp, (f sp).pageBase = sp.pageBase) (hkey : ∀ sp, (g sp).pageBase = sp.pageBase)
    (hview : ∀ sp slab, (f sp).view slab = g (sp.view slab)) : Represents hash (t.modifyPage a f) (d.modifyPage page g) := by
  obtain ⟨ha, sp, hsp, -⟩ := (getSnapshotPage_eq_some h).mp hget
  refine hr.set (modifyPage_sets h hget hsp hbase) sameButPages_modifyPage (List.append_nil _).symm ?_ fun q hq => ?_
  · rw [AflSnapshot.getSnapshotPage_modifyPage hkey, if_pos rfl, hr.pages, lookup_eq_some hget hsp, Option.map_some, ← hview]
    show _ = some ((f sp).view (t.slab.modify a (Object.mapPage f)))
    rw [view_modify]
  · rw [AflSnapshot.getSnapshotPage_modifyPage hkey, if_neg hq]

/-- An element of a list goes from the list and from its image. -/
theorem filterMap_erase {l : List Nat} {k : Nat → Option Nat} (ha : k a = some page) (hone : ∀ x ∈ l, k x = some page → x = a) :
    (l.erase a).filterMap k = (l.filterMap k).erase page := by
  induction l with
  | nil => rfl
  | cons x l ih =>
    obtain ⟨hx, hl⟩ := List.forall_mem_cons.mp hone
    by_cases heq : x = a
    · rw [heq, List.erase_cons_head, List.filterMap_cons_some ha, List.erase_cons_head]
    · have hne : k x ≠ some page := fun hk => heq (hx hk)
      rw [List.erase_cons_tail (by simpa using heq)]
      cases hk : k x with
      | none => rw [List.filterMap_cons_none hk, List.filterMap_cons_none hk, ih hl]
      | some y =>
        have hy : y ≠ page := fun hy => hne (hy ▸ hk)
        rw [List.filterMap_cons_some hk, List.filterMap_cons_some hk, List.erase_cons_tail (by simpa using hy), ih hl]

theorem dequeue_represents (h : t.Ok hash) (hr : Represents hash t d) (hget : t.getSnapshotPage hash page = some a) :
    Represents hash (t.dequeue a) ((d.modifyPage page SnapshotPage.leaveDirtyList).delDirty page) := by
  obtain ⟨ha, sp, hsp, hbase⟩ := (getSnapshotPage_eq_some h).mp hget
  have hleave := modifyPage_represents (f := fun sp => { sp with inDirtyList := false }) (g := SnapshotPage.leaveDirtyList) h hr hget
    (fun _ => rfl) (fun _ => rfl) fun _ _ => rfl
  have hset := modifyPage_sets (f := fun sp => { sp with inDirtyList := false }) h hget hsp fun _ => rfl
  refine ⟨hleave.same.trans sameButPages_delDirty.butFiles, ?_, hleave.pages⟩
  show (d.modifyPage page SnapshotPage.leaveDirtyList).ss.dirtyPages.erase page = _
  rw [hleave.dirtyPages]
  symm
  refine filterMap_erase ?_ fun x hx hkey => ?_
  · exact (congrArg (Option.map PageObject.pageBase) hset.entry).trans (congrArg some hbase)
  · -- No other entry of the dirty list is for the page.
    obtain ⟨sp', hsp', hbase'⟩ := Option.map_eq_some_iff.mp hkey
    have hin := (h.dirty x hx).1
    have hold : pageAt (t.slab.modify a (Object.mapPage fun sp => { sp with inDirtyList := false })) x = some sp' := hsp'
    rw [pageAt_modify] at hold
    split at hold
    · assumption
    · exact h.keys x hin a ha sp' sp hold hsp (hbase'.trans hbase.symm)

end

theorem initializeSnapshot_represents (h : t.Ok hash) (hr : Represents hash t d) (config : Nat) (regs : PtRegs) (brk : Nat) :
    Represents hash (t.initializeSnapshot config regs brk)
      { d with config, ss := { d.ss with had := true, made := true, regs, oldbrk := brk } } := by
  refine hr.outline h { h with } ?_ rfl rfl rfl rfl
  have hsame := hr.same
  unfold SameButFiles SameButPages at *
  rw [hsame]
  rfl

theorem ranges_represents (h : t.Ok hash) (hr : Represents hash t d) (f : RangeLists → RangeLists) :
    Represents hash ⟨t.slab, { t.node with ranges := f t.node.ranges }⟩ { d with ranges := f d.ranges } := by
  refine hr.outline h { h with } ?_ rfl rfl rfl rfl
  have hsame := hr.same
  unfold SameButFiles SameButPages at *
  rw [hsame]
  rfl

theorem putFilesStruct_obj_of_ne {slab : Slab Object} {a x : Nat} (hx : x ≠ a) : (putFilesStruct slab a).obj x = slab.obj x := by
  unfold putFilesStruct
  split
  · split
    · rw [Slab.free_obj, if_neg hx]
    · exact Slab.modify_obj_of_ne hx
  · rfl

/-- Taking the files writes new memory only. -/
theorem takeFilesSnapshot_below (env : Env) (fs : Files) (n : Nat) :
    (∀ x < t.slab.fresh, (t.takeFilesSnapshot env fs n).1.slab.obj x = t.slab.obj x) ∧
      ∃ files offsets, (t.takeFilesSnapshot env fs n).1.node = { t.node with files, offsets } := by
  unfold takeFilesSnapshot
  split
  swap
  · exact ⟨fun _ _ => rfl, none, none, rfl⟩
  split
  swap
  · exact ⟨fun _ _ => rfl, t.node.files, t.node.offsets, rfl⟩
  dsimp only
  generalize resizeFds env.fdtSize (fs.filesStruct n).fds = fds
  have hcopy : ∀ x < t.slab.fresh, (t.slab.alloc (.filesStruct ⟨1, fds⟩)).1.obj x = t.slab.obj x := fun x hx =>
    Slab.alloc_obj_of_ne hx.ne
  split
  swap
  · refine ⟨fun x hx => ?_, t.node.files, t.node.offsets, rfl⟩
    exact (putFilesStruct_obj_of_ne hx.ne).trans (hcopy x hx)
  generalize List.replicate fds.length (-1 : Int) = blank
  generalize iterateFd fs.saveFileOffset fds 0 blank = r
  have harray : ∀ x < t.slab.fresh, (((t.slab.alloc (.filesStruct ⟨1, fds⟩)).1.alloc (.offsets blank)).1.modify (t.slab.fresh + 1)
      fun _ => .offsets r.1).obj x = t.slab.obj x := fun x hx => by
    rw [Slab.modify_obj_of_ne (by omega), ← hcopy x hx]
    exact Slab.alloc_obj_of_ne (Nat.lt_succ_of_lt hx).ne
  split
  · exact ⟨harray, _, _, rfl⟩
  · refine ⟨fun x hx => ?_, t.node.files, t.node.offsets, rfl⟩
    refine (Slab.free_obj ..).trans ?_
    rw [Slab.alloc_addr, Slab.alloc_addr, Slab.alloc_fresh, if_neg (Nat.lt_succ_of_lt hx).ne, putFilesStruct_obj_of_ne hx.ne]
    exact harray x hx

theorem takeFilesSnapshot_represents (h : t.Ok hash) (hs : t.slab.Sound) (hr : Represents hash t d) (env : Env) (fs : Files) (n : Nat)
    (hok : (t.takeFilesSnapshot env fs n).1.Ok hash) (ssFiles : OpenFilesSnapshot) :
    Represents hash (t.takeFilesSnapshot env fs n).1 { d with ss := { d.ss with ssFiles } } := by
  obtain ⟨hbelow, files, offsets, hnode⟩ := takeFilesSnapshot_below (t := t) env fs n
  have hview := view_congr h fun x hx => hbelow x (h.lt_fresh hs hx)
  have hview' : (t.takeFilesSnapshot env fs n).1.view = { t.view with ss := { t.view.ss with
      ssFiles := (t.takeFilesSnapshot env fs n).1.view.ss.ssFiles } } := by
    rw [← hview]
    unfold view
    rw [hnode]
    rfl
  refine hr.outline h hok ?_ (by rw [hview']) (by rw [hview']) rfl rfl
  have hsame := hr.same
  rw [hview']
  unfold SameButFiles SameButPages at *
  rw [hsame]

/-- What a record without a snapshot leads to. -/
theorem new_represents (slab : Slab Object) (tsk : Nat) : Represents hash ⟨slab, .new tsk⟩ (.new tsk) where
  same := rfl
  dirtyPages := rfl
  pages _ := rfl

/-! ### Entries keep their pages -/

/-- Every entry is still there, for the page that it was for. -/
def SameBases (slab slab' : Slab Object) : Prop :=
  ∀ a sp, pageAt slab a = some sp → ∃ sp', pageAt slab' a = some sp' ∧ sp'.pageBase = sp.pageBase

section
variable {slab slab' slab'' : Slab Object} {t' : TaskMemory} {a page : Nat} {f : PageObject → PageObject} {o : Object} {bytes original : Page}

theorem SameBases.refl (slab : Slab Object) : SameBases slab slab := fun _ sp hsp => ⟨sp, hsp, rfl⟩

theorem SameBases.trans (h : SameBases slab slab') (h' : SameBases slab' slab'') : SameBases slab slab'' := fun a sp hsp => by
  obtain ⟨sp', hsp', hbase'⟩ := h a sp hsp
  obtain ⟨sp'', hsp'', hbase''⟩ := h' a sp' hsp'
  exact ⟨sp'', hsp'', hbase''.trans hbase'⟩

theorem sameBases_modify (hf : ∀ sp, (f sp).pageBase = sp.pageBase) : SameBases slab (slab.modify a (Object.mapPage f)) := fun b sp hsp => by
  rw [pageAt_modify, hsp]
  split
  · exact ⟨f sp, rfl, hf sp⟩
  · exact ⟨sp, rfl, rfl⟩

theorem sameBases_alloc (hs : slab.Sound) : SameBases slab (slab.alloc o).1 := fun a sp hsp => by
  have hlt := hs.below a _ (pageAt_eq_some.mp hsp)
  refine ⟨sp, ?_, rfl⟩
  rw [pageAt_eq_some] at hsp ⊢
  exact (Slab.alloc_obj_of_ne hlt.ne).trans hsp

/-- A buffer is filled. -/
theorem sameBases_write (hb : bytesAt slab a = some bytes) : SameBases slab (slab.modify a fun _ => .pageData original) := fun b sp hsp => by
  have hne : b ≠ a := fun heq => by
    rw [heq, pageAt_eq_some, bytesAt_eq_some.mp hb] at hsp
    cases hsp
  refine ⟨sp, ?_, rfl⟩
  rw [pageAt_eq_some] at hsp ⊢
  exact (Slab.modify_obj_of_ne hne).trans hsp

theorem sameBases_enqueue : SameBases t.slab (t.enqueue a).slab := sameBases_modify fun _ => rfl

theorem sameBases_dequeue : SameBases t.slab (t.dequeue a).slab := sameBases_modify fun _ => rfl

theorem markDirty_bases (a : Nat) (sp : PageObject) : SameBases t.slab (t.markDirty a sp).slab := by
  have hmark : SameBases t.slab (t.modifyPage a fun sp => { sp with dirty := true }).slab := sameBases_modify fun _ => rfl
  unfold markDirty
  dsimp only
  split
  · exact hmark
  · exact hmark.trans sameBases_enqueue

theorem recordDirtyPage_bases (h : t.Ok hash) (hs : t.slab.Sound) (page : Nat) (original : Page) (alloc : Bool) :
    SameBases t.slab (t.recordDirtyPage hash page original alloc).1.slab := by
  unfold recordDirtyPage
  cases hget : t.getSnapshotPage hash page with
  | none => exact .refl _
  | some a =>
    obtain ⟨ha, sp, hsp, -⟩ := (getSnapshotPage_eq_some h).mp hget
    obtain ⟨hext, hentry⟩ := markDirty_extends h hs ha hsp
    have hmark := markDirty_bases (t := t) a sp
    dsimp only
    rw [hsp]
    dsimp only
    split
    · exact .refl _
    show SameBases t.slab (if sp.hasBeenCopied = true then (t.markDirty a sp, some a) else _ : TaskMemory × Option Nat).1.slab
    split
    · exact hmark
    cases hb : sp.pageData with
    | some b =>
      have hbuffer : bufferAt (t.markDirty a sp).slab a = some b := by
        unfold bufferAt
        rw [hentry]
        exact hb
      obtain ⟨bytes, hbytes⟩ := hext.ok.buffers a (hext.pages a ha) b hbuffer
      exact (hmark.trans (sameBases_write hbytes)).trans (sameBases_modify fun _ => rfl)
    | none =>
      cases alloc with
      | false => exact hmark
      | true => exact (hmark.trans (sameBases_alloc hext.sound)).trans (sameBases_modify fun _ => rfl)

theorem recordDirtyPages_bases (h : t.Ok hash) (hs : t.slab.Sound) (original : Nat → Page) (alloc : Nat → Bool) (addrs : List Nat) :
    SameBases t.slab (t.recordDirtyPages hash original alloc addrs).slab := by
  induction addrs generalizing t with
  | nil => exact .refl _
  | cons addr addrs ih =>
    have hfirst := recordDirtyPage_extends h hs addr (original addr) (alloc addr)
    exact (recordDirtyPage_bases h hs addr (original addr) (alloc addr)).trans (ih hfirst.ok hfirst.sound)

theorem notePte_bases (a : Nat) : SameBases t.slab (t.notePte a).slab := by
  have hmark : SameBases t.slab (t.modifyPage a fun sp => { sp with hasHadPte := true }).slab := sameBases_modify fun _ => rfl
  unfold notePte
  dsimp only
  split
  · split
    · exact hmark.trans sameBases_enqueue
    · exact hmark
  · exact hmark

theorem addSnapshotPage_bases (hs : t.slab.Sound) {attemptReuse alloc : Bool}
    (hadd : t.addSnapshotPage hash page attemptReuse alloc = some (t', a)) : SameBases t.slab t'.slab := by
  unfold addSnapshotPage at hadd
  split at hadd
  · obtain ⟨rfl, -⟩ := Prod.mk.inj (Option.some.inj hadd)
    exact sameBases_modify fun _ => rfl
  · cases alloc with
    | false => cases hadd
    | true =>
      obtain ⟨rfl, -⟩ := Prod.mk.inj (Option.some.inj hadd)
      exact sameBases_alloc hs

theorem pageAddNewAnonRmap_bases (hs : t.slab.Sound) {alloc : Bool} (hadd : t.pageAddNewAnonRmap hash page alloc = some t') :
    SameBases t.slab t'.slab := by
  unfold pageAddNewAnonRmap at hadd
  cases hget : t.getSnapshotPage hash page with
  | some a =>
    rw [hget] at hadd
    obtain rfl := Option.some.inj hadd
    exact notePte_bases a
  | none =>
    rw [hget] at hadd
    dsimp only at hadd
    split at hadd
    swap
    · obtain rfl := Option.some.inj hadd
      exact .refl _
    cases hnew : t.addSnapshotPage hash page false alloc with
    | none =>
      rw [hnew] at hadd
      cases hadd
    | some r =>
      rw [hnew] at hadd
      obtain rfl := Option.some.inj hadd
      have hadded := addSnapshotPage_bases hs (a := r.2) hnew
      have hnone : SameBases r.1.slab (r.1.modifyPage r.2 PageObject.setNonePte).slab := sameBases_modify fun _ => rfl
      exact (hadded.trans hnone).trans (notePte_bases r.2)

end

end TaskMemory
end AflSnapshot
