import AflSnapshot.Theorems.OpenFiles

/-! # Takes in which something fails

`take_snapshot` does not ask its parts whether they came through. A take is whole if and only if every allocation that
it makes is: the ones for the record, for each VMA, for each page that the filter selects, and for the files. -/

namespace AflSnapshot
open PageWalk

/-- The same take, with memory for all VMAs and pages. -/
def TakeAlloc.full (alloc : TakeAlloc) : TakeAlloc :=
  { alloc with snapshotVma := fun _ => true, snapshotPage := fun _ => true }

/-- A page has an entry that there was no memory for. -/
def Starved (alloc : TakeAlloc) (s : WalkState) : Prop :=
  ∃ p, alloc.snapshotPage p = false ∧ (s.data.getSnapshotPage p).isSome

/-- The record with one more VMA, which is walked or not. -/
def TaskData.linkVma (data : TaskData) (ssVma : SnapshotVma) (walked : Bool) : TaskData :=
  { data with ss := { data.ss with
      allVmas := data.ss.allVmas ++ [ssVma]
      snapshottedVmas := match walked with
        | true => data.ss.snapshottedVmas ++ [ssVma]
        | false => data.ss.snapshottedVmas } }

/-- What a walk changes keeps `P`. -/
structure WalkKeeps (alloc : TakeAlloc) (P : WalkState → Prop) : Prop where
  cached : ∀ s w, P s → P { s with walkData := w }
  page : ∀ s p, P s → P { s with
    data := (s.data.makeSnapshotPage s.mm p (alloc.snapshotPage p)).1.1
    mm := (s.data.makeSnapshotPage s.mm p (alloc.snapshotPage p)).1.2 }
  vma : ∀ s v walked, alloc.snapshotVma v.vmStart = true → P s →
    P { s with data := s.data.linkVma (TaskData.snapshotVmaOf v (alloc.garbage v.vmStart)) walked }

section
variable {alloc : TakeAlloc} {data : TaskData} {mm : Mm} {v : VmArea} {vmas : List VmArea} {s : WalkState}
  {P : WalkState → Prop} {p : Nat}

/-! ### Invariants of a take -/

/-- `make_snapshot_page` finds an entry or memory for one, or does nothing. -/
theorem makeSnapshotPage_cases (data : TaskData) (mm : Mm) (a : Nat) (ok : Bool) :
    (∃ sp data', PageAdded data a sp data' ∧ (ok = true ∨ (data.getSnapshotPage a).isSome) ∧
      data.makeSnapshotPage mm a ok = ((data', mm.setPte a (mm.pte a).wrprotect), 0)) ∨
    ok = false ∧ data.getSnapshotPage a = none ∧ data.makeSnapshotPage mm a ok = ((data, mm), -12) := by
  rcases makeSnapshotPage_spec mm ok with ⟨data', hadd, hmake⟩ | ⟨hfail, hmake⟩
  · refine Or.inl ⟨_, data', hadd, ?_, hmake⟩
    by_cases hok : ok = true
    · exact Or.inl hok
    · refine Or.inr ?_
      by_contra hnone
      have hnone : data.getSnapshotPage a = none := by simpa using hnone
      simp [TaskData.makeSnapshotPage, TaskData.addSnapshotPage, hnone, hok] at hmake
  · refine Or.inr ⟨hfail, ?_, hmake⟩
    by_contra hsome
    obtain ⟨sp, hsp⟩ := Option.ne_none_iff_exists'.mp hsome
    have hzero : (data.makeSnapshotPage mm a ok).2 = 0 := by
      simp only [TaskData.makeSnapshotPage, TaskData.addSnapshotPage, hsp, ↓reduceIte]
      split
      · rfl
      · split <;> rfl
    rw [hmake] at hzero
    cases hzero

theorem WalkKeeps.entries (h : WalkKeeps alloc P) (mm : Mm) :
    ∀ g ∈ snapshotWalkOps mm, ∀ a e s, P s → P (g.entry a e s).1 := by
  intro g hg a e s hs
  simp only [snapshotWalkOps, List.mem_cons, List.not_mem_nil, or_false] at hg
  rcases hg with rfl | rfl | rfl | rfl <;> exact h.cached s _ hs

theorem WalkKeeps.leaf (h : WalkKeeps alloc P) (a e : Nat) (s : WalkState) (hs : P s) :
    P (snapshotPteEntry alloc.snapshotPage a e s).1 := by
  simp only [snapshotPteEntry]
  split
  · exact h.cached s _ hs
  · exact h.page { s with walkData := _ } a (h.cached s (snapshotWalkCheckRange s.data a e s.walkData).1 hs)

theorem WalkKeeps.walkVma (h : WalkKeeps alloc P) (hs : P s) : P (walkPageVma alloc.snapshotPage v s).1 :=
  walk_keeps (h.entries s.mm) h.leaf _ _ hs

theorem WalkKeeps.takeVmas (h : WalkKeeps alloc P) (vmas : List VmArea) (hs : P s) : P (takeVmas alloc vmas s).1 := by
  induction vmas generalizing s with
  | nil => exact hs
  | cons v vmas ih =>
    rw [AflSnapshot.takeVmas]
    unfold TaskData.addSnapshotVma
    by_cases hv : alloc.snapshotVma v.vmStart = true
    swap
    · rw [if_neg hv]
      exact hs
    rw [if_pos hv]
    dsimp only
    split
    · exact ih (h.vma s v false hv hs)
    · have hlinked := h.walkVma (v := v) (h.vma s v true hv hs)
      split
      · exact ih hlinked
      · exact hlinked

theorem makeSnapshotPage_isSome (h : (data.getSnapshotPage p).isSome) (mm : Mm) (a : Nat) (ok : Bool) :
    ((data.makeSnapshotPage mm a ok).1.1.getSnapshotPage p).isSome := by
  rcases makeSnapshotPage_cases data mm a ok with ⟨sp, data', hadd, -, hmake⟩ | ⟨-, -, hmake⟩ <;> rw [hmake]
  · by_cases hp : p = a
    · rw [hp, hadd.entry]
      rfl
    · rw [hadd.others p hp]
      exact h
  · exact h

theorem starved_kept (alloc alloc' : TakeAlloc) : WalkKeeps alloc' (Starved alloc) where
  cached _ _ h := h
  page s a := fun ⟨p, hp, hsome⟩ => ⟨p, hp, makeSnapshotPage_isSome hsome s.mm a _⟩
  vma _ _ _ _ h := h

variable (alloc) in
/-- No entry is made without memory for it. -/
theorem fed_kept : WalkKeeps alloc fun s => ∀ p, (s.data.getSnapshotPage p).isSome → alloc.snapshotPage p = true where
  cached _ _ h := h
  page s a h p hsome := by
    rcases makeSnapshotPage_cases s.data s.mm a (alloc.snapshotPage a) with ⟨sp, data', hadd, hfed, hmake⟩ | ⟨-, -, hmake⟩ <;>
      simp only [hmake] at hsome
    · by_cases hp : p = a
      · subst hp
        exact hfed.elim id (h p)
      · rw [hadd.others p hp] at hsome
        exact h p hsome
    · exact h p hsome
  vma _ _ _ _ h := h

variable (alloc) in
theorem vmasFed_kept : WalkKeeps alloc fun s => ∀ sv ∈ s.data.ss.allVmas, alloc.snapshotVma sv.vmStart = true where
  cached _ _ h := h
  page s a h := by
    rcases makeSnapshotPage_cases s.data s.mm a (alloc.snapshotPage a) with ⟨sp, data', hadd, -, hmake⟩ | ⟨-, -, hmake⟩ <;>
      simp only [hmake]
    · rw [hadd.same]
      exact h
    · exact h
  vma s v linked hv h sv hsv := by
    rcases List.mem_append.mp hsv with hsv | hsv
    · exact h sv hsv
    · rw [List.mem_singleton.mp hsv]
      exact hv

variable (alloc) in
theorem tsk_kept (tsk : Nat) : WalkKeeps alloc fun s => s.data.tsk = tsk where
  cached _ _ h := h
  page s a h := by
    rcases makeSnapshotPage_cases s.data s.mm a (alloc.snapshotPage a) with ⟨sp, data', hadd, -, hmake⟩ | ⟨-, -, hmake⟩ <;>
      simp only [hmake]
    · rw [hadd.same]
      exact h
    · exact h
  vma _ _ _ _ h := h

/-! ### The first failure -/

/-- A page that there is no memory for ends the walk, and gets an entry where there is. -/
theorem leaf_agrees (a e : Nat) (s : WalkState) :
    snapshotPteEntry alloc.snapshotPage a e s = snapshotPteEntry alloc.full.snapshotPage a e s ∨
      (snapshotPteEntry alloc.snapshotPage a e s).2 ≠ 0 ∧
        Starved alloc (snapshotPteEntry alloc.full.snapshotPage a e s).1 := by
  by_cases halloc : alloc.snapshotPage a = true
  · refine Or.inl ?_
    simp only [snapshotPteEntry, TakeAlloc.full, halloc]
  have halloc : alloc.snapshotPage a = false := by simpa using halloc
  simp only [snapshotPteEntry, TakeAlloc.full, halloc]
  split
  · exact Or.inl rfl
  rcases makeSnapshotPage_cases s.data s.mm a true with ⟨sp, data', hadd, -, hmake⟩ | ⟨hfalse, -⟩
  swap
  · cases hfalse
  rcases makeSnapshotPage_cases s.data s.mm a false with ⟨-, -, -, hsome, -⟩ | ⟨-, -, hfail⟩
  · -- The entry is there already.
    obtain ⟨old, hold⟩ := Option.isSome_iff_exists.mp (hsome.resolve_left (by simp))
    refine Or.inl ?_
    simp [TaskData.makeSnapshotPage, TaskData.addSnapshotPage, hold]
  · refine Or.inr ⟨?_, a, halloc, ?_⟩
    · rw [hfail]
      exact Int.negSucc_ne_zero 11
    · simp only [hmake]
      rw [hadd.entry]
      rfl

theorem full_leaf (a e : Nat) (s : WalkState) : (snapshotPteEntry alloc.full.snapshotPage a e s).2 = 0 := by
  simp only [snapshotPteEntry, TakeAlloc.full]
  split
  · rfl
  · rcases makeSnapshotPage_cases s.data s.mm a true with ⟨sp, data', -, -, hmake⟩ | ⟨hfalse, -⟩
    · rw [hmake]
    · cases hfalse

theorem walkVma_agrees (v : VmArea) (s : WalkState) :
    walkPageVma alloc.snapshotPage v s = walkPageVma alloc.full.snapshotPage v s ∨
      (walkPageVma alloc.snapshotPage v s).2 ≠ 0 ∧ Starved alloc (walkPageVma alloc.full.snapshotPage v s).1 :=
  walk_agrees ((starved_kept alloc alloc).entries s.mm) (starved_kept alloc alloc.full).leaf full_leaf leaf_agrees _ _ s

/-- Either nothing fails that matters, or the take stops at a VMA or at a page that has no memory. -/
theorem takeVmas_agrees (vmas : List VmArea) (s : WalkState) :
    takeVmas alloc vmas s = takeVmas alloc.full vmas s ∨
      (∃ v ∈ vmas, alloc.snapshotVma v.vmStart = false) ∨ Starved alloc (takeVmas alloc.full vmas s).1 := by
  induction vmas generalizing s with
  | nil => exact Or.inl rfl
  | cons v vmas ih =>
    by_cases hv : alloc.snapshotVma v.vmStart = true
    swap
    · exact Or.inr (Or.inl ⟨v, List.mem_cons_self, by simpa using hv⟩)
    have hnext : ∀ s, takeVmas alloc vmas s = takeVmas alloc.full vmas s ∨
        (∃ w ∈ v :: vmas, alloc.snapshotVma w.vmStart = false) ∨ Starved alloc (takeVmas alloc.full vmas s).1 := fun s => by
      rcases ih s with heq | ⟨w, hw, hfail⟩ | hq
      · exact Or.inl heq
      · exact Or.inr (Or.inl ⟨w, List.mem_cons_of_mem _ hw, hfail⟩)
      · exact Or.inr (Or.inr hq)
    have hfull : alloc.full.snapshotVma v.vmStart = true := rfl
    have hgarbage : alloc.full.garbage = alloc.garbage := rfl
    rw [takeVmas, takeVmas]
    unfold TaskData.addSnapshotVma
    rw [hv, hfull, hgarbage, if_pos rfl]
    dsimp only
    split
    · exact hnext _
    · generalize ({ s with data := _ } : WalkState) = s'
      have hzero : (walkPageVma alloc.full.snapshotPage v s').2 = 0 := walk_result full_leaf _ _ _ _
      rw [if_pos hzero]
      rcases walkVma_agrees v s' with heq | ⟨-, hq⟩
      · rw [heq, if_pos hzero]
        exact hnext _
      · exact Or.inr (Or.inr ((starved_kept alloc alloc.full).takeVmas vmas hq))

end

/-! ### The files -/

section
variable {env : Env} {t config : Nat} {w w' : World} {d : TaskData} {fs : Files} {n : Nat}

/-- The copied table and the offsets of the files that are open in the table `n`. -/
def FilesWhole (fs fs' : Files) (n : Nat) (files : OpenFilesSnapshot) : Prop :=
  ∃ copy offsets, files = ⟨some copy, some offsets⟩ ∧ (∀ fd, fs'.fileAt copy fd = fs.fileAt n fd) ∧
    ∀ fd f, fs.fileAt n fd = some f → fd < offsets.length ∧ offsets.getD fd (-1) = fs.offsetOf f

theorem takeFiles_whole_iff (hcfg : hasFlag d.config aflSnapshotFds = true) (hnone : d.ss.ssFiles = ⟨none, none⟩) :
    FilesWhole fs (fs.takeFilesSnapshot env n d).1.1 n (fs.takeFilesSnapshot env n d).1.2 ↔
      env.dupFd = true ∧ env.kmallocOffsets = true := by
  constructor
  · rintro ⟨copy, offsets, hfiles, -⟩
    unfold Files.takeFilesSnapshot Files.dupFd at hfiles
    rw [if_pos hcfg] at hfiles
    by_cases hdup : env.dupFd = true
    swap
    · rw [if_neg hdup, hnone] at hfiles
      cases hfiles
    refine ⟨hdup, ?_⟩
    by_contra halloc
    rw [if_pos hdup] at hfiles
    dsimp only at hfiles
    rw [if_neg halloc, hnone] at hfiles
    cases hfiles
  · rintro ⟨hdup, halloc⟩
    have hmade : ∃ copy offsets, (fs.takeFilesSnapshot env n d).1.2 = ⟨some copy, some offsets⟩ := by
      unfold Files.takeFilesSnapshot
      rw [if_pos hcfg]
      rcases hfs : fs.dupFd env n with ⟨fs', o⟩
      have ho : o = some fs.fresh := by
        unfold Files.dupFd at hfs
        rw [if_pos hdup] at hfs
        exact (congrArg Prod.snd hfs).symm
      subst ho
      dsimp only
      rw [if_pos halloc]
      obtain ⟨hzero, -⟩ := iterate_save fs'
        (show 0 + (fs'.filesStruct fs.fresh).fds.length ≤ (List.replicate (fs'.filesStruct fs.fresh).fds.length (-1)).length by
          rw [List.length_replicate, Nat.zero_add])
      rw [if_pos hzero]
      exact ⟨_, _, rfl⟩
    obtain ⟨copy, offsets, hfiles⟩ := hmade
    obtain ⟨-, -, hfds, hsaved⟩ := takeFiles_copied env fs n d hcfg hnone hfiles
    exact ⟨copy, offsets, hfiles, hfds, hsaved⟩

/-! ### Whole takes -/

/-- The record that a take of the task works on: its own, or a new one. -/
def World.recordFor (t : Nat) (w : World) : TaskData := (w.recordOf t).getD (.new t)

/-- The filter selects the page: it gets an entry where no allocation fails. -/
def World.FilterSelects (env : Env) (t config : Nat) (w : World) (p : Nat) : Prop :=
  ((takeMemorySnapshot env.take.full (w.initialized t config (w.recordFor t)) (w.mmOf t)).1.1.getSnapshotPage p).isSome

instance {p : Nat} : Decidable (w.FilterSelects env t config p) := inferInstanceAs (Decidable (_ = true))

/-- The record `d` holds all that a take of `w` is to save, which left `w'`. -/
structure TakenWhole (env : Env) (t config : Nat) (w w' : World) (d : TaskData) : Prop where
  live : d.haveSnapshot = true
  vmas : ∀ v ∈ (w.mmOf t).mmap, ∃ sv ∈ d.ss.allVmas, sv.vmStart = v.vmStart ∧ sv.vmEnd = v.vmEnd
  pages : ∀ p, w.FilterSelects env t config p → (d.getSnapshotPage p).isSome
  files : hasFlag config aflSnapshotFds = true → FilesWhole w.fs w'.fs (w.task t).files d.ss.ssFiles

/-- A take is all or nothing: it uses no null pointer, answers 1 only with the whole snapshot, and else leaves no new
    snapshot and can be tried again. -/
structure World.TakesWholly (env : Env) (t config : Nat) (w : World) : Prop where
  oops : (w.takeSnapshot env t config).1.core.oops = w.core.oops
  whole : (w.takeSnapshot env t config).2 = 1 →
    ∃ d, (w.takeSnapshot env t config).1.recordOf t = some d ∧ TakenWhole env t config w (w.takeSnapshot env t config).1 d
  failed : (w.takeSnapshot env t config).2 ≠ 1 →
    (w.takeSnapshot env t config).1.core.reg.live t = w.core.reg.live t ∧
      (w.core.reg.live t = none → ∃ env', ((w.takeSnapshot env t config).1.takeSnapshot env' t config).2 = 1)

/-- The allocations that a take makes go through. -/
structure TakeSupplied (env : Env) (t config : Nat) (w : World) : Prop where
  record : w.recordOf t = none → env.kzallocTaskData = true
  vmas : ∀ v ∈ (w.mmOf t).mmap, env.take.snapshotVma v.vmStart = true
  pages : ∀ p, w.FilterSelects env t config p → env.take.snapshotPage p = true
  files : hasFlag config aflSnapshotFds = true → env.dupFd = true ∧ env.kmallocOffsets = true

theorem Took.recordFor {id : Nat} {d₀ : TaskData} (hT : Took env t config w id d₀ w') : w.recordFor t = d₀ := by
  unfold World.recordFor World.recordOf
  rcases hT.old with ⟨hget, hold⟩ | ⟨hnone, hnew⟩
  · rw [hget]
    exact hold
  · rw [hnone, hnew]
    rfl

/-- A take of a task without a live snapshot that finds or gets a record. -/
theorem Took.whole_iff {id : Nat} {d₀ : TaskData} (hT : Took env t config w id d₀ w') (h : w.Kept) :
    (∃ d, w'.recordOf t = some d ∧ TakenWhole env t config w w' d) ↔
      (∀ v ∈ (w.mmOf t).mmap, env.take.snapshotVma v.vmStart = true) ∧
      (∀ p, w.FilterSelects env t config p → env.take.snapshotPage p = true) ∧
      (hasFlag config aflSnapshotFds = true → env.dupFd = true ∧ env.kmallocOffsets = true) := by
  have hblank : (w.initialized t config d₀).Blank := hT.fresh.2.2
  obtain ⟨done, rest, x, s, hd, hs, hres, -⟩ := take_taken env.take (h.sorted t) hblank
  have hres : (w.taking env t config d₀).1 = (s.data, s.mm) := hres
  have hrecord : w'.recordOf t = some (w'.core.reg.data id) := by
    unfold World.recordOf
    rw [(live_eq_some.mp hT.live).1]
    rfl
  have hdata := hT.data
  have hfs := hT.fs
  rw [hres] at hdata hfs
  have hconfig : s.data.config = config := by rw [hs.same]; rfl
  have hnone : s.data.ss.ssFiles = ⟨none, none⟩ := by
    rw [hs.same]
    exact hT.noFiles h
  have hfiles : (hasFlag config aflSnapshotFds = true → FilesWhole w.fs w'.fs (w.task t).files (w'.core.reg.data id).ss.ssFiles) ↔
      (hasFlag config aflSnapshotFds = true → env.dupFd = true ∧ env.kmallocOffsets = true) := by
    refine forall_congr' fun hcfg => ?_
    rw [hdata, hfs]
    exact takeFiles_whole_iff (hconfig ▸ hcfg) hnone
  have hget : ∀ p, (w'.core.reg.data id).getSnapshotPage p = s.data.getSnapshotPage p := fun p => by rw [hdata]; rfl
  have hall : (w'.core.reg.data id).ss.allVmas = s.data.ss.allVmas := by rw [hdata]; rfl
  have hfilter : ∀ p, w.FilterSelects env t config p ↔
      ((takeVmas env.take.full (w.mmOf t).mmap ⟨w.initialized t config d₀, w.mmOf t, ⟨0, 0⟩⟩).1.data.getSnapshotPage p).isSome := by
    intro p
    unfold World.FilterSelects
    rw [hT.recordFor]
    exact Iff.rfl
  have hsdata : (takeVmas env.take (w.mmOf t).mmap ⟨w.initialized t config d₀, w.mmOf t, ⟨0, 0⟩⟩).1.data = s.data :=
    congrArg Prod.fst hres
  constructor
  · rintro ⟨d, hrec, hw⟩
    obtain rfl := Option.some.inj (hrecord.symm.trans hrec)
    refine ⟨fun v hv => ?_, fun p hp => ?_, hfiles.mp hw.files⟩
    · obtain ⟨sv, hsv, hstart, -⟩ := hw.vmas v hv
      have hfed := (vmasFed_kept env.take).takeVmas (w.mmOf t).mmap
        (s := ⟨w.initialized t config d₀, w.mmOf t, ⟨0, 0⟩⟩) (by simp [hblank.1])
      rw [hall, ← hsdata] at hsv
      exact hstart ▸ hfed sv hsv
    · have hsome := hw.pages p hp
      have hfed := (fed_kept env.take).takeVmas (w.mmOf t).mmap
        (s := ⟨w.initialized t config d₀, w.mmOf t, ⟨0, 0⟩⟩)
        (fun q hq => by simp [TaskData.getSnapshotPage, hblank.2.2.1] at hq)
      rw [hget, ← hsdata] at hsome
      exact hfed p hsome
  · rintro ⟨hvmas, hpages, hsupplied⟩
    -- Nothing fails, so that the take is the one that selects the pages.
    have hsame : takeVmas env.take (w.mmOf t).mmap ⟨w.initialized t config d₀, w.mmOf t, ⟨0, 0⟩⟩ =
        takeVmas env.take.full (w.mmOf t).mmap ⟨w.initialized t config d₀, w.mmOf t, ⟨0, 0⟩⟩ := by
      rcases takeVmas_agrees (w.mmOf t).mmap ⟨w.initialized t config d₀, w.mmOf t, ⟨0, 0⟩⟩ with heq | ⟨v, hv, hfail⟩ | ⟨p, hp, hsome⟩
      · exact heq
      · rw [hvmas v hv] at hfail
        cases hfail
      · rw [hpages p ((hfilter p).mpr hsome)] at hp
        cases hp
    obtain ⟨done', rest', x', s', hd', hs', hres', hend'⟩ := take_taken env.take.full (h.sorted t) hblank
    obtain rfl := hend' (take_goes_through (fun _ => rfl) (fun _ => rfl) _ _)
    rw [List.append_nil] at hd'
    have hs'data : s.data = s'.data := by
      rw [← hsdata, hsame]
      exact congrArg Prod.fst hres'
    refine ⟨_, hrecord, ?_, fun v hv => ?_, fun p hp => ?_, hfiles.mpr hsupplied⟩
    · exact (live_eq_some.mp hT.live).2
    · rw [hall, hs'data, hs'.allVmas]
      exact ⟨_, List.mem_map_of_mem (hd' ▸ hv), rfl, rfl⟩
    · rw [hget, ← hsdata, hsame]
      exact (hfilter p).mp hp

/-- A take is all or nothing if and only if the task has a live snapshot already or every allocation goes through. -/
theorem takesWholly_iff (h : w.Kept) (hoops : w.core.oops = false) :
    w.TakesWholly env t config ↔ (w.core.reg.live t = none → TakeSupplied env t config w) := by
  rcases takeSnapshot_cases env t config h.coherent (h.sorted t) with
    ⟨id, hlive, heq⟩ | ⟨hnone, hfail, heq⟩ | ⟨id, d₀, hlive, hT, hres, halloc⟩
  · -- The task has a live snapshot, and the take is refused.
    refine iff_of_true ⟨?_, fun hone => ?_, fun _ => ⟨?_, fun hnot => ?_⟩⟩ fun hnot => ?_
    · rw [heq]
    · rw [heq] at hone
      cases hone
    · rw [heq]
    · rw [hlive] at hnot
      cases hnot
    · rw [hlive] at hnot
      cases hnot
  · have hlive := live_of_getTaskData_none hnone
    refine iff_of_false (fun hw => ?_) fun hs => ?_
    · have := hw.oops
      rw [heq, hoops] at this
      cases this
    · have := (hs hlive).record (by rw [World.recordOf, hnone]; rfl)
      rw [hfail] at this
      cases this
  · have hwhole := hT.whole_iff h
    have hrecord : w.recordOf t = none → env.kzallocTaskData = true := fun hnone =>
      halloc (by simpa [World.recordOf] using hnone)
    constructor
    · intro hw _
      obtain ⟨hvmas, hpages, hfiles⟩ := hwhole.mp (hw.whole hres)
      exact ⟨hrecord, hvmas, hpages, hfiles⟩
    · intro hs
      obtain ⟨-, hvmas, hpages, hfiles⟩ := hs hlive
      exact ⟨hT.oops, fun _ => hwhole.mpr ⟨hvmas, hpages, hfiles⟩, fun hne => absurd hres hne⟩

theorem takesWholly_boot : (World.boot heapMm [1]).TakesWholly .calm 1 aflSnapshotFds :=
  (takesWholly_iff (heapMm_kept [1]) rfl).mpr fun _ =>
    ⟨fun _ => rfl, fun _ _ => rfl, fun _ _ => rfl, fun _ => ⟨rfl, rfl⟩⟩

/-- Without memory for the entry of a written page the take answers 1, with a live snapshot that lacks the page. -/
theorem takesWholly_fails :
    let w := (World.boot heapMm [1]).step .calm 1 (.write 4096 7)
    (w.takeSnapshot .starved 1 0).2 = 1 ∧ (w.takeSnapshot .starved 1 0).1.core.reg.live 1 = some 0 ∧
      ¬w.TakesWholly .starved 1 0 := by
  refine ⟨by decide, by decide, fun h => ?_⟩
  obtain ⟨d, hd, hw⟩ := h.whole (by decide)
  obtain rfl := Option.some.inj hd
  exact absurd (hw.pages 4096 (by decide)) (by decide)

end
end AflSnapshot
