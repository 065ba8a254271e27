import AflSnapshot.Walk

/-! # The filter of the walk

A take visits the pages with a page-table slot of the VMAs that it does not skip (`Visited`) and means to
leave out those that the lists and the config exclude (`Excluded`): what `snapshot_walk_check_range` says of
the page alone. The two cached addresses are right as long as nothing is `Shadowed`: then `Filtered` holds
from entry to entry and from VMA to VMA, and the walk makes an entry for the visited pages that are not
excluded. Where something is shadowed some walk snapshots a blocked page. -/

namespace AflSnapshot
open PageWalk

/-- The ranges of the two lists are page-aligned. -/
structure AlignedLists (data : TaskData) : Prop where
  block : ∀ n ∈ data.ranges.entries blocklist, pageSize ∣ n.start ∧ pageSize ∣ n.end_
  allow : ∀ n ∈ data.ranges.entries allowlist, pageSize ∣ n.start ∧ pageSize ∣ n.end_

def Blocked (data : TaskData) (page : Nat) : Prop := Spans.Covers (data.ranges.entries blocklist) page
def Allowed (data : TaskData) (page : Nat) : Prop := Spans.Covers (data.ranges.entries allowlist) page

/-- A page that the lists and the config keep out of the snapshot. -/
def Excluded (data : TaskData) (page : Nat) : Prop :=
  Blocked data page ∨ hasFlag data.config aflSnapshotBlock = true ∧ ¬Allowed data page

/-- The VMAs are sorted and end at page boundaries. -/
structure Mm.Sorted (mm : Mm) : Prop where
  ordered : Spans.Ordered mm.mmap
  aligned : ∀ v ∈ mm.mmap, pageSize ∣ v.vmStart ∧ pageSize ∣ v.vmEnd

/-- The pages for which a walk that goes through calls `snapshot_pte_entry`, or would but for the filter. -/
structure Visited (data : TaskData) (mm : Mm) (page : Nat) : Prop where
  aligned : pageSize ∣ page
  slot : mm.slot page = true
  walked : ∃ v ∈ mm.mmap, Spans.In page v ∧ skipsVma data mm v = false

/-- Within one entry of size `size`, a range that the allowlist's answer spans and the blocklist's does not,
    with a blocked page at or after its start and more than a page before the end of the allowed range. -/
def Shadowed (data : TaskData) (size : Nat) : Prop :=
  ∃ addr next page a, pageSize ∣ addr ∧ pageSize ∣ next ∧ pageSize ∣ page ∧ addr < next ∧
    SameEntry size addr next ∧ intersectAllowlist data addr next = some a ∧ a.spans addr next = true ∧
    (∀ b, intersectBlocklist data addr next = some b → b.spans addr next = false) ∧
    addr ≤ page ∧ page + pageSize < a.end_ ∧ Blocked data page

/-! ### What one call answers -/

/-- The branches of `snapshot_walk_check_range`. -/
inductive CheckStep (data : TaskData) (addr next : Nat) (w : SnapshotWalkData) : SnapshotWalkData × Action → Prop
  | fastBlocked (h : next < w.nextBlockedAddress) : CheckStep data addr next w (w, .skip)
  | fastAllowed (hb : ¬next < w.nextBlockedAddress) (h : next < w.nextAllowedAddress) :
      CheckStep data addr next w (w, .subtree)
  | blocked (b : VmRange) (hb : intersectBlocklist data addr next = some b) (hs : b.spans addr next = true) :
      CheckStep data addr next w ({ w with nextBlockedAddress := b.end_ }, .skip)
  | allowed (hb : ∀ b, intersectBlocklist data addr next = some b → b.spans addr next = false) (a : VmRange)
      (ha : intersectAllowlist data addr next = some a) (hs : a.spans addr next = true) :
      CheckStep data addr next w ({ w with nextAllowedAddress := a.end_ }, .subtree)
  | partlyAllowed (hb : ∀ b, intersectBlocklist data addr next = some b → b.spans addr next = false) (a : VmRange)
      (ha : intersectAllowlist data addr next = some a) (hs : a.spans addr next = false) :
      CheckStep data addr next w (w, .subtree)
  | notAllowed (hb : ∀ b, intersectBlocklist data addr next = some b → b.spans addr next = false)
      (ha : intersectAllowlist data addr next = none) (hc : hasFlag data.config aflSnapshotBlock = true) :
      CheckStep data addr next w ({ w with nextBlockedAddress := next }, .skip)
  | notBlocked (hb : intersectBlocklist data addr next = none) (ha : intersectAllowlist data addr next = none)
      (hc : hasFlag data.config aflSnapshotBlock = false) :
      CheckStep data addr next w ({ w with nextAllowedAddress := next }, .subtree)
  | partlyBlocked (b : VmRange) (hb : intersectBlocklist data addr next = some b)
      (hs : b.spans addr next = false) (ha : intersectAllowlist data addr next = none)
      (hc : hasFlag data.config aflSnapshotBlock = false) : CheckStep data addr next w (w, .subtree)

theorem checkStep (data : TaskData) (addr next : Nat) (w : SnapshotWalkData) :
    CheckStep data addr next w (snapshotWalkCheckRange data addr next w) := by
  unfold snapshotWalkCheckRange
  split
  · exact .fastBlocked ‹_›
  split
  · exact .fastAllowed ‹_› ‹_›
  cases hb : intersectBlocklist data addr next with
  | none =>
    cases ha : intersectAllowlist data addr next with
    | none =>
      cases hc : hasFlag data.config aflSnapshotBlock with
      | true => exact .notAllowed (fun b h => by rw [hb] at h; cases h) ha hc
      | false => exact .notBlocked hb ha hc
    | some a =>
      cases hs : a.spans addr next with
      | true => simpa [hs] using CheckStep.allowed (fun b h => by rw [hb] at h; cases h) a ha hs
      | false => simpa [hs] using CheckStep.partlyAllowed (fun b h => by rw [hb] at h; cases h) a ha hs
  | some b =>
    cases hbs : b.spans addr next with
    | true => simpa [hbs] using CheckStep.blocked b hb hbs
    | false =>
      have hnot : ∀ b', intersectBlocklist data addr next = some b' → b'.spans addr next = false := by
        intro b' h
        rw [hb] at h
        cases h
        exact hbs
      cases ha : intersectAllowlist data addr next with
      | none =>
        cases hc : hasFlag data.config aflSnapshotBlock with
        | true => simpa [hbs, hc] using CheckStep.notAllowed hnot ha hc
        | false => simpa [hbs, hc] using CheckStep.partlyBlocked b hb hbs ha hc
      | some a =>
        cases hs : a.spans addr next with
        | true => simpa [hbs, hs] using CheckStep.allowed hnot a ha hs
        | false => simpa [hbs, hs] using CheckStep.partlyAllowed hnot a ha hs

/-! ### Ranges and pages -/

section
variable {data : TaskData} {n : VmRange} {start end_ addr next page : Nat}

theorem VmRange.meets_iff : n.meets start end_ = true ↔ n.start < end_ ∧ start < n.end_ := by
  simp [VmRange.meets]

theorem VmRange.spans_iff : n.spans start end_ = true ↔ n.start ≤ start ∧ end_ ≤ n.end_ := by
  simp [VmRange.spans]

theorem VmRange.meets_of_in (h : Spans.In page n) (hs : start ≤ page) (he : page < end_) :
    n.meets start end_ = true := by
  obtain ⟨h1, h2⟩ := h
  have h1 : n.start ≤ page := h1
  have h2 : page < n.end_ := h2
  exact VmRange.meets_iff.mpr ⟨by omega, by omega⟩

theorem VmRange.in_of_spans (h : n.spans start end_ = true) (hs : start ≤ page) (he : page < end_) :
    Spans.In page n := by
  obtain ⟨h1, h2⟩ := VmRange.spans_iff.mp h
  exact ⟨le_trans h1 hs, lt_of_lt_of_le he h2⟩

/-- An aligned range meets a page only where it spans it. -/
theorem VmRange.spans_of_meets_page (hn : pageSize ∣ n.start ∧ pageSize ∣ n.end_) (hp : pageSize ∣ page)
    (h : n.meets page (page + pageSize) = true) : n.spans page (page + pageSize) = true := by
  obtain ⟨h1, h2⟩ := VmRange.meets_iff.mp h
  obtain ⟨⟨i, hi⟩, j, hj⟩ := hn
  obtain ⟨k, hk⟩ := hp
  refine VmRange.spans_iff.mpr ⟨?_, ?_⟩ <;> simp only [pageSize] at * <;> omega

theorem blocklist_meets {b : VmRange} (hb : intersectBlocklist data start end_ = some b) :
    b ∈ data.ranges.entries blocklist ∧ b.meets start end_ = true :=
  ⟨List.mem_of_find?_eq_some hb, by simpa using List.find?_some hb⟩

theorem allowlist_meets {a : VmRange} (ha : intersectAllowlist data start end_ = some a) :
    a ∈ data.ranges.entries allowlist ∧ a.meets start end_ = true :=
  ⟨List.mem_of_find?_eq_some ha, by simpa using List.find?_some ha⟩

theorem not_blocked_of_none (h : intersectBlocklist data start end_ = none) (hs : start ≤ page)
    (he : page < end_) : ¬Blocked data page := fun ⟨b, hb, hin⟩ =>
  absurd (VmRange.meets_of_in hin hs he) (by simpa using List.find?_eq_none.mp h b hb)

theorem not_allowed_of_none (h : intersectAllowlist data start end_ = none) (hs : start ≤ page)
    (he : page < end_) : ¬Allowed data page := fun ⟨a, ha, hin⟩ =>
  absurd (VmRange.meets_of_in hin hs he) (by simpa using List.find?_eq_none.mp h a ha)

theorem blocked_of_spans {b : VmRange} (hb : intersectBlocklist data start end_ = some b)
    (hin : Spans.In page b) : Blocked data page := ⟨b, (blocklist_meets hb).1, hin⟩

theorem allowed_of_spans {a : VmRange} (ha : intersectAllowlist data start end_ = some a)
    (hin : Spans.In page a) : Allowed data page := ⟨a, (allowlist_meets ha).1, hin⟩

/-- A page is blocked where the blocklist's answer for it spans it. -/
theorem not_blocked_page (hl : AlignedLists data) (hp : pageSize ∣ page)
    (h : ∀ b, intersectBlocklist data page (page + pageSize) = some b → b.spans page (page + pageSize) = false) :
    ¬Blocked data page := by
  cases hb : intersectBlocklist data page (page + pageSize) with
  | none => exact not_blocked_of_none hb le_rfl (by simp [pageSize])
  | some b =>
    have hspan := VmRange.spans_of_meets_page (hl.block b (blocklist_meets hb).1) hp (blocklist_meets hb).2
    rw [h b hb] at hspan
    cases hspan

theorem checkRange_congr {data' : TaskData} (hc : data'.config = data.config) (hr : data'.ranges = data.ranges)
    (w : SnapshotWalkData) :
    snapshotWalkCheckRange data' addr next w = snapshotWalkCheckRange data addr next w := by
  have hb : intersectBlocklist data' addr next = intersectBlocklist data addr next := by
    rw [intersectBlocklist, hr, ← intersectBlocklist]
  have ha : intersectAllowlist data' addr next = intersectAllowlist data addr next := by
    rw [intersectAllowlist, hr, ← intersectAllowlist]
  rw [snapshotWalkCheckRange, snapshotWalkCheckRange, hb, ha, hc]

theorem skipsVma_congr {data' : TaskData} {mm mm' : Mm} (hc : data'.config = data.config)
    (hr : data'.ranges = data.ranges) (hm : mm'.startStack = mm.startStack) (v : VmArea) :
    skipsVma data' mm' v = skipsVma data mm v := by
  simp only [skipsVma, intersectAllowlist, isStack, hc, hr, hm]

end

/-! ### The cached addresses -/

/-- Beyond `x`, the pages that either fast path decides are decided right. -/
structure CacheSound (data : TaskData) (x : Nat) (w : SnapshotWalkData) : Prop where
  blocked : ∀ p, x ≤ p → pageSize ∣ p → p + pageSize < w.nextBlockedAddress → Excluded data p
  allowed : ∀ p, x ≤ p → pageSize ∣ p → p + pageSize < w.nextAllowedAddress → ¬Excluded data p

theorem CacheSound.mono {data : TaskData} {x y : Nat} {w : SnapshotWalkData} (h : CacheSound data x w) (hxy : x ≤ y) :
    CacheSound data y w :=
  ⟨fun p hp => h.blocked p (le_trans hxy hp), fun p hp => h.allowed p (le_trans hxy hp)⟩

theorem add_pageSize_le {p e : Nat} (hp : pageSize ∣ p) (he : pageSize ∣ e) (h : p < e) : p + pageSize ≤ e := by
  obtain ⟨i, rfl⟩ := hp
  obtain ⟨j, rfl⟩ := he
  simp only [pageSize] at *
  omega

/-- What a call of the filter leaves: sound caches, a skip only where all the pages are excluded, and for one
    page the right answer. -/
structure CheckSound (data : TaskData) (addr next : Nat) (r : SnapshotWalkData × Action) : Prop where
  cache : CacheSound data addr r.1
  skip : r.2 = .skip → ∀ p, addr ≤ p → p < next → pageSize ∣ p → Excluded data p

theorem check_sound {data : TaskData} {size addr next : Nat} {w : SnapshotWalkData}
    (hns : ¬Shadowed data size) (h : CacheSound data addr w) (hlt : addr < next) (ha : pageSize ∣ addr)
    (hn : pageSize ∣ next) (hsame : SameEntry size addr next) :
    CheckSound data addr next (snapshotWalkCheckRange data addr next w) := by
  have hstep := checkStep data addr next w
  cases hr : snapshotWalkCheckRange data addr next w with
  | mk w' act =>
    rw [hr] at hstep
    cases hstep with
    | fastBlocked hb =>
      exact ⟨h, fun _ p hap hp hd => h.blocked p hap hd (lt_of_le_of_lt (add_pageSize_le hd hn hp) hb)⟩
    | fastAllowed _ _ => exact ⟨h, by simp⟩
    | blocked b hb hs =>
      have hspan := VmRange.spans_iff.mp hs
      refine ⟨⟨fun p hap _ hp => ?_, h.allowed⟩, fun _ p hap hp _ => ?_⟩
      · exact Or.inl (blocked_of_spans hb ⟨le_trans hspan.1 hap, lt_trans (by simp [pageSize]) hp⟩)
      · exact Or.inl (blocked_of_spans hb (VmRange.in_of_spans hs hap hp))
    | allowed hb a haa hs =>
      have hspan := VmRange.spans_iff.mp hs
      refine ⟨⟨h.blocked, fun p hap hd hp => ?_⟩, by simp⟩
      rintro (hblocked | ⟨-, hnot⟩)
      · exact hns ⟨addr, next, p, a, ha, hn, hd, hlt, hsame, haa, hs, hb, hap, hp, hblocked⟩
      · exact hnot (allowed_of_spans haa ⟨le_trans hspan.1 hap, lt_trans (by simp [pageSize]) hp⟩)
    | partlyAllowed _ _ _ _ => exact ⟨h, by simp⟩
    | notAllowed _ haa hc =>
      have hex : ∀ p, addr ≤ p → p < next → Excluded data p := fun p hap hp =>
        Or.inr ⟨hc, not_allowed_of_none haa hap hp⟩
      exact ⟨⟨fun p hap _ hp => hex p hap (lt_trans (by simp [pageSize]) hp), h.allowed⟩,
        fun _ p hap hp _ => hex p hap hp⟩
    | notBlocked hb _ hc =>
      refine ⟨⟨h.blocked, fun p hap _ hp => ?_⟩, by simp⟩
      rintro (hblocked | ⟨hc', -⟩)
      · exact not_blocked_of_none hb hap (lt_trans (by simp [pageSize]) hp) hblocked
      · rw [hc] at hc'
        cases hc'
    | partlyBlocked _ _ _ _ _ => exact ⟨h, by simp⟩

theorem CacheSound.zero {data : TaskData} {x : Nat} : CacheSound data x ⟨0, 0⟩ :=
  ⟨fun _ _ _ h => absurd h (Nat.not_lt_zero _), fun _ _ _ h => absurd h (Nat.not_lt_zero _)⟩

/-- With sound caches the filter, asked about one page, skips it if it is excluded. -/
theorem check_page_sound {data : TaskData} {page : Nat} {w : SnapshotWalkData} (hl : AlignedLists data)
    (h : CacheSound data page w) (hp : pageSize ∣ page) :
    (snapshotWalkCheckRange data page (page + pageSize) w).2 = .skip ↔ Excluded data page := by
  have hlt : page < page + pageSize := by simp [pageSize]
  have hstep := checkStep data page (page + pageSize) w
  cases hr : snapshotWalkCheckRange data page (page + pageSize) w with
  | mk w' act =>
    rw [hr] at hstep
    cases hstep with
    | fastBlocked hfast => exact iff_of_true rfl (h.blocked page le_rfl hp hfast)
    | fastAllowed _ hfast => exact iff_of_false (by simp) (h.allowed page le_rfl hp hfast)
    | blocked b hb hs =>
      exact iff_of_true rfl (Or.inl (blocked_of_spans hb (VmRange.in_of_spans hs le_rfl hlt)))
    | allowed hb a ha hs =>
      refine iff_of_false (by simp) ?_
      rintro (hblocked | ⟨-, hnot⟩)
      · exact not_blocked_page hl hp hb hblocked
      · exact hnot (allowed_of_spans ha (VmRange.in_of_spans hs le_rfl hlt))
    | partlyAllowed hb a ha hs =>
      have hspan := VmRange.spans_of_meets_page (hl.allow a (allowlist_meets ha).1) hp (allowlist_meets ha).2
      rw [hs] at hspan
      cases hspan
    | notAllowed _ ha hc => exact iff_of_true rfl (Or.inr ⟨hc, not_allowed_of_none ha le_rfl hlt⟩)
    | notBlocked hb ha hc =>
      refine iff_of_false (by simp) ?_
      rintro (hblocked | ⟨hc', -⟩)
      · exact not_blocked_of_none hb le_rfl hlt hblocked
      · rw [hc] at hc'
        cases hc'
    | partlyBlocked b hb hs =>
      have hspan := VmRange.spans_of_meets_page (hl.block b (blocklist_meets hb).1) hp (blocklist_meets hb).2
      rw [hs] at hspan
      cases hspan

/-- The filter, asked about a page alone and with nothing cached, skips the excluded pages. -/
theorem check_page_iff {data : TaskData} {page : Nat} (hl : AlignedLists data) (hp : pageSize ∣ page) :
    (snapshotWalkCheckRange data page (page + pageSize) ⟨0, 0⟩).2 = .skip ↔ Excluded data page :=
  check_page_sound hl CacheSound.zero hp

/-! ### The walk -/

/-- A walk that has reached `x` has made entries for the pages below that are visited and not excluded. -/
structure Filtered (data : TaskData) (mm : Mm) (x : Nat) (s : WalkState) : Prop where
  config : s.data.config = data.config
  ranges : s.data.ranges = data.ranges
  tables : s.mm = { mm with pte := s.mm.pte }
  cache : CacheSound data x s.walkData
  entries : ∀ p, (s.data.getSnapshotPage p).isSome ↔ p < x ∧ Visited data mm p ∧ ¬Excluded data p

theorem populated_iff {mm : Mm} {page : Nat} : Populated (snapshotWalkOps mm) page ↔ mm.slot page = true := by
  simp [Populated, snapshotWalkOps, Mm.slot, and_assoc]

section
variable {data : TaskData} {mm : Mm} {x y : Nat} {s : WalkState} {alloc : Nat → Bool}

theorem Filtered.check (h : Filtered data mm x s) (addr next : Nat) :
    snapshotWalkCheckRange s.data addr next s.walkData = snapshotWalkCheckRange data addr next s.walkData :=
  checkRange_congr h.config h.ranges _

/-- Pages that no entry is due for are passed over. -/
theorem Filtered.advance (h : Filtered data mm x s) (hxy : x ≤ y)
    (hnone : ∀ p, x ≤ p → p < y → Visited data mm p → Excluded data p) : Filtered data mm y s where
  config := h.config
  ranges := h.ranges
  tables := h.tables
  cache := h.cache.mono hxy
  entries p := by
    rw [h.entries p]
    refine and_congr_left fun ⟨hv, hex⟩ => ⟨fun hp => lt_of_lt_of_le hp hxy, fun hp => ?_⟩
    by_contra hge
    exact hex (hnone p (not_lt.mp hge) hp hv)

theorem Filtered.cached {w : SnapshotWalkData} (h : Filtered data mm x s) (hw : CacheSound data x w) :
    Filtered data mm x { s with walkData := w } :=
  ⟨h.config, h.ranges, h.tables, hw, h.entries⟩

/-- The callbacks of the upper levels carry the invariant on. -/
theorem Filtered.entry (hns : ¬Shadowed data mm.pgd.size) {g : Stage pageSize WalkState}
    (hg : g ∈ snapshotWalkOps mm) {a e : Nat} (hae : a < e) (ha : pageSize ∣ a) (he : pageSize ∣ e)
    (hsame : SameEntry mm.pgd.size a e) (h : Filtered data mm a s) :
    Entered (Filtered data mm) a e (g.entry a e s) := by
  have hsound := check_sound hns h.cache hae ha he hsame
  rw [← h.check] at hsound
  have hc := h.cached hsound.cache
  have upper : Entered (Filtered data mm) a e (snapshotUpperEntry a e s) := ⟨by simp [snapshotUpperEntry], fun _ => hc⟩
  have lower : Entered (Filtered data mm) a e (snapshotLowerEntry a e s) :=
    ⟨fun hskip => hc.advance hae.le fun p hap hp hv => hsound.skip hskip p hap hp hv.aligned, fun _ => hc⟩
  simp only [snapshotWalkOps, List.mem_cons, List.not_mem_nil, or_false] at hg
  rcases hg with rfl | rfl | rfl | rfl
  · exact upper
  · exact upper
  · exact lower
  · exact lower

theorem sameEntry_page {size page : Nat} (hd : pageSize ∣ size) (hp : pageSize ∣ page) :
    SameEntry size page (page + pageSize) := by
  obtain ⟨k, rfl⟩ := hd
  obtain ⟨i, rfl⟩ := hp
  intro p h1 h2
  have hdiv : p / pageSize = i := by
    simp only [pageSize] at *
    omega
  rw [← Nat.div_div_eq_div_mul, ← Nat.div_div_eq_div_mul, hdiv, Nat.mul_div_cancel_left i (by simp [pageSize])]

/-- `snapshot_pte_entry` carries the invariant on to the next page. -/
theorem Filtered.leaf (hl : AlignedLists data) (hns : ¬Shadowed data mm.pgd.size) {page : Nat}
    (hv : Visited data mm page) (h : Filtered data mm page s) :
    Reached (Filtered data mm) page (page + pageSize) (snapshotPteEntry alloc page (page + pageSize) s) := by
  have hlt : page < page + pageSize := by simp [pageSize]
  have hp := hv.aligned
  have hpage := check_page_sound hl h.cache hp
  have hsound := check_sound hns h.cache hlt hp (Nat.dvd_add hp (Nat.dvd_refl _)) (sameEntry_page mm.pgd.dvd hp)
  rw [← h.check] at hpage hsound
  simp only [snapshotPteEntry]
  have hc := h.cached hsound.cache
  by_cases hskip : (snapshotWalkCheckRange s.data page (page + pageSize) s.walkData).2 = .skip
  · rw [if_pos hskip]
    refine Reached.of_inv hlt.le (hc.advance hlt.le fun q hq1 hq2 hvq => ?_)
    exact hsound.skip hskip q hq1 hq2 hvq.aligned
  · rw [if_neg hskip]
    have hnot : ¬Excluded data page := fun hex => hskip (hpage.mpr hex)
    rcases makeSnapshotPage_spec s.mm (alloc page) with ⟨data', hadd, hmake⟩ | ⟨-, hmake⟩
    · rw [hmake]
      refine Reached.of_inv hlt.le ⟨?_, ?_, ?_, hsound.cache.mono hlt.le, fun q => ?_⟩
      · rw [hadd.same]
        exact h.config
      · rw [hadd.same]
        exact h.ranges
      · rw [h.tables]
        rfl
      · by_cases hq : q = page
        · subst hq
          rw [hadd.entry]
          exact iff_of_true rfl ⟨hlt, hv, hnot⟩
        · rw [hadd.others q hq, h.entries q]
          refine and_congr_left fun ⟨hvq, _⟩ => ⟨fun hqp => lt_trans hqp hlt, fun hqp => ?_⟩
          by_contra hge
          have := add_pageSize_le hp hvq.aligned (lt_of_le_of_ne (not_lt.mp hge) (Ne.symm hq))
          omega
    · rw [hmake]
      exact ⟨fun h0 => absurd h0 (by simp), page, le_rfl, hlt.le, hc⟩

/-- The walk of a VMA. -/
theorem Filtered.walkVma (alloc : Nat → Bool) (hl : AlignedLists data) (hm : mm.Sorted) (hns : ¬Shadowed data mm.pgd.size)
    {vma : VmArea} (hvma : vma ∈ mm.mmap) (hskip : skipsVma data mm vma = false)
    (h : Filtered data mm vma.vmStart s) :
    Reached (Filtered data mm) vma.vmStart vma.vmEnd (walkPageVma alloc vma s) := by
  obtain ⟨ha, hb⟩ := hm.aligned vma hvma
  have hab : vma.vmStart < vma.vmEnd := hm.ordered.pos vma hvma
  have htables : snapshotWalkOps s.mm = snapshotWalkOps mm := by
    rw [h.tables]
    rfl
  rw [walkPageVma, htables]
  refine walk_inv (by simp [pageSize]) ?hole ?entry ?page le_rfl hab.le le_rfl
    ha hb h
  case hole =>
    intro g hg a e s hlo hae hhi hda hde hnone hI
    refine hI.advance hae.le fun p hap hpe hv => ?_
    have hpop := populated_iff.mpr hv.slot g hg
    rw [hnone p hap hpe] at hpop
    cases hpop
  case entry => exact fun g hg a e s _ hae _ hda hde hsame hI => hI.entry hns hg hae hda hde hsame
  case page =>
    intro a s hlo hhi hda hpop hI
    have hin : Spans.In a vma := ⟨hlo, lt_of_lt_of_le (by simp [pageSize]) hhi⟩
    exact hI.leaf hl hns ⟨hda, populated_iff.mp hpop, vma, hvma, hin, hskip⟩

/-- The loop over the VMAs, which has `vmas` still to go through. -/
theorem Filtered.takeVmas (alloc : TakeAlloc) (hl : AlignedLists data) (hm : mm.Sorted)
    (hns : ¬Shadowed data mm.pgd.size) {done vmas : List VmArea} (hd : mm.mmap = done ++ vmas) (hbelow : ∀ v ∈ done, v.vmEnd ≤ x)
    (habove : ∀ v ∈ vmas, x ≤ v.vmStart) (h : Filtered data mm x s) :
    ∃ y, Filtered data mm y (takeVmas alloc vmas s).1 ∧
      ((takeVmas alloc vmas s).2 = 0 → ∀ v ∈ mm.mmap, v.vmEnd ≤ y) := by
  induction vmas generalizing done x s with
  | nil => exact ⟨x, h, fun _ v hv => hbelow v (by simpa [hd] using hv)⟩
  | cons vma vmas ih =>
    have hvma : vma ∈ mm.mmap := by simp [hd]
    have hord : Spans.Ordered (vma :: vmas) := (Spans.Ordered.append_iff.mp (hd ▸ hm.ordered)).2.1
    have hpos : vma.vmStart < vma.vmEnd := hord.head_pos
    -- The pages before the VMA are in no VMA.
    have hstart : Filtered data mm vma.vmStart s := by
      refine h.advance (habove vma List.mem_cons_self) fun p hxp hpv hv => ?_
      obtain ⟨v, hv, hin, -⟩ := hv.walked
      have h1 : v.vmStart ≤ p := hin.1
      have h2 : p < v.vmEnd := hin.2
      rw [hd] at hv
      rcases List.mem_append.mp hv with hv | hv
      · have := hbelow v hv
        omega
      · rcases List.mem_cons.mp hv with rfl | hv
        · omega
        · have : vma.vmEnd ≤ v.vmStart := hord.head_le hv
          omega
    have hdone : mm.mmap = (done ++ [vma]) ++ vmas := by simp [hd]
    have hbelow' : ∀ v ∈ done ++ [vma], v.vmEnd ≤ vma.vmEnd := fun v hv => by
      rcases List.mem_append.mp hv with hv | hv
      · exact le_trans (hbelow v hv) (le_trans (habove vma List.mem_cons_self) hpos.le)
      · rw [List.mem_singleton.mp hv]
    have habove' : ∀ v ∈ vmas, vma.vmEnd ≤ v.vmStart := fun v hv => hord.head_le hv
    rw [AflSnapshot.takeVmas]
    cases hadd : s.data.addSnapshotVma vma (alloc.garbage vma.vmStart) (alloc.snapshotVma vma.vmStart) with
    | none => exact ⟨_, hstart, fun h0 => absurd h0 (by simp)⟩
    | some r =>
      obtain ⟨data', ssVma⟩ := r
      obtain ⟨hconfig, hranges, hentries⟩ : data'.config = data.config ∧ data'.ranges = data.ranges ∧
          data'.getSnapshotPage = s.data.getSnapshotPage := by
        unfold TaskData.addSnapshotVma at hadd
        split at hadd
        · cases hadd
          exact ⟨h.config, h.ranges, rfl⟩
        · cases hadd
      have hadded : Filtered data mm vma.vmStart { s with data := data' } :=
        ⟨hconfig, hranges, hstart.tables, hstart.cache, fun p => hentries ▸ hstart.entries p⟩
      have hstack : s.mm.startStack = mm.startStack := by rw [h.tables]
      simp only [skipsVma_congr hconfig hranges hstack]
      cases hskip : skipsVma data mm vma with
      | true =>
        simp only [↓reduceIte]
        refine ih hdone hbelow' habove' (hadded.advance hpos.le fun p h1 h2 hv => ?_)
        obtain ⟨v, hv, hin, hwalked⟩ := hv.walked
        rw [hm.ordered.eq_of_in hv hvma hin ⟨h1, h2⟩, hskip] at hwalked
        cases hwalked
      | false =>
        simp only [Bool.false_eq_true, ↓reduceIte]
        have hlinked : Filtered data mm vma.vmStart { s with data := { data' with ss := { data'.ss with
            snapshottedVmas := data'.ss.snapshottedVmas ++ [ssVma] } } } :=
          ⟨hconfig, hranges, hstart.tables, hstart.cache, hadded.entries⟩
        obtain ⟨hend, y, -, -, hy⟩ := hlinked.walkVma alloc.snapshotPage hl hm hns hvma hskip
        split
        · rename_i h0
          exact ih hdone hbelow' habove' (hend h0)
        · rename_i h0
          exact ⟨y, hy, fun hz => absurd hz h0⟩

end

/-- A take of a new record makes entries for visited pages that are not excluded, and for all of them if it goes
    through. -/
theorem take_filtered {data : TaskData} {mm : Mm} (alloc : TakeAlloc) (hl : AlignedLists data) (hm : mm.Sorted)
    (hnew : data.ss.ssPages = []) (hns : ¬Shadowed data mm.pgd.size) :
    (∀ p, ((takeMemorySnapshot alloc data mm).1.1.getSnapshotPage p).isSome → Visited data mm p ∧ ¬Excluded data p) ∧
    ((takeMemorySnapshot alloc data mm).2 = 0 → ∀ p, Visited data mm p → ¬Excluded data p →
      ((takeMemorySnapshot alloc data mm).1.1.getSnapshotPage p).isSome) := by
  have hstart : Filtered data mm 0 ⟨data, mm, ⟨0, 0⟩⟩ :=
    ⟨rfl, rfl, rfl, CacheSound.zero, fun p => by simp [TaskData.getSnapshotPage, hnew]⟩
  obtain ⟨y, hy, hend⟩ := hstart.takeVmas alloc hl hm hns (List.nil_append _).symm (by simp) (by simp)
  refine ⟨fun p hp => ((hy.entries p).mp hp).2, fun h0 p hv hex => (hy.entries p).mpr ⟨?_, hv, hex⟩⟩
  obtain ⟨v, hvm, hin, -⟩ := hv.walked
  exact lt_of_lt_of_le hin.2 (hend h0 v hvm)

/-! ### What a shadowed page gets -/

/-- The entries of the two address spaces span the same sizes. -/
structure Mm.SameGeometry (mm mm' : Mm) : Prop where
  pgd : mm'.pgd.size = mm.pgd.size
  p4d : mm'.p4d.size = mm.p4d.size
  pud : mm'.pud.size = mm.pud.size
  pmd : mm'.pmd.size = mm.pmd.size

/-- Writable private VMAs at the given ranges, with page tables everywhere. -/
def Mm.full (mm : Mm) (ranges : List (Nat × Nat)) : Mm where
  mmap := ranges.map fun r => ⟨0, r.1, r.2, vmRead ||| vmWrite, none⟩
  freshVma := 1
  pgd := { mm.pgd with populated := fun _ => true }
  p4d := { mm.p4d with populated := fun _ => true }
  pud := { mm.pud with populated := fun _ => true }
  pmd := { mm.pmd with populated := fun _ => true }
  pte := fun _ => .none
  brk := 0
  startStack := 0
  owner := 0

/-- All allocations succeed. -/
def TakeAlloc.ok : TakeAlloc := ⟨fun _ => true, fun _ => true, fun _ => 0⟩

section
variable {data : TaskData} {mm : Mm} {s : WalkState} {page x e A : Nat}

/-- A walk of the VMA `[page, e)` that has `A` for its allowed address when it comes to `page`. -/
structure Forced (data : TaskData) (mm : Mm) (A page e x : Nat) (s : WalkState) : Prop where
  config : s.data.config = data.config
  ranges : s.data.ranges = data.ranges
  tables : s.mm = { mm with pte := s.mm.pte }
  cache : x = page ∨ e = page + pageSize → s.walkData = ⟨A, 0⟩
  entry : page < x → (s.data.getSnapshotPage page).isSome

theorem snapshotPteEntry_ok (a b : Nat) (s : WalkState) :
    (snapshotPteEntry TakeAlloc.ok.snapshotPage a b s).2 = 0 := by
  simp only [snapshotPteEntry]
  split
  · rfl
  · rcases makeSnapshotPage_spec s.mm (TakeAlloc.ok.snapshotPage a) with ⟨_, -, hmake⟩ | ⟨hbad, -⟩
    · rw [hmake]
    · cases hbad

/-- The callbacks of the levels below the first. -/
theorem Forced.entryCall (hpd : pageSize ∣ page)
    (hcall : ∀ e', page < e' → e' ≤ e → snapshotWalkCheckRange data page e' ⟨A, 0⟩ = (⟨A, 0⟩, .subtree))
    {g : Stage pageSize WalkState} (hg : g ∈ snapshotWalkOps mm) {a e' : Nat} (hla : page ≤ a) (hae : a < e')
    (hhi : e' ≤ e) (ha : pageSize ∣ a) (h : Forced data mm A page e a s) :
    Entered (Forced data mm A page e) a e' (g.entry a e' s) := by
  have hcheck : snapshotWalkCheckRange s.data a e' s.walkData = snapshotWalkCheckRange data a e' s.walkData :=
    checkRange_congr h.config h.ranges _
  rcases Nat.eq_or_lt_of_le hla with rfl | hlt
  · -- At the page itself all the calls are let in and nothing changes.
    have hw := h.cache (Or.inl rfl)
    have hr : snapshotWalkCheckRange s.data page e' s.walkData = (⟨A, 0⟩, .subtree) := by
      rw [hcheck, hw]
      exact hcall e' hae hhi
    have hstate : { s with walkData := ⟨A, 0⟩ } = s := by rw [← hw]
    have upper : Entered (Forced data mm A page e) page e' (snapshotUpperEntry page e' s) := by
      rw [snapshotUpperEntry, hr, hstate]
      exact ⟨by simp, fun _ => h⟩
    have lower : Entered (Forced data mm A page e) page e' (snapshotLowerEntry page e' s) := by
      simp only [snapshotLowerEntry, hr, hstate]
      exact ⟨by simp, fun _ => h⟩
    simp only [snapshotWalkOps, List.mem_cons, List.not_mem_nil, or_false] at hg
    rcases hg with rfl | rfl | rfl | rfl
    · exact upper
    · exact upper
    · exact lower
    · exact lower
  · -- Later calls cannot take the page's entry away.
    have hbig : e ≠ page + pageSize := by
      have := add_pageSize_le hpd ha hlt
      omega
    have hany : ∀ w x, page < x → Forced data mm A page e x { s with walkData := w } := fun w x hx =>
      ⟨h.config, h.ranges, h.tables, fun hc => absurd hc (not_or.mpr ⟨hx.ne', hbig⟩), fun _ => h.entry hlt⟩
    simp only [snapshotWalkOps, List.mem_cons, List.not_mem_nil, or_false] at hg
    rcases hg with rfl | rfl | rfl | rfl <;>
      exact ⟨fun _ => hany _ _ (lt_trans hlt hae), fun _ => hany _ _ hlt⟩

theorem Forced.leaf (hpd : pageSize ∣ page)
    (hcall : ∀ e', page < e' → e' ≤ e → snapshotWalkCheckRange data page e' ⟨A, 0⟩ = (⟨A, 0⟩, .subtree))
    {a : Nat} (hla : page ≤ a) (hhi : a + pageSize ≤ e) (ha : pageSize ∣ a) (h : Forced data mm A page e a s) :
    Reached (Forced data mm A page e) a (a + pageSize)
      (snapshotPteEntry TakeAlloc.ok.snapshotPage a (a + pageSize) s) := by
  have hpos : a < a + pageSize := by simp [pageSize]
  have hcheck : snapshotWalkCheckRange s.data a (a + pageSize) s.walkData =
      snapshotWalkCheckRange data a (a + pageSize) s.walkData := checkRange_congr h.config h.ranges _
  simp only [snapshotPteEntry]
  rcases Nat.eq_or_lt_of_le hla with rfl | hlt
  · have hw := h.cache (Or.inl rfl)
    rw [hcheck, hw, hcall _ hpos hhi, if_neg (by simp)]
    rcases makeSnapshotPage_spec s.mm (TakeAlloc.ok.snapshotPage page) with ⟨data', hadd, hmake⟩ | ⟨hbad, -⟩
    · rw [hmake]
      refine Reached.of_inv hpos.le ⟨?_, ?_, ?_, fun _ => rfl, fun _ => ?_⟩
      · rw [hadd.same]
        exact h.config
      · rw [hadd.same]
        exact h.ranges
      · rw [h.tables]
        rfl
      · rw [hadd.entry]
        rfl
    · cases hbad
  · have hbig : e ≠ page + pageSize := by
      have := add_pageSize_le hpd ha hlt
      omega
    have hnot : ¬(a + pageSize = page ∨ e = page + pageSize) := by
      rintro (heq | heq)
      · omega
      · exact hbig heq
    split
    · exact Reached.of_inv hpos.le
        ⟨h.config, h.ranges, h.tables, fun hc => absurd hc hnot, fun _ => h.entry hlt⟩
    · rcases makeSnapshotPage_spec s.mm (TakeAlloc.ok.snapshotPage a) with ⟨data', hadd, hmake⟩ | ⟨hbad, -⟩
      · rw [hmake]
        refine Reached.of_inv hpos.le ⟨?_, ?_, ?_, fun hc => absurd hc hnot, fun _ => ?_⟩
        · rw [hadd.same]
          exact h.config
        · rw [hadd.same]
          exact h.ranges
        · rw [h.tables]
          rfl
        · rw [hadd.others page hlt.ne]
          exact h.entry hlt
      · cases hbad

/-- A VMA `[page, e)` whose first call leaves `A` in the cache: the page gets an entry, blocked or not. -/
theorem walk_forced {geo : Mm} {ranges : List (Nat × Nat)} (hpe : page < e) (hpd : pageSize ∣ page)
    (hed : pageSize ∣ e) (hsame : SameEntry geo.pgd.size page e)
    (hconfig : s.data.config = data.config) (hranges : s.data.ranges = data.ranges)
    (htables : s.mm = { geo.full ranges with pte := s.mm.pte })
    (hfirst : snapshotWalkCheckRange data page e s.walkData = (⟨A, 0⟩, .subtree))
    (hcall : ∀ e', page < e' → e' ≤ e → snapshotWalkCheckRange data page e' ⟨A, 0⟩ = (⟨A, 0⟩, .subtree))
    {v : VmArea} (hv : v.vmStart = page ∧ v.vmEnd = e) :
    Forced data (geo.full ranges) A page e e (walkPageVma TakeAlloc.ok.snapshotPage v s).1 ∧
      (walkPageVma TakeAlloc.ok.snapshotPage v s).2 = 0 := by
  have hops : snapshotWalkOps s.mm = snapshotWalkOps (geo.full ranges) := by
    rw [htables]
    rfl
  have hzero : (walkPageVma TakeAlloc.ok.snapshotPage v s).2 = 0 := walk_result snapshotPteEntry_ok _ _ _ _
  refine ⟨?_, hzero⟩
  have hcheck : snapshotWalkCheckRange s.data page e s.walkData = (⟨A, 0⟩, .subtree) := by
    rw [checkRange_congr hconfig hranges, hfirst]
  have hwalk : walkPageVma TakeAlloc.ok.snapshotPage v s =
      walk (snapshotPteEntry TakeAlloc.ok.snapshotPage) (snapshotWalkOps (geo.full ranges)).tail page e
        { s with walkData := ⟨A, 0⟩ } := by
    rw [walkPageVma, hops, hv.1, hv.2, snapshotWalkOps, walk_of_sameEntry hpe hsame rfl]
    simp only [snapshotUpperEntry, hcheck]
    rfl
  have hstart : Forced data (geo.full ranges) A page e page { s with walkData := ⟨A, 0⟩ } :=
    ⟨hconfig, hranges, htables, fun _ => rfl, fun hlt => absurd hlt (lt_irrefl _)⟩
  have hreach : Reached (Forced data (geo.full ranges) A page e) page e
      (walkPageVma TakeAlloc.ok.snapshotPage v s) := by
    rw [hwalk]
    refine walk_inv (by simp [pageSize]) ?hole ?entry ?page le_rfl hpe.le le_rfl hpd hed hstart
    case hole =>
      intro g hg a e' s' hla hae hhi _ _ hnone _
      have hfull : g.populated (a / g.size) = true := by
        simp only [List.mem_cons, List.not_mem_nil, or_false] at hg
        rcases hg with rfl | rfl | rfl <;> rfl
      rw [hnone a le_rfl hae] at hfull
      cases hfull
    case entry =>
      intro g hg a e' s' hla hae hhi ha _ _ hI
      exact hI.entryCall hpd hcall (List.mem_cons_of_mem _ hg) hla hae hhi ha
    case page =>
      intro a s' hla hhi ha _ hI
      exact hI.leaf hpd hcall hla hhi ha
  exact hreach.1 hzero

/-- A call that is let in by the allowlist caches the end of the allowed range. -/
theorem check_let_in {addr next : Nat} {w : SnapshotWalkData} {a : VmRange}
    (hb : ∀ b, intersectBlocklist data addr next = some b → b.spans addr next = false)
    (ha : intersectAllowlist data addr next = some a) (hs : a.spans addr next = true)
    (hwb : w.nextBlockedAddress = 0) (hwa : w.nextAllowedAddress ≤ next) :
    snapshotWalkCheckRange data addr next w = (⟨a.end_, 0⟩, .subtree) := by
  have hstep := checkStep data addr next w
  cases hr : snapshotWalkCheckRange data addr next w with
  | mk w' act =>
    rw [hr] at hstep
    cases hstep with
    | fastBlocked h =>
      rw [hwb] at h
      exact absurd h (Nat.not_lt_zero _)
    | fastAllowed _ h => exact absurd h (not_lt.mpr hwa)
    | blocked b hb' hs' =>
      rw [hb b hb'] at hs'
      cases hs'
    | allowed _ a' ha' _ =>
      rw [ha] at ha'
      cases ha'
      rw [hwb]
    | partlyAllowed _ a' ha' hs' =>
      rw [ha] at ha'
      cases ha'
      rw [hs] at hs'
      cases hs'
    | notAllowed _ ha' _ => rw [ha] at ha'; cases ha'
    | notBlocked _ ha' _ => rw [ha] at ha'; cases ha'
    | partlyBlocked _ _ _ ha' _ => rw [ha] at ha'; cases ha'

theorem check_fast {addr next : Nat} (h : next < A) :
    snapshotWalkCheckRange data addr next ⟨A, 0⟩ = (⟨A, 0⟩, .subtree) := by
  simp [snapshotWalkCheckRange, h]

/-- The VMA `v` of the loop over the VMAs, where the first call of its walk leaves `A` in the cache. -/
theorem takeVmas_forced {geo : Mm} (ranges : List (Nat × Nat)) {v : VmArea} (vmas : List VmArea)
    (hpos : v.vmStart < v.vmEnd) (hd : pageSize ∣ v.vmStart ∧ pageSize ∣ v.vmEnd)
    (hsame : SameEntry geo.pgd.size v.vmStart v.vmEnd) (hskip : skipsVma data (geo.full ranges) v = false)
    (hconfig : s.data.config = data.config) (hranges : s.data.ranges = data.ranges)
    (htables : s.mm = { geo.full ranges with pte := s.mm.pte })
    (hfirst : snapshotWalkCheckRange data v.vmStart v.vmEnd s.walkData = (⟨A, 0⟩, .subtree))
    (hcall : ∀ e, v.vmStart < e → e ≤ v.vmEnd →
      snapshotWalkCheckRange data v.vmStart e ⟨A, 0⟩ = (⟨A, 0⟩, .subtree)) :
    ∃ s', Forced data (geo.full ranges) A v.vmStart v.vmEnd v.vmEnd s' ∧
      takeVmas TakeAlloc.ok (v :: vmas) s = takeVmas TakeAlloc.ok vmas s' := by
  let ssVma := TaskData.snapshotVmaOf v (TakeAlloc.ok.garbage v.vmStart)
  let data' : TaskData := { s.data with ss := { s.data.ss with
    allVmas := s.data.ss.allVmas ++ [ssVma], snapshottedVmas := s.data.ss.snapshottedVmas ++ [ssVma] } }
  obtain ⟨hforced, hzero⟩ := walk_forced (s := { s with data := data' }) hpos hd.1 hd.2 hsame hconfig
    hranges htables hfirst hcall ⟨rfl, rfl⟩
  refine ⟨_, hforced, ?_⟩
  have hskip' : skipsVma { s.data with ss := { s.data.ss with allVmas := s.data.ss.allVmas ++ [ssVma] } } s.mm v =
      false := by
    rw [← hskip]
    exact skipsVma_congr hconfig hranges (by rw [htables]) v
  rw [takeVmas]
  show (if skipsVma _ s.mm v = true then _ else _) = _
  rw [hskip']
  exact if_pos hzero

end

/-- Where something is shadowed, a walk of one or two VMAs snapshots a blocked page. -/
theorem shadowed_snapshotted {data : TaskData} (geo : Mm) (h : Shadowed data geo.pgd.size) :
    ∃ ranges, (geo.full ranges).Sorted ∧ ∃ p, pageSize ∣ p ∧ Blocked data p ∧
      ((takeMemorySnapshot TakeAlloc.ok data (geo.full ranges)).1.1.getSnapshotPage p).isSome := by
  obtain ⟨addr, next, page, a, had, hnd, hpd, hlt, hsame, ha, hs, hb, hle, hend, hblocked⟩ := h
  have hspan := VmRange.spans_iff.mp hs
  have hpos : ∀ p : Nat, p < p + pageSize := fun p => by simp [pageSize]
  have haddrA : addr < a.end_ := by omega
  have hpageA : page < a.end_ := lt_trans (hpos page) hend
  -- A VMA that starts within the allowed range is not skipped.
  have hskip : ∀ {m : Mm} {v : VmArea}, v.vmStart < v.vmEnd → addr ≤ v.vmStart → v.vmStart < a.end_ →
      skipsVma data m v = false := by
    intro m v hpos h1 h2
    have hsome : (intersectAllowlist data v.vmStart v.vmEnd).isSome := by
      rw [intersectAllowlist, List.find?_isSome]
      exact ⟨a, (allowlist_meets ha).1, VmRange.meets_of_in ⟨le_trans hspan.1 h1, h2⟩ le_rfl hpos⟩
    rw [skipsVma, Option.isNone_eq_false_iff.mpr hsome]
    rfl
  by_cases haddr : Blocked data addr
  · -- The first page of `[addr, next)` is blocked, and one VMA is enough.
    have hcall : ∀ e, addr < e → e ≤ next →
        snapshotWalkCheckRange data addr e ⟨a.end_, 0⟩ = (⟨a.end_, 0⟩, .subtree) := by
      intro e _ he
      rcases Nat.lt_or_ge e a.end_ with hfast | hslow
      · exact check_fast hfast
      · obtain rfl : e = next := le_antisymm he (le_trans hspan.2 hslow)
        exact check_let_in hb ha hs rfl hslow
    refine ⟨[(addr, next)], ⟨Spans.Ordered.cons hlt (by simp) Spans.Ordered.nil, by simp [Mm.full, had, hnd]⟩,
      addr, had, haddr, ?_⟩
    let v : VmArea := ⟨0, addr, next, vmRead ||| vmWrite, none⟩
    obtain ⟨s', hforced, htake⟩ := takeVmas_forced [(addr, next)] [] (v := v)
      (s := ⟨data, geo.full [(addr, next)], ⟨0, 0⟩⟩) hlt ⟨had, hnd⟩ hsame (hskip hlt le_rfl haddrA) rfl rfl rfl
      (check_let_in hb ha hs rfl (Nat.zero_le _)) hcall
    have hmmap : (geo.full [(addr, next)]).mmap = [v] := rfl
    rw [takeMemorySnapshot, hmmap, htake]
    exact hforced.entry hlt
  · -- The first page is let in and caches the end of the allowed range; then comes the blocked page.
    have hlt' : addr + pageSize ≤ page := by
      have hne : addr ≠ page := by
        rintro rfl
        exact haddr hblocked
      exact add_pageSize_le had hpd (lt_of_le_of_ne hle hne)
    have hfastA : addr + pageSize < a.end_ := lt_of_le_of_lt hlt' hpageA
    have hnd' : pageSize ∣ addr + pageSize := Nat.dvd_add had (Nat.dvd_refl _)
    have hpd' : pageSize ∣ page + pageSize := Nat.dvd_add hpd (Nat.dvd_refl _)
    have hb' : ∀ b, intersectBlocklist data addr (addr + pageSize) = some b →
        b.spans addr (addr + pageSize) = false := by
      intro b hbb
      cases hbs : b.spans addr (addr + pageSize) with
      | false => rfl
      | true => exact absurd (blocked_of_spans hbb (VmRange.in_of_spans hbs le_rfl (hpos addr))) haddr
    have ha' : intersectAllowlist data addr (addr + pageSize) = some a := by
      -- What the first page meets is met by `[addr, next)` too.
      obtain ⟨hmeets, front, back, hlist, hfront⟩ := List.find?_eq_some_iff_append.mp ha
      refine List.find?_eq_some_iff_append.mpr ⟨?_, front, back, hlist, fun x hx => ?_⟩
      · exact VmRange.meets_of_in ⟨hspan.1, haddrA⟩ le_rfl (hpos addr)
      · have hx' := hfront x hx
        have hn := add_pageSize_le had hnd hlt
        simp only [VmRange.meets, Bool.not_eq_eq_eq_not, Bool.not_true, Bool.and_eq_false_iff,
          decide_eq_false_iff_not] at hx' ⊢
        omega
    have hs' : a.spans addr (addr + pageSize) = true := VmRange.spans_iff.mpr ⟨hspan.1, hfastA.le⟩
    let v : VmArea := ⟨0, addr, addr + pageSize, vmRead ||| vmWrite, none⟩
    let v' : VmArea := ⟨0, page, page + pageSize, vmRead ||| vmWrite, none⟩
    let ranges := [(addr, addr + pageSize), (page, page + pageSize)]
    have hmmap : (geo.full ranges).mmap = [v, v'] := rfl
    refine ⟨ranges, ⟨?_, ?_⟩, page, hpd, hblocked, ?_⟩
    · rw [hmmap]
      refine Spans.Ordered.cons (hpos addr) ?_ (Spans.Ordered.cons (hpos page) (by simp) Spans.Ordered.nil)
      intro y hy
      rw [List.mem_singleton.mp hy]
      exact hlt'
    · rw [hmmap]
      simp [v, v', had, hnd', hpd, hpd']
    · obtain ⟨s₁, hforced₁, htake₁⟩ := takeVmas_forced ranges [v'] (v := v) (s := ⟨data, geo.full ranges, ⟨0, 0⟩⟩)
        (hpos addr) ⟨had, hnd'⟩ (sameEntry_page geo.pgd.dvd had) (hskip (hpos addr) le_rfl haddrA) rfl rfl rfl
        (check_let_in hb' ha' hs' rfl (Nat.zero_le _)) (fun e _ he => check_fast (lt_of_le_of_lt he hfastA))
      have hcache : s₁.walkData = ⟨a.end_, 0⟩ := hforced₁.cache (Or.inr rfl)
      obtain ⟨s₂, hforced₂, htake₂⟩ := takeVmas_forced ranges [] (v := v') (s := s₁)
        (hpos page) ⟨hpd, hpd'⟩ (sameEntry_page geo.pgd.dvd hpd) (hskip (hpos page) hle hpageA) hforced₁.config
        hforced₁.ranges hforced₁.tables (by rw [hcache]; exact check_fast hend) (fun e _ he => check_fast (lt_of_le_of_lt he hend))
      rw [takeMemorySnapshot, hmmap, htake₁, htake₂]
      exact hforced₂.entry (hpos page)

/-- The walk and the filter without its cache agree: only visited pages that the filter, asked about them alone,
    does not skip reach `make_snapshot_page`, and all of them do if the walk goes through. -/
def CacheAgrees (alloc : TakeAlloc) (data : TaskData) (mm : Mm) : Prop :=
  (∀ p, ((takeMemorySnapshot alloc data mm).1.1.getSnapshotPage p).isSome →
    Visited data mm p ∧ (snapshotWalkCheckRange data p (p + pageSize) ⟨0, 0⟩).2 ≠ .skip) ∧
  ((takeMemorySnapshot alloc data mm).2 = 0 → ∀ p, Visited data mm p →
    (snapshotWalkCheckRange data p (p + pageSize) ⟨0, 0⟩).2 ≠ .skip →
    ((takeMemorySnapshot alloc data mm).1.1.getSnapshotPage p).isSome)

/-- A record with the second page blocked and the first four allowed. -/
def shadowedData : TaskData :=
  { TaskData.new 0 with ranges := (RangeLists.empty.exclude 4096 8192).include_ 0 16384 }

end AflSnapshot
