import AflSnapshot.Threads
import AflSnapshot.Lib.Runs

/-! # Killing the threads of a group

The loop of `recover_threads_snapshot` ends and drops its references whatever the other threads do. It comes to every
thread as long as none exits while it is the one at hand: `next_tid` gives no thread after one that is gone. -/

namespace AflSnapshot
open Runs

/-- The group when the loop starts: threads that are there, among them the one that runs the loop. -/
structure ThreadGroup.Ready (leader tsk : Nat) (g : ThreadGroup) : Prop where
  leader : g.threads.head? = some leader
  nodup : g.threads.Nodup
  alive : ∀ t ∈ g.threads, g.pidAlive t = true
  tsk : tsk ∈ g.threads
  sigkills : ∀ t, g.sigkills t = 0
  gets : ∀ t, g.gets t = 0
  puts : ∀ t, g.puts t = 0

/-- The thread at hand does not exit. -/
def ThreadsLoop.Stays (s : ThreadsLoop) (e : ThreadsEvent) : Prop := ∀ t, e = .exit t → s.t ≠ some t

section
variable {leader tsk t u : Nat} {g : ThreadGroup} {s : ThreadsLoop} {l l₁ l₂ : List Nat} {e : ThreadsEvent}

/-! ### The ring -/

theorem following_of_not_mem (h : t ∉ l) : following t l = [] := by
  induction l with
  | nil => rfl
  | cons v l ih =>
    rw [List.mem_cons, not_or] at h
    rw [following, if_neg (Ne.symm h.1), ih h.2]

theorem following_append (h : t ∉ l₁) : following t (l₁ ++ t :: l₂) = l₂ := by
  induction l₁ with
  | nil => exact if_pos rfl
  | cons v l₁ ih =>
    rw [List.mem_cons, not_or] at h
    rw [List.cons_append, following, if_neg (Ne.symm h.1), ih h.2]

theorem length_following_lt (h : t ∈ l) : (following t l).length < l.length := by
  induction l with
  | nil => cases h
  | cons v l ih =>
    rw [following]
    split
    · exact Nat.lt_succ_self _
    · rename_i hv
      exact (ih ((List.mem_cons.mp h).resolve_left (Ne.symm hv))).trans (Nat.lt_succ_self _)

theorem following_cons (hl : l.Nodup) (h : following t l = u :: l₂) : u ∈ l ∧ following u l = l₂ := by
  induction l with
  | nil => cases h
  | cons v l ih =>
    obtain ⟨hv, hl⟩ := List.nodup_cons.mp hl
    rw [following] at h
    by_cases hvt : v = t
    · rw [if_pos hvt] at h
      subst h
      have huv : v ≠ u := fun heq => hv (heq ▸ List.mem_cons_self)
      exact ⟨by simp, by rw [following, if_neg huv, following, if_pos rfl]⟩
    · rw [if_neg hvt] at h
      obtain ⟨hu, hf⟩ := ih hl h
      have huv : v ≠ u := fun heq => hv (heq ▸ hu)
      exact ⟨List.mem_cons_of_mem _ hu, by rw [following, if_neg huv, hf]⟩

/-- The threads after one do not become more when another exits. -/
theorem length_following_erase (u : Nat) : (following t (l.erase u)).length ≤ (following t l).length := by
  induction l with
  | nil => exact le_rfl
  | cons v l ih =>
    by_cases hvu : v = u
    · subst hvu
      rw [List.erase_cons_head, following]
      split
      · rename_i hv
        by_cases hmem : t ∈ l
        · exact (length_following_lt hmem).le
        · rw [following_of_not_mem hmem]
          exact Nat.zero_le _
      · exact le_rfl
    · rw [List.erase_cons_tail (by simpa using hvu), following, following]
      split
      · exact (List.erase_sublist).length_le
      · exact ih

@[simp] theorem signal_threads : (g.signal tsk t).threads = g.threads := by
  unfold ThreadGroup.signal
  split <;> rfl

@[simp] theorem signal_pidAlive : (g.signal tsk t).pidAlive = g.pidAlive := by
  unfold ThreadGroup.signal
  split <;> rfl

@[simp] theorem signal_refs : (g.signal tsk t).gets = g.gets ∧ (g.signal tsk t).puts = g.puts := by
  unfold ThreadGroup.signal
  split <;> exact ⟨rfl, rfl⟩

theorem signal_sigkills : (g.signal tsk t).sigkills u = if u = t ∧ t ≠ tsk then g.sigkills t + 1 else g.sigkills u := by
  unfold ThreadGroup.signal
  by_cases ht : t = tsk
  · rw [if_neg (not_not.mpr ht), if_neg fun h => h.2 ht]
  · rw [if_pos ht]
    show Function.update g.sigkills t (g.sigkills t + 1) u = _
    simp [Function.update_apply, ht]

/-- `next_tid` moves to the next thread, if there is one and the thread that it starts from is there. -/
theorem nextTid_cases (leader : Nat) (g : ThreadGroup) (t : Nat) :
    (∃ v l, g.pidAlive t = true ∧ following t g.threads = v :: l ∧ v ≠ leader ∧
      g.nextTid leader t = ((g.getTaskStruct v).putTaskStruct t, some v)) ∨
    ((g.pidAlive t = true → (following t g.threads).headD leader = leader) ∧
      g.nextTid leader t = (g.putTaskStruct t, none)) := by
  unfold ThreadGroup.nextTid ThreadGroup.nextThread
  cases halive : g.pidAlive t with
  | false => exact Or.inr ⟨nofun, rfl⟩
  | true =>
    by_cases hlast : (following t g.threads).headD leader = leader
    · refine Or.inr ⟨fun _ => hlast, ?_⟩
      rw [if_pos rfl, if_pos hlast]
    · cases hf : following t g.threads with
      | nil =>
        rw [hf] at hlast
        exact absurd rfl hlast
      | cons v l =>
        rw [hf] at hlast
        refine Or.inl ⟨v, l, rfl, rfl, hlast, ?_⟩
        rw [if_pos rfl, if_neg hlast]
        rfl

/-! ### The end of the loop, and its references -/

/-- The steps that the loop has left, at most. -/
def ThreadsLoop.left (s : ThreadsLoop) : Nat :=
  match s.t with
  | none => 0
  | some t => 2 * (following t s.group.threads).length + if s.signalled then 1 else 2

theorem left_eq_zero : s.left = 0 ↔ s.t = none := by
  unfold ThreadsLoop.left
  cases s.t with
  | none => simp
  | some t => cases s.signalled <;> simp

theorem happen_ended (h : s.t = none) (e : ThreadsEvent) : (s.happen leader tsk e).t = none := by
  cases e with
  | step =>
    show (s.step leader tsk).t = none
    unfold ThreadsLoop.step
    rw [h]
    exact h
  | exit u =>
    unfold ThreadsLoop.happen
    dsimp only
    split
    · exact h
    · exact h

theorem left_happen (h : s.group.threads.Nodup) (e : ThreadsEvent) :
    (s.happen leader tsk e).left ≤ s.left - if e = .step then 1 else 0 := by
  obtain ⟨g, o, signalled⟩ := s
  cases o with
  | none =>
    rw [left_eq_zero.mpr (happen_ended rfl e)]
    exact Nat.zero_le _
  | some t =>
    cases e with
    | exit u =>
      unfold ThreadsLoop.happen ThreadGroup.exit
      dsimp only
      split
      · split
        · exact le_rfl
        · have hle := length_following_erase (l := g.threads) (t := t) u
          unfold ThreadsLoop.left
          simp only [reduceCtorEq, ↓reduceIte]
          omega
      · exact le_rfl
    | step =>
      cases signalled with
      | false =>
        show 2 * (following t (g.signal tsk t).threads).length + 1 ≤ 2 * (following t g.threads).length + 2 - 1
        rw [signal_threads]
        exact le_rfl
      | true =>
        show ThreadsLoop.left ⟨(g.nextTid leader t).1, (g.nextTid leader t).2, false⟩ ≤
          2 * (following t g.threads).length + 1 - 1
        rcases nextTid_cases leader g t with ⟨v, l, -, hf, -, heq⟩ | ⟨-, heq⟩ <;> rw [heq]
        · show 2 * (following v g.threads).length + 2 ≤ _
          rw [(following_cons h hf).2, hf, List.length_cons]
          omega
        · exact Nat.zero_le _

/-- What the loop keeps whatever the other threads do. -/
structure ThreadsLoop.Counted (tsk : Nat) (s : ThreadsLoop) : Prop where
  nodup : s.group.threads.Nodup
  spared : s.group.sigkills tsk = 0
  /-- It holds a reference to the thread at hand, and to no other. -/
  refs : ∀ u, s.group.gets u = s.group.puts u + if s.t = some u then 1 else 0

theorem ThreadsLoop.Counted.happen (h : s.Counted tsk) (e : ThreadsEvent) : (s.happen leader tsk e).Counted tsk := by
  obtain ⟨g, o, signalled⟩ := s
  have hrefs : ∀ u, g.gets u = g.puts u + if o = some u then 1 else 0 := h.refs
  cases e with
  | exit u =>
    unfold ThreadsLoop.happen ThreadGroup.exit
    dsimp only
    split
    · split
      · exact h
      · exact ⟨h.nodup.erase u, h.spared, h.refs⟩
    · exact h
  | step =>
    cases o with
    | none => exact h
    | some t =>
      cases signalled with
      | false =>
        show ThreadsLoop.Counted tsk ⟨g.signal tsk t, some t, true⟩
        refine ⟨signal_threads (g := g) ▸ h.nodup, ?_, fun u => ?_⟩
        · show (g.signal tsk t).sigkills tsk = 0
          rw [signal_sigkills, if_neg fun heq => heq.2 heq.1.symm]
          exact h.spared
        · show (g.signal tsk t).gets u = (g.signal tsk t).puts u + _
          rw [signal_refs.1, signal_refs.2]
          exact h.refs u
      | true =>
        show ThreadsLoop.Counted tsk ⟨(g.nextTid leader t).1, (g.nextTid leader t).2, false⟩
        rcases nextTid_cases leader g t with ⟨v, l, -, hf, -, heq⟩ | ⟨-, heq⟩ <;> rw [heq]
        · refine ⟨h.nodup, h.spared, fun u => ?_⟩
          have hu := hrefs u
          rcases eq_or_ne u t with rfl | hut <;> rcases eq_or_ne u v with rfl | huv
          · simpa [ThreadGroup.putTaskStruct, ThreadGroup.getTaskStruct] using hu
          · simpa [ThreadGroup.putTaskStruct, ThreadGroup.getTaskStruct, huv, Ne.symm huv] using hu
          · simpa [ThreadGroup.putTaskStruct, ThreadGroup.getTaskStruct, hut, Ne.symm hut] using hu
          · simpa [ThreadGroup.putTaskStruct, ThreadGroup.getTaskStruct, hut, Ne.symm hut, huv, Ne.symm huv] using hu
        · refine ⟨h.nodup, h.spared, fun u => ?_⟩
          have hu := hrefs u
          rcases eq_or_ne u t with rfl | hut
          · simpa [ThreadGroup.putTaskStruct] using hu
          · simpa [ThreadGroup.putTaskStruct, hut, Ne.symm hut] using hu

/-! ### The threads that the loop comes to -/

/-- The threads before the one at hand have been signalled, and those after it have not. When the loop has ended, all
    have been. -/
def ThreadsLoop.Sent (tsk : Nat) (s : ThreadsLoop) : Prop :=
  match s.t with
  | none => ∀ u ∈ s.group.threads, u ≠ tsk → s.group.sigkills u = 1
  | some t => ∃ before after, s.group.threads = before ++ t :: after ∧ (∀ u ∈ before, u ≠ tsk → s.group.sigkills u = 1) ∧
      (t ≠ tsk → s.group.sigkills t = if s.signalled then 1 else 0) ∧ ∀ u ∈ after, s.group.sigkills u = 0

structure ThreadsLoop.Walks (leader tsk : Nat) (s : ThreadsLoop) : Prop where
  leader : s.group.threads.head? = some leader
  nodup : s.group.threads.Nodup
  alive : ∀ u ∈ s.group.threads, s.group.pidAlive u = true
  sent : s.Sent tsk

theorem ThreadsLoop.Walks.exit (h : s.Walks leader tsk) (hu : s.t ≠ some u) (hl : u ≠ leader) :
    ThreadsLoop.Walks leader tsk { s with group := s.group.exit leader u } := by
  have hgroup : s.group.exit leader u = { s.group with
      threads := s.group.threads.erase u, pidAlive := Function.update s.group.pidAlive u false } := if_neg hl
  obtain ⟨g, o, signalled⟩ := s
  rw [hgroup]
  have hmem : ∀ {v}, v ∈ g.threads.erase u → v ∈ g.threads := fun h => List.mem_of_mem_erase h
  refine ⟨?_, h.nodup.erase u, fun v hv => ?_, ?_⟩
  · obtain ⟨l, hsplit⟩ := List.head?_eq_some_iff.mp h.leader
    have hsplit : g.threads = leader :: l := hsplit
    show (g.threads.erase u).head? = some leader
    rw [hsplit, List.erase_cons_tail (by simpa using Ne.symm hl)]
    rfl
  · have hvu : v ≠ u := fun heq => (List.Nodup.mem_erase_iff h.nodup).mp hv |>.1 heq
    show Function.update g.pidAlive u false v = true
    rw [Function.update_of_ne hvu]
    exact h.alive v (hmem hv)
  · cases o with
    | none => exact fun v hv => h.sent v (hmem hv)
    | some t =>
      obtain ⟨before, after, hsplit, hbefore, hat, hafter⟩ := h.sent
      have htu : t ≠ u := fun heq => hu (congrArg some heq)
      have hsplit : g.threads = before ++ t :: after := hsplit
      show ∃ before after, g.threads.erase u = before ++ t :: after ∧ _
      rw [hsplit]
      by_cases hin : u ∈ before
      · exact ⟨before.erase u, after, List.erase_append_left _ hin, fun v hv => hbefore v (List.mem_of_mem_erase hv), hat, hafter⟩
      · refine ⟨before, after.erase u, ?_, hbefore, hat, fun v hv => hafter v (List.mem_of_mem_erase hv)⟩
        rw [List.erase_append_right _ hin, List.erase_cons_tail (by simpa using htu)]

theorem ThreadsLoop.Walks.step (h : s.Walks leader tsk) : (s.step leader tsk).Walks leader tsk := by
  obtain ⟨g, o, signalled⟩ := s
  cases o with
  | none => exact h
  | some t =>
    obtain ⟨before, after, hsplit, hbefore, hat, hafter⟩ := h.sent
    have hsplit : g.threads = before ++ t :: after := hsplit
    have hnodup : (before ++ t :: after).Nodup := hsplit ▸ h.nodup
    obtain ⟨-, hta, hdisj⟩ := List.nodup_append.mp hnodup
    cases signalled with
    | false =>
      show ThreadsLoop.Walks leader tsk ⟨g.signal tsk t, some t, true⟩
      -- Only the thread at hand is signalled.
      have hother : ∀ u, u ≠ t → (g.signal tsk t).sigkills u = g.sigkills u := fun u hu => by
        rw [signal_sigkills, if_neg fun h => hu h.1]
      refine ⟨signal_threads (g := g) ▸ h.leader, signal_threads (g := g) ▸ h.nodup, fun u hu => ?_, before, after,
        signal_threads.trans hsplit, fun u hu htsk => ?_, fun htsk => ?_, fun u hu => ?_⟩
      · have hu : u ∈ (g.signal tsk t).threads := hu
        rw [signal_threads] at hu
        show (g.signal tsk t).pidAlive u = true
        rw [signal_pidAlive]
        exact h.alive u hu
      · exact (hother u (hdisj u hu t List.mem_cons_self)).trans (hbefore u hu htsk)
      · show (g.signal tsk t).sigkills t = 1
        have hzero : g.sigkills t = 0 := hat htsk
        rw [signal_sigkills, if_pos ⟨rfl, htsk⟩, hzero]
      · exact (hother u fun heq => (List.nodup_cons.mp hta).1 (heq ▸ hu)).trans (hafter u hu)
    | true =>
      have hfollow : following t g.threads = after := by
        rw [hsplit]
        exact following_append fun hin => hdisj t hin t List.mem_cons_self rfl
      have hlive : g.pidAlive t = true := h.alive t (hsplit ▸ by simp)
      show ThreadsLoop.Walks leader tsk ⟨(g.nextTid leader t).1, (g.nextTid leader t).2, false⟩
      rcases nextTid_cases leader g t with ⟨v, l, -, hf, -, heq⟩ | ⟨hlast, heq⟩ <;> rw [heq]
      · rw [hfollow] at hf
        subst hf
        refine ⟨h.leader, h.nodup, h.alive, before ++ [t], l, hsplit.trans (by simp),
          fun u hu htsk => ?_, fun _ => hafter v List.mem_cons_self, fun u hu => hafter u (List.mem_cons_of_mem _ hu)⟩
        rcases List.mem_append.mp hu with hu | hu
        · exact hbefore u hu htsk
        · obtain rfl := List.mem_singleton.mp hu
          exact hat htsk
      · -- The thread at hand is the last of the ring.
        have hnil : after = [] := by
          have hhead := hlast hlive
          rw [hfollow] at hhead
          cases hafter' : after with
          | nil => rfl
          | cons v l =>
            rw [hafter'] at hhead
            obtain rfl : v = leader := hhead
            subst hafter'
            have hfirst : (before ++ t :: v :: l).head? = some v := hsplit ▸ h.leader
            cases before with
            | nil =>
              obtain rfl : t = v := Option.some.inj hfirst
              simp at hta
            | cons w before =>
              obtain rfl : w = v := Option.some.inj hfirst
              exact absurd rfl (hdisj w List.mem_cons_self w (by simp))
        subst hnil
        refine ⟨h.leader, h.nodup, h.alive, fun u hu htsk => ?_⟩
        have hu : u ∈ g.threads := hu
        rw [hsplit] at hu
        rcases List.mem_append.mp hu with hu | hu
        · exact hbefore u hu htsk
        · obtain rfl := List.mem_singleton.mp hu
          exact hat htsk

theorem ThreadsLoop.Walks.happen (h : s.Walks leader tsk) (he : s.Stays e) : (s.happen leader tsk e).Walks leader tsk := by
  cases e with
  | step => exact h.step
  | exit u =>
    have hu : s.t ≠ some u := he u rfl
    unfold ThreadsLoop.happen
    dsimp only
    split
    · by_cases hl : u = leader
      · have hsame : s.group.exit leader u = s.group := if_pos hl
        rw [hsame]
        exact h
      · exact h.exit hu hl
    · exact h

/-! ### The whole loop -/

theorem ThreadGroup.Ready.counted (h : g.Ready leader tsk) : (ThreadsLoop.start leader g).Counted tsk where
  nodup := h.nodup
  spared := h.sigkills tsk
  refs u := by
    show Function.update g.gets leader (g.gets leader + 1) u = g.puts u + if some leader = some u then 1 else 0
    rcases eq_or_ne u leader with rfl | hu
    · rw [Function.update_self, h.gets, h.puts, if_pos rfl]
    · rw [Function.update_of_ne hu, h.gets, h.puts, if_neg fun heq => hu (Option.some.inj heq).symm]

theorem ThreadGroup.Ready.walks (h : g.Ready leader tsk) : (ThreadsLoop.start leader g).Walks leader tsk where
  leader := h.leader
  nodup := h.nodup
  alive := h.alive
  sent := by
    obtain ⟨l, hl⟩ := List.head?_eq_some_iff.mp h.leader
    exact ⟨[], l, hl, fun u hu => absurd hu List.not_mem_nil, fun _ => h.sigkills leader, fun u _ => h.sigkills u⟩

theorem counted_foldl (h : s.Counted tsk) (es : List ThreadsEvent) :
    (es.foldl (ThreadsLoop.happen leader tsk) s).Counted tsk ∧
      (es.foldl (ThreadsLoop.happen leader tsk) s).left ≤ s.left - es.count .step := by
  induction es generalizing s with
  | nil => exact ⟨h, le_rfl⟩
  | cons e es ih =>
    obtain ⟨hcounted, hleft⟩ := ih (h.happen e)
    refine ⟨hcounted, hleft.trans ?_⟩
    have hstep : (s.happen leader tsk e).left ≤ s.left - if e = .step then 1 else 0 := left_happen h.nodup e
    rw [List.count_cons]
    by_cases he : e = .step
    · simp only [he, ↓reduceIte, beq_self_eq_true] at hstep ⊢
      omega
    · simp only [he, ↓reduceIte, beq_iff_eq] at hstep ⊢
      omega

theorem walks_foldl (h : s.Walks leader tsk) {es : List ThreadsEvent}
    (hes : Along (ThreadsLoop.happen leader tsk) ThreadsLoop.Stays s es) :
    (es.foldl (ThreadsLoop.happen leader tsk) s).Walks leader tsk :=
  hes.run.invariant h fun _ _ hs he => hs.happen he

/-- The group of the task 2, which 1 leads. -/
def fourThreads : ThreadGroup := ⟨[1, 2, 3, 4], fun _ => true, fun _ => 0, fun _ => 0, fun _ => 0⟩

theorem fourThreads_ready (h : tsk ∈ [1, 2, 3, 4]) : fourThreads.Ready 1 tsk :=
  ⟨rfl, by decide, fun _ _ => rfl, h, fun _ => rfl, fun _ => rfl, fun _ => rfl⟩

theorem steps_ended (h : s.t = none) (n : Nat) : (List.replicate n .step).foldl (ThreadsLoop.happen leader tsk) s = s := by
  induction n with
  | zero => rfl
  | succ n ih =>
    have hstep : s.happen leader tsk .step = s := by
      show s.step leader tsk = s
      unfold ThreadsLoop.step
      rw [h]
    rw [List.replicate_succ, List.foldl_cons, hstep, ih]

/-- The two steps for a thread. -/
theorem steps_signalled (n : Nat) : (List.replicate (2 * (n + 1)) .step).foldl (ThreadsLoop.happen leader tsk) ⟨g, some t, false⟩ =
    (List.replicate (2 * n) .step).foldl (ThreadsLoop.happen leader tsk)
      ⟨((g.signal tsk t).nextTid leader t).1, ((g.signal tsk t).nextTid leader t).2, false⟩ := rfl

theorem signal_sigkills_of_zero (h : g.sigkills t = 0) :
    (g.signal tsk t).sigkills u = if u ∈ [t] ∧ u ≠ tsk then 1 else g.sigkills u := by
  rw [signal_sigkills, h]
  rcases eq_or_ne u t with rfl | hu
  · simp
  · simp [hu]

/-- Without exits the loop signals the threads that `World.tids` gives. -/
theorem sigkills_steps {task : Nat → Task} (hsplit : g.threads = l₁ ++ t :: l₂) (hnodup : g.threads.Nodup)
    (hhead : g.threads.head? = some leader) (halive : ∀ u, g.pidAlive u = (task u).pidAlive u)
    (hzero : ∀ u ∈ t :: l₂, g.sigkills u = 0) :
    let s := (List.replicate (2 * (l₂.length + 1)) .step).foldl (ThreadsLoop.happen leader tsk) ⟨g, some t, false⟩
    s.t = none ∧ ∀ u, s.group.sigkills u = if u ∈ World.tids task (t :: l₂) ∧ u ≠ tsk then 1 else g.sigkills u := by
  induction l₂ generalizing g t l₁ with
  | nil =>
    have htids : World.tids task [t] = [t] := by
      unfold World.tids
      split <;> rfl
    have hfollow : following t g.threads = [] := by
      rw [hsplit] at hnodup ⊢
      exact following_append fun hin => (List.nodup_append.mp hnodup).2.2 t hin t List.mem_cons_self rfl
    have hend : (g.signal tsk t).nextTid leader t = ((g.signal tsk t).putTaskStruct t, none) := by
      rcases nextTid_cases leader (g.signal tsk t) t with ⟨v, l, -, hf, -, -⟩ | ⟨-, heq⟩
      · rw [signal_threads, hfollow] at hf
        cases hf
      · exact heq
    dsimp only
    rw [steps_signalled, hend, steps_ended rfl, htids]
    exact ⟨rfl, fun u => signal_sigkills_of_zero (hzero t List.mem_cons_self)⟩
  | cons v l₂ ih =>
    have hnodup' : (l₁ ++ t :: v :: l₂).Nodup := hsplit ▸ hnodup
    have htin : t ∉ l₁ := fun hin => (List.nodup_append.mp hnodup').2.2 t hin t List.mem_cons_self rfl
    have hfollow : following t g.threads = v :: l₂ := by
      rw [hsplit]
      exact following_append htin
    have htv : t ∉ v :: l₂ := (List.nodup_cons.mp (List.nodup_append.mp hnodup').2.1).1
    have hv : v ≠ leader := by
      rintro rfl
      have hfirst : (l₁ ++ t :: v :: l₂).head? = some v := hsplit ▸ hhead
      cases l₁ with
      | nil =>
        obtain rfl : t = v := Option.some.inj hfirst
        exact htv List.mem_cons_self
      | cons w l₁ =>
        obtain rfl : w = v := Option.some.inj hfirst
        exact (List.nodup_append.mp hnodup').2.2 w List.mem_cons_self w (by simp) rfl
    dsimp only
    rw [List.length_cons, steps_signalled]
    rcases nextTid_cases leader (g.signal tsk t) t with ⟨v', l, hlive, hf, -, heq⟩ | ⟨hlast, heq⟩
    · rw [signal_threads, hfollow] at hf
      obtain ⟨rfl, rfl⟩ := List.cons.inj hf
      rw [signal_pidAlive, halive] at hlive
      have htids : World.tids task (t :: v :: l₂) = t :: World.tids task (v :: l₂) := if_pos hlive
      have hsig : ∀ u, (((g.signal tsk t).getTaskStruct v).putTaskStruct t).sigkills u = (g.signal tsk t).sigkills u := fun _ => rfl
      have hsplit' : (((g.signal tsk t).getTaskStruct v).putTaskStruct t).threads = (l₁ ++ [t]) ++ v :: l₂ := by
        show (g.signal tsk t).threads = _
        rw [signal_threads, hsplit, List.append_assoc]
        rfl
      have hrest := ih hsplit' (signal_threads (g := g) ▸ hnodup) (signal_threads (g := g) ▸ hhead)
        (fun u => (congrFun signal_pidAlive u).trans (halive u)) fun u hu => by
          rw [hsig, signal_sigkills, if_neg fun h : u = t ∧ t ≠ tsk => htv (h.1 ▸ hu)]
          exact hzero u (List.mem_cons_of_mem _ hu)
      rw [heq, htids]
      refine ⟨hrest.1, fun u => (hrest.2 u).trans ?_⟩
      rw [hsig, signal_sigkills_of_zero (hzero t List.mem_cons_self)]
      simp only [List.mem_cons, List.not_mem_nil, or_false]
      grind
    · have hdead : (task t).pidAlive t = false := by
        by_contra hlive
        rw [Bool.not_eq_false] at hlive
        have hhead := hlast (by rw [signal_pidAlive, halive, hlive])
        rw [signal_threads, hfollow] at hhead
        exact hv hhead
      have htids : World.tids task (t :: v :: l₂) = [t] := if_neg (by rw [hdead]; exact Bool.false_ne_true)
      rw [heq, steps_ended rfl, htids]
      exact ⟨rfl, fun u => signal_sigkills_of_zero (hzero t List.mem_cons_self)⟩

theorem sigkill_foldl (w : World) (u : Nat) : ((l.foldl (fun w t => if t = tsk then w else w.sendSigkill t) w).task u).sigkill =
    ((w.task u).sigkill || decide (u ∈ l ∧ u ≠ tsk)) := by
  induction l generalizing w with
  | nil => simp
  | cons t l ih =>
    have hone : ((if t = tsk then w else w.sendSigkill t).task u).sigkill = ((w.task u).sigkill || decide (u = t ∧ u ≠ tsk)) := by
      by_cases ht : t = tsk
      · rw [if_pos ht]
        by_cases hu : u = t <;> simp [hu, ht]
      · rw [if_neg ht]
        show (Function.update w.task t { w.task t with sigkill := true } u).sigkill = _
        rcases eq_or_ne u t with rfl | hu
        · simp [ht]
        · simp [hu]
    rw [List.foldl_cons, ih, hone, Bool.or_assoc]
    congr 1
    by_cases hu : u = t <;> by_cases hl : u ∈ l <;> simp [hu, hl]

/-- `World.recoverThreadsSnapshot` sends the signals that the loop sends when no thread exits meanwhile. -/
theorem recoverThreads_steps {w : World} (hnodup : (w.threads (w.task tsk).groupLeader).Nodup)
    (hhead : (w.threads (w.task tsk).groupLeader).head? = some (w.task tsk).groupLeader) :
    let leader := (w.task tsk).groupLeader
    let s := (List.replicate (2 * (w.threads leader).length) .step).foldl (ThreadsLoop.happen leader tsk)
      (.start leader (w.threadGroup leader))
    s.t = none ∧ ∀ u, ((w.recoverThreadsSnapshot tsk).task u).sigkill = ((w.task u).sigkill || s.group.sigkills u == 1) := by
  intro leader s
  obtain ⟨l, hl⟩ := List.head?_eq_some_iff.mp hhead
  have hsplit : ((w.threadGroup leader).getTaskStruct leader).threads = [] ++ leader :: l := hl
  have hsteps := @sigkills_steps leader tsk leader _ [] l w.task hsplit hnodup hhead (fun _ => rfl) fun _ _ => rfl
  rw [← List.length_cons, ← hl] at hsteps
  refine ⟨hsteps.1, fun u => ?_⟩
  have hsig : s.group.sigkills u = if u ∈ World.tids w.task (w.threads leader) ∧ u ≠ tsk then 1 else 0 := hsteps.2 u
  rw [hsig]
  refine (sigkill_foldl w u).trans ?_
  split
  · rename_i hin
    rw [decide_eq_true hin]
    rfl
  · rename_i hin
    rw [decide_eq_false hin]
    rfl

end
end AflSnapshot
