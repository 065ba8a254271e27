import AflSnapshot.Snapshot

/-! # The records of the tasks

How a take and a clean change the list of records and keep it `Coherent` with the caches. Both invalidate the
caches of the task first, so that its record may change its status (`Registry.Uncached`). -/

namespace AflSnapshot

/-- No cache is about the task. -/
def Registry.Uncached (reg : Registry) (tsk : Nat) : Prop := ∀ cpu, reg.lastTask cpu ≠ some tsk

section
variable {reg : Registry} {tsk t id : Nat} {d : TaskData}

theorem getTaskData_of_mem (h : reg.Coherent) (hin : id ∈ reg.taskDataList) :
    reg.getTaskData (reg.data id).tsk = some id := by
  unfold Registry.getTaskData
  obtain ⟨as, bs, heq⟩ := List.append_of_mem hin
  have hu := h.unique
  rw [heq] at hu ⊢
  rw [List.find?_append]
  have hnone : as.find? (fun i => (reg.data i).tsk == (reg.data id).tsk) = none := by
    refine List.find?_eq_none.mpr fun i hi => ?_
    have := (List.pairwise_append.mp hu).2.2 i hi id List.mem_cons_self
    simpa using this
  rw [hnone]
  simp

theorem invalidate_spec (h : reg.Coherent) (tsk : Nat) :
    (reg.invalidateTaskDataCache tsk).Coherent ∧ (reg.invalidateTaskDataCache tsk).Uncached tsk := by
  refine ⟨⟨h.listed, h.unique, h.blank, fun cpu t i hc hi => ?_, fun cpu t hc => ?_⟩, fun cpu hc => ?_⟩
  all_goals
    by_cases hcpu : reg.lastTask cpu = some tsk
    · simp [Registry.invalidateTaskDataCache, hcpu] at hc
  · exact h.cached cpu t i (by simpa [Registry.invalidateTaskDataCache, hcpu] using hc)
      (by simpa [Registry.invalidateTaskDataCache, hcpu] using hi)
  · have := h.answers cpu t (by simpa [Registry.invalidateTaskDataCache, hcpu] using hc)
    simpa [Registry.invalidateTaskDataCache, hcpu, Registry.ifLive, Registry.live, Registry.getTaskData] using this
  · simp [Registry.invalidateTaskDataCache, hcpu] at hc

theorem live_setData_of_ne (htsk : (reg.data id).tsk = tsk) (hd : d.tsk = tsk) (ht : t ≠ tsk) :
    (reg.setData id d).live t = reg.live t := by
  unfold Registry.live
  rw [getTaskData_setData (hd.trans htsk.symm)]
  unfold Registry.ifLive
  cases hget : reg.getTaskData t with
  | none => rfl
  | some i =>
    have hne : i ≠ id := fun he => ht ((getTaskData_spec hget).2 ▸ he ▸ htsk)
    simp only [Option.filter, setData_of_ne hne]

/-- The record of a task that no cache is about may become live, or get other contents. -/
theorem Registry.Coherent.setData_uncached (h : reg.Coherent) (hunc : reg.Uncached tsk) (htsk : (reg.data id).tsk = tsk)
    (hd : d.tsk = tsk) (hblank : d.haveSnapshot = false → d.Blank) : (reg.setData id d).Coherent := by
  have hkeep : d.tsk = (reg.data id).tsk := hd.trans htsk.symm
  refine ⟨h.listed, ?_, fun i hi hmade => ?_, fun cpu t i hc hi => ?_, fun cpu t hc => ?_⟩
  · have := h.unique
    simp only [setData_tsk hkeep]
    exact this
  · by_cases hid : i = id
    · subst hid
      rw [setData_same] at hmade ⊢
      exact hblank hmade
    · rw [setData_of_ne hid] at hmade ⊢
      exact h.blank i hi hmade
  · rw [setData_tsk hkeep]
    exact h.cached cpu t i hc hi
  · have ht : t ≠ tsk := fun he => hunc cpu (he ▸ hc)
    rw [live_setData_of_ne htsk hd ht]
    have hans := h.answers cpu t hc
    have hcached := fun i => h.cached cpu t i hc
    show (reg.setData id d).ifLive (reg.lastTaskData cpu) = reg.live t
    rw [← hans]
    unfold Registry.ifLive
    cases hl : reg.lastTaskData cpu with
    | none => rfl
    | some i =>
      have hne : i ≠ id := fun he => ht ((hcached i hl).1 ▸ he ▸ htsk)
      simp only [Option.filter, setData_of_ne hne]

/-- The record of the task is dropped. -/
theorem Registry.Coherent.remove (h : reg.Coherent) (hunc : reg.Uncached tsk) (hget : reg.getTaskData tsk = some id)
    (hd : d.tsk = tsk) : ((reg.setData id d).removeTaskData id).Coherent ∧
      ((reg.setData id d).removeTaskData id).getTaskData tsk = none ∧
      ∀ t, t ≠ tsk → ((reg.setData id d).removeTaskData id).live t = reg.live t := by
  obtain ⟨hin, htsk⟩ := getTaskData_spec hget
  have hkeep : d.tsk = (reg.data id).tsk := hd.trans htsk.symm
  have hne : ∀ i ∈ reg.taskDataList.erase id, i ≠ id ∧ (reg.data i).tsk ≠ tsk := fun i hi => by
    obtain ⟨as, bs, heq⟩ := List.append_of_mem hin
    have hu := h.unique
    have hnot : id ∉ as := fun ha => by
      rw [heq] at hu
      exact (List.pairwise_append.mp hu).2.2 id ha id List.mem_cons_self rfl
    rw [heq, List.erase_append_right _ hnot, List.erase_cons_head] at hi
    rw [heq] at hu
    have hother : (reg.data i).tsk ≠ (reg.data id).tsk := by
      rcases List.mem_append.mp hi with hi | hi
      · exact (List.pairwise_append.mp hu).2.2 i hi id List.mem_cons_self
      · exact ((List.pairwise_cons.mp (List.pairwise_append.mp hu).2.1).1 i hi).symm
    exact ⟨fun he => hother (by rw [he]), htsk ▸ hother⟩
  have hfind : ∀ t, t ≠ tsk → ((reg.setData id d).removeTaskData id).getTaskData t = reg.getTaskData t := fun t ht => by
    obtain ⟨as, bs, heq⟩ := List.append_of_mem hin
    have hnot : id ∉ as := fun ha => by
      have hu := h.unique
      rw [heq] at hu
      exact (List.pairwise_append.mp hu).2.2 id ha id List.mem_cons_self rfl
    unfold Registry.getTaskData Registry.removeTaskData
    simp only [setData_tsk hkeep]
    show List.find? _ (reg.taskDataList.erase id) = List.find? _ reg.taskDataList
    rw [heq, List.erase_append_right _ hnot, List.erase_cons_head, List.find?_append, List.find?_append,
      List.find?_cons_of_neg (by simpa [htsk] using ht.symm)]
  have hlive : ∀ t, t ≠ tsk → ((reg.setData id d).removeTaskData id).live t = reg.live t := fun t ht => by
    unfold Registry.live
    rw [hfind t ht]
    unfold Registry.ifLive
    cases hget' : reg.getTaskData t with
    | none => rfl
    | some i =>
      have hi : i ≠ id := fun he => ht ((getTaskData_spec hget').2 ▸ he ▸ htsk)
      simp only [Option.filter, Registry.removeTaskData, setData_of_ne hi]
  refine ⟨⟨fun i hi => h.listed i (List.mem_of_mem_erase hi), ?_, fun i hi hmade => ?_, fun cpu t i hc hi => ?_,
    fun cpu t hc => ?_⟩, ?_, hlive⟩
  · have := h.unique.sublist (List.erase_sublist (a := id))
    show ((reg.setData id d).taskDataList.erase id).Pairwise fun i j =>
      ((reg.setData id d).data i).tsk ≠ ((reg.setData id d).data j).tsk
    simp only [setData_tsk hkeep]
    exact this
  · have hi' : i ≠ id := (hne i hi).1
    simp only [Registry.removeTaskData, setData_of_ne hi'] at hmade ⊢
    exact h.blank i (List.mem_of_mem_erase hi) hmade
  · show ((reg.setData id d).data i).tsk = t ∧ _
    rw [setData_tsk hkeep]
    exact h.cached cpu t i hc hi
  · have ht : t ≠ tsk := fun he => hunc cpu (he ▸ hc)
    rw [hlive t ht]
    have hans := h.answers cpu t hc
    rw [← hans]
    show ((reg.setData id d).removeTaskData id).ifLive (reg.lastTaskData cpu) = reg.ifLive (reg.lastTaskData cpu)
    unfold Registry.ifLive
    cases hl : reg.lastTaskData cpu with
    | none => rfl
    | some i =>
      have hi : i ≠ id := fun he => ht ((h.cached cpu t i hc hl).1 ▸ he ▸ htsk)
      simp only [Option.filter, Registry.removeTaskData, setData_of_ne hi]
  · refine List.find?_eq_none.mpr fun i hi => ?_
    have := (hne i hi).2
    show ¬(((reg.setData id d).data i).tsk == tsk) = true
    rw [setData_tsk hkeep]
    simpa using this

/-- `ensure_task_data` finds the record or makes a new one. -/
theorem ensureTaskData_spec (h : reg.Coherent) (tsk : Nat) (alloc : Bool) :
    (∃ id, (reg.ensureTaskData tsk alloc).2 = some id ∧ (reg.ensureTaskData tsk alloc).1.getTaskData tsk = some id ∧
      (reg.getTaskData tsk = some id ∧ (reg.ensureTaskData tsk alloc).1 = reg ∨
        reg.getTaskData tsk = none ∧ id = reg.fresh ∧ (reg.ensureTaskData tsk alloc).1.data id = .new tsk)) ∧
      (reg.ensureTaskData tsk alloc).1.Coherent ∧ (∀ t, (reg.ensureTaskData tsk alloc).1.live t = reg.live t) ∨
    alloc = false ∧ reg.getTaskData tsk = none ∧ reg.ensureTaskData tsk alloc = (reg, none) := by
  unfold Registry.ensureTaskData
  cases hget : reg.getTaskData tsk with
  | some id => exact Or.inl ⟨⟨id, rfl, hget, Or.inl ⟨rfl, rfl⟩⟩, h, fun _ => rfl⟩
  | none =>
    cases alloc with
    | false => exact Or.inr ⟨rfl, rfl, rfl⟩
    | true =>
      rw [if_pos rfl]
      set reg' : Registry := { reg.setData reg.fresh (.new tsk) with
        taskDataList := reg.fresh :: reg.taskDataList, fresh := reg.fresh + 1 }
      have hdata : reg'.data reg.fresh = .new tsk := setData_same
      have hold : ∀ i, i ≠ reg.fresh → reg'.data i = reg.data i := fun i hi => setData_of_ne hi
      have hlt : ∀ i ∈ reg.taskDataList, i ≠ reg.fresh := fun i hi => (h.listed i hi).ne
      have hother : ∀ i ∈ reg.taskDataList, (reg.data i).tsk ≠ tsk := fun i hi => by
        have := List.find?_eq_none.mp hget i hi
        simpa using this
      have hnew : reg'.getTaskData tsk = some reg.fresh := by
        unfold Registry.getTaskData
        exact List.find?_cons_of_pos (by simp [hdata, TaskData.new])
      have hfind : ∀ t, t ≠ tsk → reg'.getTaskData t = reg.getTaskData t := fun t ht => by
        unfold Registry.getTaskData
        rw [List.find?_cons_of_neg (by simpa [hdata, TaskData.new] using ht.symm)]
        have hcongr : ∀ l : List Nat, (∀ i ∈ l, i ≠ reg.fresh) →
            l.find? (fun i => (reg'.data i).tsk == t) = l.find? fun i => (reg.data i).tsk == t := by
          intro l hl
          induction l with
          | nil => rfl
          | cons i l ih =>
            rw [List.find?_cons, List.find?_cons, hold i (hl i List.mem_cons_self),
              ih fun j hj => hl j (List.mem_cons_of_mem _ hj)]
        exact hcongr _ hlt
      have hlive : ∀ t, reg'.live t = reg.live t := fun t => by
        unfold Registry.live
        by_cases ht : t = tsk
        · subst ht
          rw [hnew, hget]
          simp [Registry.ifLive, Option.filter, hdata, TaskData.new, TaskData.haveSnapshot]
        · rw [hfind t ht]
          unfold Registry.ifLive
          cases hg : reg.getTaskData t with
          | none => rfl
          | some i => simp only [Option.filter, hold i (hlt i (getTaskData_spec hg).1)]
      refine Or.inl ⟨⟨reg.fresh, rfl, hnew, Or.inr ⟨rfl, rfl, hdata⟩⟩, ⟨?_, ?_, ?_, ?_, ?_⟩, hlive⟩
      · intro i hi
        rcases List.mem_cons.mp hi with rfl | hi
        · exact Nat.lt_succ_self _
        · exact Nat.lt_succ_of_lt (h.listed i hi)
      · refine List.pairwise_cons.mpr ⟨fun i hi => ?_, ?_⟩
        · rw [hdata, hold i (hlt i hi)]
          exact (hother i hi).symm
        · refine h.unique.imp_of_mem fun hi hj hne => ?_
          rw [hold _ (hlt _ hi), hold _ (hlt _ hj)]
          exact hne
      · intro i hi hmade
        rcases List.mem_cons.mp hi with rfl | hi
        · rw [hdata]
          exact ⟨rfl, rfl, rfl, rfl⟩
        · rw [hold i (hlt i hi)] at hmade ⊢
          exact h.blank i hi hmade
      · intro cpu t i hc hi
        obtain ⟨h1, h2⟩ := h.cached cpu t i hc hi
        rw [hold i h2.ne]
        exact ⟨h1, Nat.lt_succ_of_lt h2⟩
      · intro cpu t hc
        rw [hlive, ← h.answers cpu t hc]
        show reg'.ifLive (reg.lastTaskData cpu) = _
        unfold Registry.ifLive
        cases hl : reg.lastTaskData cpu with
        | none => rfl
        | some i => simp only [Option.filter, hold i (h.cached cpu t i hc hl).2.ne]

end
end AflSnapshot
