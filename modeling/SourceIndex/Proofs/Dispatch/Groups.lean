import SourceIndex.Proofs.Dispatch.Discipline
/-!
# Groups

Tasks are numbered in their order, so the place of a task tells the batch and the wave that it
comes in.
-/

namespace SourceIndex.Dispatch

/-! ### Groups of numbered tasks -/

theorem take_number (index size : Nat) (tasks : List Task) :
    (number index tasks).take size = number index (tasks.take size) := by
  induction tasks generalizing index size with
  | nil => simp [number]
  | cons task rest ih =>
    cases size with
    | zero => rfl
    | succ size => rw [number, List.take_succ_cons, ih, List.take_succ_cons, number]

theorem drop_number (index size : Nat) (tasks : List Task) :
    (number index tasks).drop size = number (index + size) (tasks.drop size) := by
  induction tasks generalizing index size with
  | nil => simp [number]
  | cons task rest ih =>
    cases size with
    | zero => rfl
    | succ size => rw [number, List.drop_succ_cons, ih, List.drop_succ_cons]; congr 1; omega

theorem lt_of_mem_number {index : Nat} {tasks : List Task} {t : Numbered}
    (member : t ∈ number index tasks) : t.1 < index + tasks.length := by
  induction tasks generalizing index with
  | nil => simp [number] at member
  | cons task rest ih =>
    rw [number, List.mem_cons] at member
    rw [List.length_cons]
    rcases member with rfl | later
    · simp only
      omega
    · have := ih later
      omega

/-- A group of numbered tasks has the numbers that follow on those of the groups before it. -/
theorem exists_of_mem_groupsOf_number {size : Nat} (positive : 0 < size) {index : Nat}
    {tasks : List Task} {group : List Numbered}
    (member : group ∈ groupsOf size (number index tasks)) :
    ∃ before part, group = number (index + before * size) part ∧ part.length ≤ size ∧
      before * size + part.length ≤ tasks.length := by
  induction length : tasks.length using Nat.strong_induction_on generalizing index tasks with
  | _ n ih =>
    subst length
    cases tasks with
    | nil => simp [number, groupsOf] at member
    | cons task rest =>
      have more : ¬ ((number index (task :: rest)).isEmpty || decide (size = 0)) = true := by
        simp [number]
        omega
      rw [groupsOf, if_neg more, take_number, drop_number, List.mem_cons] at member
      have dropped : ((task :: rest).drop size).length + size = (task :: rest).length ∨
          (task :: rest).length ≤ size := by
        rw [List.length_drop]
        omega
      rcases member with rfl | later
      · refine ⟨0, (task :: rest).take size, by rw [Nat.zero_mul, Nat.add_zero], ?_, ?_⟩
        · rw [List.length_take]
          omega
        · rw [List.length_take]
          omega
      · rcases dropped with dropped | short
        · obtain ⟨before, part, rfl, small, inside⟩ := ih _ (by omega) later rfl
          refine ⟨before + 1, part, ?_, small, ?_⟩
          · congr 1
            rw [Nat.succ_mul]
            omega
          · rw [Nat.succ_mul]
            omega
        · rw [List.drop_eq_nil_of_le short] at later
          simp [number, groupsOf] at later

theorem div_of_place {size place : Nat} (inside : place < size) (before : Nat) :
    (before * size + place) / size = before := by
  rw [Nat.mul_comm, Nat.mul_add_div (by omega), Nat.div_eq_of_lt inside, Nat.add_zero]

theorem length_groupsOf {α : Type} {size : Nat} (positive : 0 < size) (items : List α) :
    (groupsOf size items).length = (items.length + size - 1) / size := by
  induction items using groupsOf.induct size with
  | case1 items stop =>
    have empty : items = [] := by simpa [Nat.ne_of_gt positive] using stop
    subst empty
    rw [groupsOf, if_pos stop]
    exact (Nat.div_eq_of_lt (by simp; omega)).symm
  | case2 items more ih =>
    have nonempty : 0 < items.length := by
      rw [List.length_pos_iff]
      rintro rfl
      exact more rfl
    rw [groupsOf, if_neg more, List.length_cons, ih, List.length_drop]
    by_cases long : size ≤ items.length
    · have split : items.length + size - 1 = (items.length - size + size - 1) + size := by omega
      rw [split, Nat.add_div_right _ positive]
    · have none : (items.length - size + size - 1) / size = 0 := Nat.div_eq_of_lt (by omega)
      have one : items.length + size - 1 = 1 * size + (items.length - 1) := by omega
      rw [none, one, div_of_place (by omega)]

/-! ### Waves -/

/-- The tasks of a wave: no more than there are workers, and all of the same wave. -/
def IsWave (settings : DispatchSettings) (tasks : List Numbered) : Prop :=
  tasks.length ≤ settings.maxWorkers.toNat ∧
    ∃ wave, ∀ t ∈ tasks, waveOf settings t.1 = wave

theorem isWave_of_mem_groupsOf {settings : DispatchSettings} (batch : 0 < settings.batchSize)
    (workers : 0 < settings.maxWorkers)
    {tasks : List Task} {group wave : List Numbered}
    (isBatch : group ∈ groupsOf settings.batchSize.toNat (number 0 tasks))
    (member : wave ∈ groupsOf settings.maxWorkers.toNat group) : IsWave settings wave := by
  obtain ⟨batches, part, rfl, small, -⟩ := exists_of_mem_groupsOf_number (by omega) isBatch
  obtain ⟨waves, piece, rfl, few, inside⟩ := exists_of_mem_groupsOf_number (by omega) member
  refine ⟨?_, (batches, waves), fun t among => ?_⟩
  · rwa [← List.length_map (f := Prod.snd), map_snd_number]
  -- The number of a task: the batches before it, the waves before it in its batch, and its place.
  · have low := le_of_mem_number among
    have high := lt_of_mem_number among
    obtain ⟨place, here⟩ : ∃ place, t.1 = batches * settings.batchSize.toNat +
        (waves * settings.maxWorkers.toNat + place) :=
      ⟨t.1 - (batches * settings.batchSize.toNat + waves * settings.maxWorkers.toNat), by omega⟩
    have inWave : place < settings.maxWorkers.toNat := by omega
    have inBatch : waves * settings.maxWorkers.toNat + place < settings.batchSize.toNat := by omega
    unfold waveOf
    rw [here, Nat.mul_add_mod_self_right, Nat.mod_eq_of_lt inBatch, div_of_place inBatch,
      div_of_place inWave]

end SourceIndex.Dispatch
