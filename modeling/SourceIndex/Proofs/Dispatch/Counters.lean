import SourceIndex.Proofs.Dispatch.Course
import SourceIndex.Proofs.Dispatch.Tally
/-!
# What a deed counts

A deed changes the counters in a way of its own, and may give the workers up besides. Giving up
sets the mode and the reason and nothing else, so all other counters follow from the deeds.
-/

namespace SourceIndex

/-- The counters with the outcome of one more task, unless it could not even be tried. -/
def DispatchStats.creditAnswer (answer : Except FileError Outcome) (stats : DispatchStats) :
    DispatchStats :=
  match answer with
  | .ok outcome => stats.credit outcome
  | .error _ => stats

theorem DispatchStats.exists_creditAnswer (answer : Except FileError Outcome)
    (stats : DispatchStats) :
    ∃ processed failed, stats.creditAnswer answer = { stats with processed, failed } := by
  unfold creditAnswer credit
  split
  · split <;> exact ⟨_, _, rfl⟩
  · exact ⟨_, _, rfl⟩

def DispatchStats.bare (stats : DispatchStats) : DispatchStats :=
  { stats with mode := .sequential, downgradeReason := none }

theorem DispatchStats.bare_giveUp (reason : String) (stats : DispatchStats) :
    (stats.giveUp reason).bare = stats.bare := by
  unfold giveUp
  split <;> rfl

theorem DispatchStats.mode_giveUp (reason : String) (stats : DispatchStats) :
    (stats.giveUp reason).mode = .sequential := by
  unfold giveUp
  split
  · assumption
  · rfl

namespace Dispatch
variable {σ : Type} {crew : Crew σ} {settings : DispatchSettings}

/-! ### Steps -/

theorem stats_downgrade (reason : String) (s : Shift σ) :
    (downgrade crew reason s).stats = s.stats.giveUp reason := by
  unfold downgrade DispatchStats.giveUp
  split <;> rfl

theorem stats_recordFailure (task : Task) (status : TaskStatus) (error : String) (s : Shift σ) :
    (recordFailure crew settings task status error s).stats =
      s.stats.blame settings ⟨task.path, status, [], some error⟩ := by
  unfold recordFailure DispatchStats.blame
  simp only
  split
  · rename_i many
    rw [stats_downgrade]
    exact (if_pos many).symm
  · rename_i few
    exact (if_neg few).symm

/-- Workers are given up as soon as there are more failures than are put up with. -/
theorem workerFailures_le_of_blame {failure : Outcome} {stats : DispatchStats}
    (concurrent : (stats.blame settings failure).mode = .concurrent) :
    ((stats.blame settings failure).workerFailures : Int) ≤ settings.maxFailures := by
  unfold DispatchStats.blame at concurrent ⊢
  simp only at concurrent ⊢
  split at concurrent
  · unfold DispatchStats.giveUp at concurrent
    split at concurrent
    · simp_all
    · cases concurrent
  · rename_i few
    rw [if_neg few]
    exact Int.not_lt.mp few

/-- The counters do not change, but that the workers may be given up. -/
def Stays (before after : DispatchStats) : Prop :=
  after = before ∨ ∃ reason, after = before.giveUp reason

theorem openPool_stays (s : Shift σ) : Stays s.stats (openPool crew settings s).2.stats := by
  unfold openPool
  rcases crew.openPool settings.maxWorkers s.world with ⟨_ | reason, world⟩
  · exact .inl rfl
  · exact .inr ⟨_, stats_downgrade _ _⟩

theorem checkMemory_stays (moment : String) (s : Shift σ) :
    Stays s.stats (reached id (checkMemory crew settings moment s)).stats := by
  unfold checkMemory
  simp only
  split
  · exact .inl rfl
  · split
    · exact .inr ⟨_, stats_downgrade _ _⟩
    · exact .inl rfl

theorem stats_runInline (task : Task) (s : Shift σ) :
    (reached (·.2) (runInline crew task s)).stats =
      s.stats.creditAnswer (crew.run task s.world).1 := by
  unfold runInline
  rcases crew.run task s.world with ⟨_ | outcome, world⟩ <;> rfl

/-! ### Deeds -/

def Deed.counted (crew : Crew σ) (s : Shift σ) : Deed → DispatchStats
  | .beginBatch => { s.stats with batches := s.stats.batches + 1 }
  | .accept _ _ => { s.stats with processed := s.stats.processed + 1 }
  | .timeOut _ => { s.stats with timeouts := s.stats.timeouts + 1 }
  | .blame _ task status error =>
    { s.stats with
      workerFailures := s.stats.workerFailures + 1
      failures := s.stats.failures ++ [⟨task.path, status, [], some error⟩] }
  | .fallBack _ => { s.stats with fallbacks := s.stats.fallbacks + 1 }
  | .run _ task => s.stats.creditAnswer (crew.run task s.world).1
  | _ => s.stats

theorem act_stays (crew : Crew σ) (settings : DispatchSettings) (s : Shift σ) (deed : Deed) :
    Stays (deed.counted crew s) (deed.act crew settings s).stats := by
  cases deed with
  | readMemory moment => exact checkMemory_stays moment s
  | openPool => exact openPool_stays s
  | blame index task status error =>
    have blamed : ((Deed.blame index task status error).act crew settings s).stats = _ :=
      stats_recordFailure task status error s
    rw [blamed]
    unfold DispatchStats.blame Deed.counted
    simp only
    split
    · exact .inr ⟨_, rfl⟩
    · exact .inl rfl
  | run index task => exact .inl (stats_runInline task s)
  | _ => exact .inl rfl

theorem bare_act (crew : Crew σ) (settings : DispatchSettings) (s : Shift σ) (deed : Deed) :
    (deed.act crew settings s).stats.bare = (deed.counted crew s).bare := by
  obtain same | ⟨reason, same⟩ := act_stays crew settings s deed
  · rw [same]
  · rw [same, DispatchStats.bare_giveUp]

theorem mode_counted (crew : Crew σ) (s : Shift σ) (deed : Deed) :
    (deed.counted crew s).mode = s.stats.mode ∧
      (deed.counted crew s).downgradeReason = s.stats.downgradeReason := by
  cases deed with
  | run index task =>
    obtain ⟨processed, failed, same⟩ := s.stats.exists_creditAnswer (crew.run task s.world).1
    have counted : (Deed.run index task).counted crew s = _ := same
    rw [counted]
    exact ⟨rfl, rfl⟩
  | _ => exact ⟨rfl, rfl⟩

theorem concurrent_of_act {s : Shift σ} {deed : Deed}
    (concurrent : (deed.act crew settings s).stats.mode = .concurrent) :
    s.stats.mode = .concurrent := by
  obtain same | ⟨reason, same⟩ := act_stays crew settings s deed
  · rw [← (mode_counted crew s deed).1, ← same, concurrent]
  · rw [same, DispatchStats.mode_giveUp] at concurrent
    cases concurrent

end Dispatch
end SourceIndex
