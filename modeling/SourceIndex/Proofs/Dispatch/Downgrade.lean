import SourceIndex.Proofs.Dispatch.Conduct
import SourceIndex.Proofs.Dispatch.Counters
/-!
# Giving workers up

Workers are given up for good: no pool is asked for afterwards, and only the wave that is under way
is handed over to its end. So the failures exceed their limit by no more than one wave.
-/

namespace SourceIndex.Dispatch
variable {σ : Type} {crew : Crew σ} {settings : DispatchSettings}

def Deed.failures : Deed → Nat
  | .blame _ _ _ _ => 1
  | _ => 0

theorem workerFailures_act (crew : Crew σ) (settings : DispatchSettings) (s : Shift σ)
    (deed : Deed) :
    (deed.act crew settings s).stats.workerFailures = s.stats.workerFailures + deed.failures := by
  have same := congrArg DispatchStats.workerFailures (bare_act crew settings s deed)
  refine same.trans ?_
  cases deed with
  | run index task =>
    obtain ⟨_, _, credit⟩ := s.stats.exists_creditAnswer (crew.run task s.world).1
    have kept := congrArg DispatchStats.workerFailures credit
    exact kept
  | _ => rfl

/-- A run whose failures are within bounds. -/
structure IsBounded (settings : DispatchSettings) (g : Stage) (s : Shift σ) : Prop where
  below : s.stats.mode = .concurrent → (s.stats.workerFailures : Int) ≤ settings.maxFailures
  room : (s.stats.workerFailures : Int) + g.slack ≤ settings.maxFailures + settings.maxWorkers
  begun : ∀ wave, g.wave = some wave →
    ∃ pool index, .submit pool index ∈ s.events ∧ waveOf settings index = wave

theorem IsBounded.begun_act {g next : Stage} {s : Shift σ} {deed : Deed}
    (bounded : IsBounded settings g s) (same : next.wave = g.wave) (wave : Nat × Nat)
    (here : next.wave = some wave) :
    ∃ pool index, .submit pool index ∈ (deed.act crew settings s).events ∧
      waveOf settings index = wave := by
  obtain ⟨pool, index, among, place⟩ := bounded.begun wave (same ▸ here)
  obtain ⟨more, all, -⟩ := (act_extends crew settings s deed).events
  refine ⟨pool, index, ?_, place⟩
  rw [all]
  exact List.mem_append_left _ among

theorem IsBounded.calm {g next : Stage} {s : Shift σ} {deed : Deed}
    (bounded : IsBounded settings g s) (none : deed.failures = 0) (slack : next.slack = g.slack)
    (wave : next.wave = g.wave) : IsBounded settings next (deed.act crew settings s) := by
  have same : (deed.act crew settings s).stats.workerFailures = s.stats.workerFailures := by
    rw [workerFailures_act, none, Nat.add_zero]
  refine ⟨fun concurrent => ?_, ?_, bounded.begun_act wave⟩
  · rw [same]
    exact bounded.below (concurrent_of_act concurrent)
  · rw [same, slack]
    exact bounded.room

theorem IsBounded.step (workers : 0 < settings.maxWorkers) {g next : Stage} {s : Shift σ}
    {deed : Deed} (bounded : IsBounded settings g s)
    (allowed : Allows crew settings s g deed next) :
    IsBounded settings next (deed.act crew settings s) := by
  have count := workerFailures_act crew settings s deed
  -- Only a recorded failure uses up room, and only the first task of a wave makes more of it.
  cases allowed with
  | blame index task status error left ready slack =>
    have more : ((Deed.blame index task status error).act crew settings s).stats.workerFailures =
      s.stats.workerFailures + 1 := count
    have blamed : ((Deed.blame index task status error).act crew settings s).stats = _ :=
      stats_recordFailure task status error s
    have room := bounded.room
    refine ⟨fun concurrent => ?_, ?_, bounded.begun_act rfl⟩
    · rw [blamed] at concurrent ⊢
      exact workerFailures_le_of_blame concurrent
    · rw [more]
      simp only
      omega
  | submit pool index task slack last open_ wave =>
    have same : ((Deed.submit pool index task).act crew settings s).stats = s.stats := rfl
    refine ⟨bounded.below, ?_, fun wave here => ⟨pool, index, ?_, Option.some.inj here⟩⟩
    · rw [same]
      rcases wave with ⟨concurrent, rfl⟩ | ⟨-, rfl⟩
      · have below := bounded.below concurrent
        simp only
        omega
      · exact bounded.room
    · exact List.mem_append_right _ (List.mem_singleton_self _)
  | _ => exact bounded.calm rfl rfl rfl

/-- A run in sequential mode stays in it, asks for no pool, and hands over tasks of the wave that
is under way only. -/
theorem Goes.sequential {g last : Stage} {s after : Shift σ} {deeds : List Deed}
    (goes : Goes crew settings g s deeds last after) (sequential : s.stats.mode = .sequential) :
    after.stats.mode = .sequential ∧ .openPool ∉ deeds ∧
      ∀ pool index task, .submit pool index task ∈ deeds →
        g.wave = some (waveOf settings index) := by
  induction goes with
  | done => exact ⟨sequential, by simp, by simp⟩
  | @deed g next last s after deed rest allowed goes ih =>
    have still : (deed.act crew settings s).stats.mode = .sequential := by
      cases mode : (deed.act crew settings s).stats.mode with
      | sequential => rfl
      | concurrent =>
        have before := concurrent_of_act mode
        rw [sequential] at before
        cases before
    obtain ⟨stays, none, same⟩ := ih still
    have wave : deed ≠ .openPool ∧ next.wave = g.wave ∧
        ∀ pool index task, deed = .submit pool index task →
          g.wave = some (waveOf settings index) := by
      cases allowed with
      | openPool closed concurrent =>
        rw [sequential] at concurrent
        cases concurrent
      | submit pool index task slack last open_ wave =>
        rcases wave with ⟨concurrent, -⟩ | ⟨here, -⟩
        · rw [sequential] at concurrent
          cases concurrent
        · refine ⟨by simp, here.symm, ?_⟩
          rintro _ _ _ ⟨rfl, rfl, rfl⟩
          exact here
      | _ => exact ⟨by simp, rfl, by simp⟩
    refine ⟨stays, ?_, fun pool index task member => ?_⟩
    · simp only [List.mem_cons, not_or]
      exact ⟨wave.1.symm, none⟩
    · rcases List.mem_cons.mp member with here | later
      · exact wave.2.2 pool index task here.symm
      · rw [← wave.2.1]
        exact same pool index task later

/-- Once a run is in sequential mode it stays so, asks for no more pools and hands over no task but
those of a wave that was begun. All in all there are at most as many failures as are put up with
and a wave more. -/
theorem downgrade_is_final (crew : Crew σ) (settings : DispatchSettings)
    (arranges : ∀ taken, (crew.arrange taken).Perm taken)
    (batch : 0 < settings.batchSize) (workers : 0 < settings.maxWorkers)
    (failures : 0 ≤ settings.maxFailures) (tasks : List Task) (pools : Nat) (world : σ) :
    let course := Course.process crew settings tasks pools world
    let after (deeds : List Deed) := replay crew settings deeds (start settings pools world)
    let ended := (process crew settings tasks pools world).2
    after course = ended ∧
      (∀ before rest, course = before ++ rest → (after before).stats.mode = .sequential →
        (∀ more, more <+: rest → (after (before ++ more)).stats.mode = .sequential) ∧
        ∃ later, ended.events = (after before).events ++ later ∧
          (∀ number workers, .pool number workers ∉ later) ∧
          ∀ pool index, .submit pool index ∈ later →
            ∃ earlier other, .submit earlier other ∈ (after before).events ∧
              waveOf settings other = waveOf settings index) ∧
      (ended.stats.workerFailures : Int) ≤ settings.maxFailures + settings.maxWorkers := by
  intro course after ended
  obtain ⟨last, goes, -⟩ := process_goes arranges batch workers tasks pools world
  have opens : IsBounded settings (.opening settings tasks) (start settings pools world) := by
    refine ⟨fun _ => failures, ?_, fun _ none => by cases none⟩
    simp only [start, Stage.opening]
    omega
  have keeps {deeds : List Deed} {g : Stage} {s : Shift σ}
      (goes : Goes crew settings (.opening settings tasks) (start settings pools world) deeds g s) :
      IsBounded settings g s :=
    goes.keeps (fun _ _ _ _ bounded => bounded.step workers) opens
  refine ⟨goes.replay, ?_, ?_⟩
  · intro before rest split sequential
    rw [show Course.process crew settings tasks pools world = before ++ rest from split] at goes
    obtain ⟨between, past, goesOn⟩ := goes.split
    obtain ⟨-, none, same⟩ := goesOn.sequential sequential
    obtain ⟨later, all, sources⟩ := (replay_extends crew settings rest (after before)).events
    refine ⟨?_, later, ?_, fun number workers among => ?_, fun pool index among => ?_⟩
    · rintro more ⟨others, rfl⟩
      obtain ⟨_, more, -⟩ := goesOn.split
      rw [show after (before ++ _) = _ from replay_append ..]
      exact (more.sequential sequential).1
    · rw [← all]
      exact congrArg Shift.events goesOn.replay.symm
    · obtain ⟨deed, member, records⟩ := sources _ among
      cases deed <;> try exact records
      exact none member
    · obtain ⟨deed, member, records⟩ := sources _ among
      cases deed <;> try exact records.elim
      obtain ⟨rfl, rfl⟩ := records
      exact (keeps past).begun _ (same _ _ _ member)
  · have room : (ended.stats.workerFailures : Int) + last.slack ≤ _ := (keeps goes).room
    omega

/-- Two silent workers are one more than is put up with: the failures are within bounds, no pool is
asked for after them, and the task of the next wave is not handed over. -/
theorem downgrade_is_final_two_silent :
    let settings : DispatchSettings := { concurrent := true, maxWorkers := 2, maxFailures := 1 }
    let task (path : String) : Task := ⟨path, "", some "", false, none⟩
    let tasks := [task "a", task "b", task "c"]
    let before := (Course.process (silentCrew .zero) settings tasks 0 ()).take 12
    let moment := replay (silentCrew .zero) settings before (start settings 0 ())
    let ended := (process (silentCrew .zero) settings tasks 0 ()).2
    moment.stats.mode = .sequential ∧ ended.stats.workerFailures = 2 ∧
      (ended.stats.workerFailures : Int) ≤ settings.maxFailures + settings.maxWorkers ∧
      ∃ later, ended.events = moment.events ++ later ∧
        (∀ number workers, .pool number workers ∉ later) ∧ ∀ pool, .submit pool 2 ∉ later := by
  intro settings task tasks before moment ended
  obtain ⟨-, final, bound⟩ := downgrade_is_final (silentCrew .zero) settings
    (fun taken => .refl taken) (by decide) (by decide) (by decide) tasks 0 ()
  have sequential : moment.stats.mode = .sequential := by decide +kernel
  obtain ⟨-, later, all, none, same⟩ := final _ _ (List.take_append_drop 12 _).symm sequential
  refine ⟨sequential, by decide +kernel, bound, later, all, none, fun pool among => ?_⟩
  obtain ⟨earlier, other, begun, place⟩ := same pool 2 among
  have early : moment.events = [.memory (.real .zero), .pool 0 2, .submit 0 0, .submit 0 1,
    .shutdown 0 false] := by decide +kernel
  rw [show (replay _ _ _ _).events = _ from early] at begun
  have first : other = 0 ∨ other = 1 := by
    simp at begun
    omega
  rcases first with rfl | rfl
  · exact absurd place (by decide)
  · exact absurd place (by decide)

end SourceIndex.Dispatch
