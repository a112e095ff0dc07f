import SourceIndex.Proofs.Dispatch.Course
import SourceIndex.Proofs.Dispatch.Process
/-!
# Runs as replays

Every run is the replay of its course, whatever its settings are, and also if it breaks off. So what
no use of a crew changes, no run changes.
-/

namespace SourceIndex.Dispatch
variable {σ : Type} {crew : Crew σ} {settings : DispatchSettings}

/-! ### Steps that are replayed -/

/-- A step that comes just as far as its deeds do, whether it breaks off or not. -/
def Replays {α : Type} (crew : Crew σ) (settings : DispatchSettings) (s : Shift σ)
    (deeds : List Deed) (shift : α → Shift σ) (step : Except (Broken σ) α) : Prop :=
  replay crew settings deeds s = reached shift step

namespace Replays
variable {α β : Type} {s : Shift σ} {deeds : List Deed} {shift : α → Shift σ}
  {step : Except (Broken σ) α}

theorem cons {deed : Deed} {next : Shift σ} (act : deed.act crew settings s = next)
    (replays : Replays crew settings next deeds shift step) :
    Replays crew settings s (deed :: deeds) shift step := by
  subst act
  exact replays

theorem after {first : List Deed} {next : Shift σ}
    (leads : replay crew settings first s = next)
    (replays : Replays crew settings next deeds shift step) :
    Replays crew settings s (first ++ deeds) shift step := by
  subst leads
  exact (replay_append crew settings first deeds s).trans replays

theorem map {shiftAfter : β → Shift σ} {f : α → β}
    (replays : Replays crew settings s deeds shift step)
    (same : ∀ a, shiftAfter (f a) = shift a) :
    Replays crew settings s deeds shiftAfter (step >>= fun a => .ok (f a)) := by
  cases step with
  | ok a => exact replays.trans (same a).symm
  | error broken => exact replays

theorem andThen {shiftAfter : β → Shift σ} {next : α → Except (Broken σ) β}
    {more : α → List Deed} (replays : Replays crew settings s deeds shift step)
    (goesOn : ∀ a, Replays crew settings (shift a) (more a) shiftAfter (next a)) :
    Replays crew settings s (Course.andThen deeds step more) shiftAfter (step >>= next) := by
  cases step with
  | ok a => exact after replays (goesOn a)
  | error broken =>
    have all : Course.andThen deeds (.error broken : Except (Broken σ) α) more = deeds :=
      List.append_nil _
    rw [all]
    exact replays

theorem along {step : β → α → Except (Broken σ) β} {deeds : α → List Deed} {shift : β → Shift σ}
    (each : ∀ b a, Replays crew settings (shift b) (deeds a) shift (step b a)) (items : List α)
    (b : β) :
    Replays crew settings (shift b) (Course.along step deeds items b) shift
      (items.foldlM step b) := by
  induction items generalizing b with
  | nil => rfl
  | cons a rest ih => exact (each b a).andThen ih

end Replays

/-! ### Waves -/

theorem retry_replays (index : Nat) (task : Task) (status : TaskStatus) (error : String)
    (w : Wave σ) : Replays crew settings w.shift (Course.retry index task status error) (·.shift)
      (w.retry crew settings index task status error) := by
  have falls : Replays crew settings w.shift (Course.retry index task status error) (·.2)
      (fallBack crew task (recordFailure crew settings task status error w.shift)) := rfl
  exact falls.map fun _ => rfl

theorem act_submit {pool index : Nat} {task : Task} {submission : Submission} {world : σ}
    {s : Shift σ} (answer : crew.submit index task s.world = (submission, world)) :
    (Deed.submit pool index task).act crew settings s =
      ({ s with world } : Shift σ).record (.submit pool index) := by
  simp only [Deed.act, answer]

theorem submitAll_replays (pool : Nat) (tasks : List Numbered) (w : Wave σ) :
    Replays crew settings w.shift (Course.submitAll crew settings pool tasks w)
      (fun found => found.2.shift) (submitAll crew settings pool tasks w) := by
  induction tasks generalizing w with
  | nil => rfl
  | cons t rest ih =>
    obtain ⟨index, task⟩ := t
    rcases answer : crew.submit index task w.shift.world with ⟨submission, world⟩
    unfold Course.submitAll submitAll
    simp only [answer]
    refine .cons (act_submit answer) ?_
    cases submission with
    | taken reply => exact (ih _).map fun _ => rfl
    | refused fatal reason =>
      exact (retry_replays index task .failed ("submit failed: " ++ reason) { w with
        shift := ({ w.shift with world } : Shift σ).record (.submit pool index) }).andThen
          fun w => ih { w with healthy := w.healthy && !fatal }

theorem takeAnswer_replays (w : Wave σ) (a : Assigned) :
    Replays crew settings w.shift (Course.takeAnswer a) (·.shift)
      (takeAnswer crew settings w a) := by
  unfold Course.takeAnswer takeAnswer
  cases a.reply with
  | silent => rfl
  | crashed poolBroken reason =>
    exact retry_replays a.index a.task .failed ("worker error: " ++ reason)
      { w with healthy := w.healthy && !poolBroken }
  | answered outcome =>
    simp only
    split
    · rfl
    · exact retry_replays a.index a.task outcome.status (errorText outcome.error) w

theorem takeTimeout_replays (w : Wave σ) (a : Assigned) :
    Replays crew settings w.shift (Course.takeTimeout settings a) (·.shift)
      (takeTimeout crew settings w a) := by
  unfold Course.takeTimeout takeTimeout
  refine .cons rfl ?_
  exact retry_replays a.index a.task .timedOut
    ("no result within " ++ settings.timeout.text ++ "s") { w with
      shift := w.shift.count fun stats => { stats with timeouts := stats.timeouts + 1 } }

theorem takeReplies_replays (pool : Nat) (taken : List Assigned) (w : Wave σ) :
    Replays crew settings w.shift (Course.takeReplies crew settings pool taken w) (·.shift)
      (takeReplies crew settings pool taken w) := by
  unfold Course.takeReplies takeReplies
  refine (Replays.along takeAnswer_replays _ w).andThen fun w => ?_
  cases taken.filter fun a => !Assigned.isDone a with
  | nil => rfl
  | cons first more =>
    refine .cons rfl ?_
    exact (Replays.along takeTimeout_replays (first :: more)
      { w with shift := stopPool crew pool w.shift }).map fun _ => rfl

theorem runWave_replays (pool : Nat) (tasks : List Numbered) (s : Shift σ) :
    Replays crew settings s (Course.runWave crew settings pool tasks s) (·.2)
      (runWave crew settings pool tasks s) := by
  unfold Course.runWave runWave
  refine (submitAll_replays pool tasks ⟨[], true, s⟩).andThen ?_
  rintro ⟨taken, w⟩
  simp only
  split
  · rfl
  · exact (takeReplies_replays pool taken w).map fun _ => rfl

theorem fallBackAll_replays (tasks : List Numbered) (s : Shift σ) :
    Replays crew settings s (Course.fallBackAll crew tasks s) (·.2) (fallBackAll crew tasks s) := by
  induction tasks generalizing s with
  | nil => rfl
  | cons t rest ih =>
    obtain ⟨index, task⟩ := t
    have falls : Replays crew settings s (Course.fallBack index task) (·.2)
        (fallBack crew task s) := rfl
    exact falls.andThen fun found => (ih found.2).map fun _ => rfl

theorem replay_replacePool (pool : Nat) (s : Shift σ) :
    replay crew settings (Course.replacePool crew pool s) s =
      (replacePool crew settings pool s).2 := by
  unfold Course.replacePool replacePool
  simp only
  split <;> rfl

theorem runAnywhere_replays (tasks : List Numbered) (pool : Option Nat) (s : Shift σ) :
    Replays crew settings s (Course.runAnywhere crew settings tasks pool s) (·.2)
      (runAnywhere crew settings tasks pool s) := by
  have inline : Replays crew settings s (Course.fallBackAll crew tasks s) (·.2)
      (fallBackAll crew tasks s >>= fun found => .ok ((found.1, pool), found.2)) :=
    (fallBackAll_replays tasks s).map fun _ => rfl
  unfold Course.runAnywhere runAnywhere
  cases pool with
  | none => exact inline
  | some number =>
    cases s.stats.mode with
    | sequential => exact inline
    | concurrent =>
      refine (runWave_replays number tasks s).andThen ?_
      rintro ⟨⟨outcomes, healthy⟩, s⟩
      cases healthy with
      | true => rfl
      | false => exact replay_replacePool number s

theorem replay_closePool (pool : Option Nat) (s : Shift σ) :
    replay crew settings (Course.closePool pool) s = closePool pool s := by
  cases pool <;> rfl

theorem runWaves_replays (waves : List (List Numbered)) (pool : Option Nat) (s : Shift σ) :
    Replays crew settings s (Course.runWaves crew settings waves pool s) (·.2)
      (runWaves crew settings waves pool s) := by
  induction waves generalizing pool s with
  | nil => rfl
  | cons tasks rest ih =>
    have step : Replays crew settings s (Course.runAnywhere crew settings tasks pool s) (·.2)
        (runAnywhere crew settings tasks pool s) := runAnywhere_replays tasks pool s
    unfold Course.runWaves runWaves
    -- The pool is closed also where a wave breaks off, so that no law for two steps applies.
    cases done : runAnywhere crew settings tasks pool s with
    | error broken =>
      rw [done] at step
      have whole := replay_append crew settings (Course.runAnywhere crew settings tasks pool s)
        (Course.closePool pool) s
      rw [step] at whole
      exact whole.trans (replay_closePool pool broken.shift)
    | ok found =>
      obtain ⟨⟨outcomes, pool⟩, after⟩ := found
      rw [done] at step
      exact .after step ((ih pool after).map fun _ => rfl)

/-! ### Batches -/

theorem runBatch_replays (tasks : List Numbered) (s : Shift σ) :
    Replays crew settings s (Course.runBatch crew settings tasks s) (·.2)
      (runBatch crew settings tasks s) := by
  unfold Course.runBatch runBatch
  refine .cons rfl ?_
  simp only [Deed.act]
  cases groups? settings.maxWorkers tasks with
  | none => exact replay_closePool _ _
  | some waves =>
    refine (runWaves_replays waves _ _).andThen ?_
    rintro ⟨⟨outcomes, pool⟩, after⟩
    exact replay_closePool pool after

theorem runAllInline_replays (tasks : List Numbered) (s : Shift σ) :
    Replays crew settings s (Course.runAllInline crew tasks s) (·.2)
      (runAllInline crew tasks s) := by
  induction tasks generalizing s with
  | nil => rfl
  | cons t rest ih =>
    obtain ⟨index, task⟩ := t
    have runs : Replays crew settings s [.run index task] (·.2) (runInline crew task s) := rfl
    exact runs.andThen fun found => (ih found.2).map fun _ => rfl

theorem checkMemory_replays (moment : String) (s : Shift σ) :
    Replays crew settings s [.readMemory moment] id (checkMemory crew settings moment s) := rfl

theorem runInMode_replays (tasks : List Numbered) (s : Shift σ) :
    Replays crew settings s (Course.runInMode crew settings tasks s) (·.2)
      (runInMode crew settings tasks s) := by
  unfold Course.runInMode runInMode
  refine .cons rfl ?_
  simp only [Deed.act]
  by_cases concurrent : (s.count fun stats =>
      { stats with batches := stats.batches + 1 }).stats.mode = .concurrent
  · rw [if_pos concurrent, if_pos concurrent]
    refine (checkMemory_replays "before batch" _).andThen fun after => ?_
    simp only [id]
    split
    · refine (runBatch_replays tasks after).andThen ?_
      rintro ⟨outcomes, after⟩
      exact (checkMemory_replays "after batch" after).map fun _ => rfl
    · exact runAllInline_replays tasks after
  · rw [if_neg concurrent, if_neg concurrent]
    exact runAllInline_replays tasks _

theorem pauseBetween_replays (s : Shift σ) :
    Replays crew settings s (Course.pauseBetween crew settings) id
      (pauseBetween crew settings s) := by
  unfold Course.pauseBetween pauseBetween
  split
  · rfl
  · split <;> rfl

theorem runBatches_replays (first : Bool) (groups : List (List Numbered)) (s : Shift σ) :
    Replays crew settings s (Course.runBatches crew settings first groups s) (·.2)
      (runBatches crew settings first groups s) := by
  induction groups generalizing first s with
  | nil => rfl
  | cons tasks rest ih =>
    have pause : Replays crew settings s
        (if first then [] else Course.pauseBetween crew settings) id
        (if first then .ok s else pauseBetween crew settings s) := by
      cases first with
      | true => rfl
      | false => exact pauseBetween_replays s
    rw [runBatches_cons]
    refine pause.andThen fun next => (runInMode_replays tasks next).andThen fun found => ?_
    exact (ih false found.2).map fun _ => rfl

/-! ### Runs -/

/-- Every run is the replay of its course. -/
theorem replay_process (crew : Crew σ) (settings : DispatchSettings) (tasks : List Task)
    (pools : Nat) (world : σ) :
    replay crew settings (Course.process crew settings tasks pools world)
        (start settings pools world) =
      (process crew settings tasks pools world).2 := by
  have replays : Replays crew settings (start settings pools world)
      (Course.process crew settings tasks pools world) (·.2)
      (outcomes crew settings tasks (start settings pools world)) := by
    unfold Course.process outcomes
    cases groups? settings.batchSize (number 0 tasks) with
    | none => rfl
    | some batches => exact runBatches_replays true batches _
  refine replays.trans ?_
  unfold process
  cases outcomes crew settings tasks (start settings pools world) <;> rfl

/-! ### What a run keeps -/

section
variable {sound : σ → Prop}

theorem sound_runInline (keeps : crew.Keeps sound) (task : Task) (s : Shift σ)
    (good : sound s.world) : sound (reached (·.2) (runInline crew task s)).world := by
  have kept := keeps.run task s.world good
  unfold runInline
  generalize crew.run task s.world = result at kept
  obtain ⟨outcome, world⟩ := result
  cases outcome with
  | error e => exact kept
  | ok outcome => exact kept

theorem sound_readMemory (keeps : crew.Keeps sound) (moment : String) (s : Shift σ)
    (good : sound s.world) : sound (reached id (checkMemory crew settings moment s)).world := by
  have kept := keeps.memory s.world good
  unfold checkMemory
  simp only
  split
  · exact kept
  · split
    · exact sound_downgrade keeps _ _ kept
    · exact kept

theorem Deed.sound_act (keeps : crew.Keeps sound) (deed : Deed) (s : Shift σ)
    (good : sound s.world) : sound (deed.act crew settings s).world := by
  cases deed with
  | readMemory moment => exact sound_readMemory keeps moment s good
  | openPool => exact sound_openPool keeps settings s good
  | submit pool index task => exact keeps.submit index task s.world good
  | blame index task status error =>
    exact sound_recordFailure keeps settings task status error s good
  | run index task => exact sound_runInline keeps task s good
  | beginBatch => exact good
  | pause => exact good
  | accept => exact good
  | timeOut => exact good
  | fallBack => exact good
  | stop => exact good
  | close => exact good

theorem sound_replay (keeps : crew.Keeps sound) (deeds : List Deed) (s : Shift σ)
    (good : sound s.world) : sound (replay crew settings deeds s).world := by
  induction deeds generalizing s with
  | nil => exact good
  | cons deed rest ih => exact ih _ (deed.sound_act keeps s good)

/-- What no use of the crew changes, no run changes, also if it breaks off. -/
theorem sound_process (keeps : crew.Keeps sound) (settings : DispatchSettings) (tasks : List Task)
    (pools : Nat) {world : σ} (good : sound world) :
    sound (process crew settings tasks pools world).2.world := by
  rw [← replay_process]
  exact sound_replay keeps _ _ good

end

end SourceIndex.Dispatch
