import SourceIndex.Proofs.Dispatch.Process
import Mathlib.Data.List.Perm.Basic
/-!
# What a step counts

Every step of a dispatcher changes the counters by a function that depends on the task and the
reply, and looks at how many failures there were, but not at which ones. So the steps for the
answers of a wave can change places: only the order of the list of failures tells them apart.
-/

namespace SourceIndex
variable {σ : Type}

/-! ### Counters -/

namespace DispatchStats

def unlisted (stats : DispatchStats) : DispatchStats := { stats with failures := [] }

/-- Counters that differ at most in the order of the failures after those that are `kept`. -/
structure Alike (kept : List Outcome) (first second : DispatchStats) : Prop where
  unlisted : first.unlisted = second.unlisted
  failures : ∃ some others, first.failures = kept ++ some ∧ second.failures = kept ++ others ∧
    some.Perm others

theorem Alike.refl (stats : DispatchStats) : Alike stats.failures stats stats :=
  ⟨rfl, [], [], (List.append_nil _).symm, (List.append_nil _).symm, .refl _⟩

/-- A change that adds some failures and does not look at those that are there. -/
structure Adds (change : DispatchStats → DispatchStats) (more : List Outcome) : Prop where
  blind : ∀ stats, (change stats).unlisted = (change stats.unlisted).unlisted
  failures : ∀ stats, (change stats).failures = stats.failures ++ more

theorem Alike.change {kept : List Outcome} {first second : DispatchStats}
    (alike : Alike kept first second) {change : DispatchStats → DispatchStats}
    {more : List Outcome} (adds : Adds change more) : Alike kept (change first) (change second) := by
  obtain ⟨same, some, others, left, right, perm⟩ := alike
  refine ⟨by rw [adds.blind, same, ← adds.blind], some ++ more, others ++ more, ?_, ?_,
    perm.append_right more⟩
  · rw [adds.failures, left, List.append_assoc]
  · rw [adds.failures, right, List.append_assoc]

theorem Adds.comp {first second : DispatchStats → DispatchStats} {some others : List Outcome}
    (left : Adds first some) (right : Adds second others) :
    Adds (second ∘ first) (some ++ others) where
  blind stats := by
    rw [Function.comp_apply, right.blind, left.blind, ← right.blind]
    rfl
  failures stats := by
    rw [Function.comp_apply, right.failures, left.failures, List.append_assoc]

/-! ### The changes -/

def credit (outcome : Outcome) (stats : DispatchStats) : DispatchStats :=
  if outcome.status = .succeeded then { stats with processed := stats.processed + 1 }
  else { stats with failed := stats.failed + 1 }

def giveUp (reason : String) (stats : DispatchStats) : DispatchStats :=
  if stats.mode = .sequential then stats
  else { stats with mode := .sequential, downgradeReason := some reason }

/-- The counters with one more failure of a worker, after which workers may be given up. -/
def blame (settings : DispatchSettings) (failure : Outcome) (stats : DispatchStats) :
    DispatchStats :=
  let counted := { stats with
    workerFailures := stats.workerFailures + 1
    failures := stats.failures ++ [failure] }
  if settings.maxFailures < (counted.workerFailures : Int) then
    counted.giveUp
      (toString counted.workerFailures ++ " worker failures exceeded limit " ++
        toString settings.maxFailures)
  else counted

def fallBack (stats : DispatchStats) : DispatchStats := { stats with fallbacks := stats.fallbacks + 1 }

/-- The counters with a failure of a worker and the outcome that the program itself comes to. -/
def retry (settings : DispatchSettings) (failure outcome : Outcome) (stats : DispatchStats) :
    DispatchStats :=
  credit outcome (fallBack (blame settings failure stats))

theorem adds_credit (outcome : Outcome) : Adds (credit outcome) [] where
  blind stats := by
    unfold credit
    split <;> rfl
  failures stats := by
    unfold credit
    split <;> exact (List.append_nil _).symm

theorem adds_fallBack : Adds fallBack [] := ⟨fun _ => rfl, fun _ => (List.append_nil _).symm⟩

theorem adds_giveUp (reason : String) : Adds (giveUp reason) [] where
  blind stats := by
    unfold giveUp unlisted
    split <;> rfl
  failures stats := by
    unfold giveUp
    split <;> exact (List.append_nil _).symm

theorem adds_blame (settings : DispatchSettings) (failure : Outcome) :
    Adds (blame settings failure) [failure] where
  blind stats := by
    unfold blame giveUp unlisted
    simp only
    split
    · split <;> rfl
    · rfl
  failures stats := by
    unfold blame giveUp
    simp only
    split
    · split <;> rfl
    · rfl

theorem adds_retry (settings : DispatchSettings) (failure outcome : Outcome) :
    Adds (retry settings failure outcome) [failure] :=
  (adds_blame settings failure).comp (adds_fallBack.comp (adds_credit outcome))

/-! ### Changing places -/

/-- Two changes that can change places but for the order of the failures. -/
def Commute (first second : DispatchStats → DispatchStats) : Prop :=
  ∀ stats, (second (first stats)).unlisted = (first (second stats)).unlisted

theorem Commute.symm {first second : DispatchStats → DispatchStats}
    (commute : Commute first second) : Commute second first := fun stats => (commute stats).symm

theorem Commute.comp {change first second : DispatchStats → DispatchStats} {more : List Outcome}
    (left : Commute change first) (right : Commute change second) (adds : Adds second more) :
    Commute change (second ∘ first) := by
  intro stats
  calc (second (first (change stats))).unlisted
      = (second (first (change stats)).unlisted).unlisted := adds.blind _
    _ = (second (change (first stats)).unlisted).unlisted := by rw [left stats]
    _ = (second (change (first stats))).unlisted := (adds.blind _).symm
    _ = (change (second (first stats))).unlisted := right (first stats)

theorem commute_credit_credit (first second : Outcome) : Commute (credit first) (credit second) := by
  intro stats
  unfold credit
  split <;> split <;> rfl

theorem commute_credit_fallBack (outcome : Outcome) : Commute (credit outcome) fallBack := by
  intro stats
  unfold credit fallBack
  split <;> rfl

theorem commute_credit_blame (settings : DispatchSettings) (failure outcome : Outcome) :
    Commute (credit outcome) (blame settings failure) := by
  intro stats
  unfold credit blame giveUp
  by_cases success : outcome.status = .succeeded
  · simp only [if_pos success]
    split
    · split <;> rfl
    · rfl
  · simp only [if_neg success]
    split
    · split <;> rfl
    · rfl

theorem commute_fallBack_blame (settings : DispatchSettings) (failure : Outcome) :
    Commute fallBack (blame settings failure) := by
  intro stats
  unfold fallBack blame giveUp
  simp only
  split
  · split <;> rfl
  · rfl

/-- Whose failure is counted shows in the list of failures only. -/
theorem unlisted_blame (settings : DispatchSettings) (failure other : Outcome)
    (stats : DispatchStats) :
    (blame settings failure stats).unlisted = (blame settings other stats).unlisted := by
  unfold blame giveUp unlisted
  simp only
  split
  · split <;> rfl
  · rfl

theorem commute_blame_blame (settings : DispatchSettings) (first second : Outcome) :
    Commute (blame settings first) (blame settings second) := by
  intro stats
  calc (blame settings second (blame settings first stats)).unlisted
      = (blame settings first (blame settings first stats)).unlisted := unlisted_blame ..
    _ = (blame settings first (blame settings first stats).unlisted).unlisted :=
        (adds_blame settings first).blind _
    _ = (blame settings first (blame settings second stats).unlisted).unlisted :=
        congrArg (fun stats => (blame settings first stats).unlisted) (unlisted_blame ..)
    _ = (blame settings first (blame settings second stats)).unlisted :=
        ((adds_blame settings first).blind _).symm

theorem commute_retry_credit (settings : DispatchSettings) (failure outcome other : Outcome) :
    Commute (credit other) (retry settings failure outcome) :=
  (commute_credit_blame settings failure other).comp
    ((commute_credit_fallBack other).comp (commute_credit_credit other outcome)
      (adds_credit outcome))
    (adds_fallBack.comp (adds_credit outcome))

theorem commute_retry_retry (settings : DispatchSettings) (failure outcome other last : Outcome) :
    Commute (retry settings failure outcome) (retry settings other last) := by
  have fall : Commute fallBack (retry settings failure outcome) :=
    (commute_fallBack_blame settings failure).comp
      (Commute.comp (fun _ => rfl) (commute_credit_fallBack outcome).symm (adds_credit outcome))
      (adds_fallBack.comp (adds_credit outcome))
  have blames : Commute (blame settings other) (retry settings failure outcome) :=
    (commute_blame_blame settings other failure).comp
      ((commute_fallBack_blame settings other).symm.comp
        (commute_credit_blame settings other outcome).symm (adds_credit outcome))
      (adds_fallBack.comp (adds_credit outcome))
  exact blames.symm.comp
    (fall.symm.comp (commute_retry_credit settings failure outcome last).symm (adds_credit last))
    (adds_fallBack.comp (adds_credit last))

/-! ### Changes one after the other -/

section Folds
variable {α : Type} {change : α → DispatchStats → DispatchStats} {more : α → List Outcome}

theorem unlisted_foldl (adds : ∀ a, Adds (change a) (more a)) (items : List α)
    (stats : DispatchStats) :
    (items.foldl (fun stats a => change a stats) stats).unlisted =
      items.foldl (fun stats a => (change a stats).unlisted) stats.unlisted := by
  induction items generalizing stats with
  | nil => rfl
  | cons a rest ih =>
    rw [List.foldl_cons, List.foldl_cons, ih, (adds a).blind]

theorem failures_foldl (adds : ∀ a, Adds (change a) (more a)) (items : List α)
    (stats : DispatchStats) :
    (items.foldl (fun stats a => change a stats) stats).failures =
      stats.failures ++ items.flatMap more := by
  induction items generalizing stats with
  | nil => exact (List.append_nil _).symm
  | cons a rest ih =>
    rw [List.foldl_cons, ih, (adds a).failures, List.flatMap_cons, List.append_assoc]

theorem Alike.foldl_of_perm {kept : List Outcome} {first second : DispatchStats}
    (alike : Alike kept first second) (adds : ∀ a, Adds (change a) (more a))
    (commute : ∀ a b, Commute (change a) (change b)) {items others : List α}
    (perm : items.Perm others) :
    Alike kept (items.foldl (fun stats a => change a stats) first)
      (others.foldl (fun stats a => change a stats) second) := by
  obtain ⟨same, some, rest, left, right, reordered⟩ := alike
  refine ⟨?_, some ++ items.flatMap more, rest ++ others.flatMap more, ?_, ?_,
    reordered.append (perm.flatMap_right more)⟩
  · rw [unlisted_foldl adds, unlisted_foldl adds, same]
    refine perm.foldl_eq' (fun a _ b _ stats => ?_) _
    rw [← (adds b).blind, ← (adds a).blind]
    exact commute a b stats
  · rw [failures_foldl adds, left, List.append_assoc]
  · rw [failures_foldl adds, right, List.append_assoc]

end Folds

end DispatchStats

/-! ### Steps -/

/-- A crew that runs tasks in the program itself by a function, as long as `near` holds of its
state, which neither that nor a message changes. -/
structure Crew.RunsBy (crew : Crew σ) (answer : Task → Except FileError Outcome)
    (near : σ → Prop) : Prop where
  run : ∀ task world, near world →
    (crew.run task world).1 = answer task ∧ near (crew.run task world).2
  tell : ∀ line world, near world → near (crew.tell line world)

namespace Dispatch

theorem Ends.mono {ε α : Type} {fails stops : Prop} {holds later : α → Prop} {step : Except ε α}
    (ends : Ends fails holds step) (failing : fails → stops) (going : ∀ a, holds a → later a) :
    Ends stops later step := by
  cases step with
  | ok a => exact going a ends
  | error e => exact failing ends

/-- A run that goes on from another one with only its counters and its state changed. -/
structure Shift.Counts (near : σ → Prop) (s : Shift σ) (stats : DispatchStats)
    (after : Shift σ) : Prop where
  stats : after.stats = stats
  pools : after.pools = s.pools
  events : after.events = s.events
  world : near after.world

variable {crew : Crew σ} {answer : Task → Except FileError Outcome} {near : σ → Prop}

theorem runInline_counts (runs : crew.RunsBy answer near) (task : Task) (s : Shift σ)
    (here : near s.world) :
    Ends (∃ e, answer task = .error e)
      (fun (outcome, after) => answer task = .ok outcome ∧
        s.Counts near (s.stats.credit outcome) after) (runInline crew task s) := by
  obtain ⟨same, kept⟩ := runs.run task s.world here
  unfold runInline
  generalize crew.run task s.world = result at same kept
  obtain ⟨outcome, world⟩ := result
  cases outcome with
  | error e => exact ⟨e, same.symm⟩
  | ok outcome => exact ⟨same.symm, rfl, rfl, rfl, kept⟩

theorem downgrade_counts (runs : crew.RunsBy answer near) (reason : String) (s : Shift σ)
    (here : near s.world) : s.Counts near (s.stats.giveUp reason) (downgrade crew reason s) := by
  unfold downgrade DispatchStats.giveUp
  split
  · exact ⟨rfl, rfl, rfl, here⟩
  · exact ⟨rfl, rfl, rfl, runs.tell _ _ here⟩

theorem recordFailure_counts (runs : crew.RunsBy answer near) (settings : DispatchSettings)
    (task : Task) (status : TaskStatus) (error : String) (s : Shift σ) (here : near s.world) :
    s.Counts near (s.stats.blame settings ⟨task.path, status, [], some error⟩)
      (recordFailure crew settings task status error s) := by
  let failure : Outcome := ⟨task.path, status, [], some error⟩
  let told : Shift σ :=
    (s.count fun stats =>
      { stats with
        workerFailures := stats.workerFailures + 1
        failures := stats.failures ++ [failure] }).tell crew
      ("Worker " ++ status.name ++ " for " ++ task.path ++ ": " ++ error ++ "; retrying inline")
  have kept : near told.world := runs.tell _ _ here
  by_cases many : settings.maxFailures < (told.stats.workerFailures : Int)
  · have recorded : recordFailure crew settings task status error s = downgrade crew
        (toString told.stats.workerFailures ++ " worker failures exceeded limit " ++
          toString settings.maxFailures) told := if_pos many
    have blamed : s.stats.blame settings failure = told.stats.giveUp
        (toString told.stats.workerFailures ++ " worker failures exceeded limit " ++
          toString settings.maxFailures) := if_pos many
    obtain ⟨stats, pools, events, world⟩ := downgrade_counts runs _ told kept
    rw [recorded, blamed]
    exact ⟨stats, pools, events, world⟩
  · have recorded : recordFailure crew settings task status error s = told := if_neg many
    have blamed : s.stats.blame settings failure = told.stats := if_neg many
    rw [recorded, blamed]
    exact ⟨rfl, rfl, rfl, kept⟩

structure Wave.Gains (near : σ → Prop) (w : Wave σ) (index : Nat) (outcome : Outcome)
    (stats : DispatchStats) (after : Wave σ) : Prop where
  outcomes : after.outcomes = w.outcomes ++ [(index, outcome)]
  healthy : after.healthy = w.healthy
  shift : w.shift.Counts near stats after.shift

theorem Wave.retry_gains (runs : crew.RunsBy answer near) (settings : DispatchSettings)
    (index : Nat) (task : Task) (status : TaskStatus) (error : String) (w : Wave σ)
    (here : near w.shift.world) :
    Ends (∃ e, answer task = .error e)
      (fun after => ∃ outcome, answer task = .ok outcome ∧
        w.Gains near index outcome
          (w.shift.stats.retry settings ⟨task.path, status, [], some error⟩ outcome) after)
      (w.retry crew settings index task status error) := by
  obtain ⟨stats, pools, events, world⟩ :=
    recordFailure_counts runs settings task status error w.shift here
  unfold Wave.retry
  refine (runInline_counts runs task _ (show near (Shift.count _ _).world from world)).bind ?_
  rintro ⟨outcome, shift⟩ ⟨answered, counted, samePools, sameEvents, kept⟩
  refine ⟨outcome, answered, rfl, rfl, ?_, samePools.trans pools, sameEvents.trans events, kept⟩
  rw [counted, DispatchStats.retry, ← stats]
  rfl

/-! ### Answers -/

end Dispatch

namespace Assigned

/-- The outcome that stands in the end: that of the worker if it succeeded, else that of the program
itself. -/
def final (answer : Task → Except FileError Outcome) (a : Assigned) : Except FileError Outcome :=
  match a.reply with
  | .answered outcome => if outcome.status = .succeeded then .ok outcome else answer a.task
  | _ => answer a.task

def failure? (a : Assigned) : Option Outcome :=
  match a.reply with
  | .silent => none
  | .crashed _ reason => some ⟨a.task.path, .failed, [], some ("worker error: " ++ reason)⟩
  | .answered outcome =>
    if outcome.status = .succeeded then none
    else some ⟨a.task.path, outcome.status, [], some (Dispatch.errorText outcome.error)⟩

def breaks (a : Assigned) : Bool :=
  match a.reply with
  | .crashed poolBroken _ => poolBroken
  | _ => false

def entries (answer : Task → Except FileError Outcome) (a : Assigned) : List (Nat × Outcome) :=
  match a.final answer with
  | .ok outcome => [(a.index, outcome)]
  | .error _ => []

def change (answer : Task → Except FileError Outcome) (settings : DispatchSettings) (a : Assigned)
    (stats : DispatchStats) : DispatchStats :=
  match a.final answer, a.failure? with
  | .ok outcome, some failure => stats.retry settings failure outcome
  | .ok outcome, none => stats.credit outcome
  | .error _, _ => stats

def failures (answer : Task → Except FileError Outcome) (a : Assigned) : List Outcome :=
  match a.final answer with
  | .ok _ => a.failure?.toList
  | .error _ => []

theorem adds_change (answer : Task → Except FileError Outcome) (settings : DispatchSettings)
    (a : Assigned) : DispatchStats.Adds (a.change answer settings) (a.failures answer) := by
  unfold change failures
  cases a.final answer with
  | error e => exact ⟨fun _ => rfl, fun _ => (List.append_nil _).symm⟩
  | ok outcome =>
    cases a.failure? with
    | none => exact DispatchStats.adds_credit outcome
    | some failure => exact DispatchStats.adds_retry settings failure outcome

theorem commute_change (answer : Task → Except FileError Outcome) (settings : DispatchSettings)
    (a b : Assigned) :
    DispatchStats.Commute (a.change answer settings) (b.change answer settings) := by
  unfold change
  cases a.final answer with
  | error e => exact fun _ => rfl
  | ok outcome =>
    cases b.final answer with
    | error e => exact fun _ => rfl
    | ok other =>
      cases a.failure? with
      | none =>
        cases b.failure? with
        | none => exact DispatchStats.commute_credit_credit outcome other
        | some failure => exact DispatchStats.commute_retry_credit settings failure other outcome
      | some failure =>
        cases b.failure? with
        | none => exact (DispatchStats.commute_retry_credit settings failure outcome other).symm
        | some second => exact DispatchStats.commute_retry_retry settings failure outcome second other

end Assigned

namespace Dispatch

variable {crew : Crew σ} {answer : Task → Except FileError Outcome} {near : σ → Prop}

/-- A wave that goes on from another one with the answers for some tasks. -/
structure Wave.Takes (answer : Task → Except FileError Outcome) (near : σ → Prop)
    (settings : DispatchSettings) (answered : List Assigned) (w after : Wave σ) : Prop where
  tried : ∀ a ∈ answered, ∃ outcome, a.final answer = .ok outcome
  outcomes : after.outcomes = w.outcomes ++ answered.flatMap (Assigned.entries answer)
  healthy : after.healthy = (w.healthy && !answered.any Assigned.breaks)
  shift : w.shift.Counts near
    (answered.foldl (fun stats a => a.change answer settings stats) w.shift.stats) after.shift

theorem Wave.Takes.nil {settings : DispatchSettings} {w : Wave σ} (here : near w.shift.world) :
    w.Takes answer near settings [] w :=
  ⟨fun _ member => (by cases member), (List.append_nil _).symm, (Bool.and_true _).symm, rfl, rfl, rfl,
    here⟩

theorem Wave.Takes.cons {settings : DispatchSettings} {a : Assigned} {rest : List Assigned}
    {w next after : Wave σ} (first : w.Takes answer near settings [a] next)
    (others : next.Takes answer near settings rest after) :
    w.Takes answer near settings (a :: rest) after where
  tried := List.forall_mem_cons.mpr ⟨first.tried a (List.mem_singleton.mpr rfl), others.tried⟩
  outcomes := by
    rw [others.outcomes, first.outcomes, List.append_assoc, ← List.flatMap_append]
    rfl
  healthy := by
    rw [others.healthy, first.healthy, Bool.and_assoc, ← Bool.not_or, ← List.any_append]
    rfl
  shift := {
    stats := by
      rw [others.shift.stats, first.shift.stats]
      rfl
    pools := others.shift.pools.trans first.shift.pools
    events := others.shift.events.trans first.shift.events
    world := others.shift.world }

theorem Wave.Takes.of_gains {settings : DispatchSettings} {a : Assigned} {w after : Wave σ}
    {outcome failure : Outcome} (counted : Wave σ) (final : a.final answer = .ok outcome)
    (failed : a.failure? = some failure) (outcomes : counted.outcomes = w.outcomes)
    (healthy : counted.healthy = (w.healthy && !a.breaks)) (shift : counted.shift = w.shift)
    (gained : counted.Gains near a.index outcome
      (counted.shift.stats.retry settings failure outcome) after) :
    w.Takes answer near settings [a] after where
  tried := List.forall_mem_singleton.mpr ⟨outcome, final⟩
  outcomes := by
    rw [gained.outcomes, outcomes, List.flatMap_singleton, Assigned.entries, final]
  healthy := by
    rw [gained.healthy, healthy, List.any_cons, List.any_nil, Bool.or_false]
  shift := by
    rw [List.foldl_cons, List.foldl_nil, Assigned.change, final, failed, ← shift]
    exact gained.shift

theorem takeAnswer_takes (runs : crew.RunsBy answer near) (settings : DispatchSettings)
    (w : Wave σ) {a : Assigned} (done : Assigned.isDone a = true) (here : near w.shift.world) :
    Ends (∃ e, a.final answer = .error e) (fun after => w.Takes answer near settings [a] after)
      (takeAnswer crew settings w a) := by
  obtain ⟨index, task, reply⟩ := a
  cases reply with
  | silent => cases done
  | crashed poolBroken reason =>
    have ends := Wave.retry_gains runs settings index task .failed ("worker error: " ++ reason)
      { w with healthy := w.healthy && !poolBroken } here
    refine ends.mono id ?_
    rintro after ⟨outcome, answered, gained⟩
    exact .of_gains { w with healthy := w.healthy && !poolBroken } answered rfl rfl rfl rfl gained
  | answered outcome =>
    by_cases success : outcome.status = .succeeded
    · have final : Assigned.final answer ⟨index, task, .answered outcome⟩ = .ok outcome :=
        if_pos success
      have failed : Assigned.failure? ⟨index, task, .answered outcome⟩ = none := if_pos success
      have taken : takeAnswer crew settings w ⟨index, task, .answered outcome⟩ = .ok { w with
          outcomes := w.outcomes ++ [(index, outcome)]
          shift := w.shift.count fun stats => { stats with processed := stats.processed + 1 } } :=
        if_pos success
      rw [taken]
      refine ⟨List.forall_mem_singleton.mpr ⟨outcome, final⟩, ?_, ?_, ?_, rfl, rfl, here⟩
      · rw [List.flatMap_singleton, Assigned.entries, final]
      · exact (Bool.and_true _).symm
      · rw [List.foldl_cons, List.foldl_nil, Assigned.change, final, failed]
        exact (if_pos success).symm
    · have final : Assigned.final answer ⟨index, task, .answered outcome⟩ = answer task :=
        if_neg success
      have failed : Assigned.failure? ⟨index, task, .answered outcome⟩ =
          some ⟨task.path, outcome.status, [], some (errorText outcome.error)⟩ := if_neg success
      have retried : takeAnswer crew settings w ⟨index, task, .answered outcome⟩ =
          w.retry crew settings index task outcome.status (errorText outcome.error) :=
        if_neg success
      rw [retried, final]
      refine (Wave.retry_gains runs settings index task outcome.status _ w here).mono id ?_
      rintro after ⟨last, answered, gained⟩
      exact .of_gains w (final.trans answered) failed rfl (Bool.and_true _).symm rfl gained

theorem takeAnswers_takes (runs : crew.RunsBy answer near) (settings : DispatchSettings)
    {answered : List Assigned} (done : ∀ a ∈ answered, Assigned.isDone a = true) (w : Wave σ)
    (here : near w.shift.world) :
    Ends (∃ a ∈ answered, ∃ e, a.final answer = .error e)
      (fun after => w.Takes answer near settings answered after)
      (answered.foldlM (takeAnswer crew settings) w) := by
  induction answered generalizing w with
  | nil => exact .nil here
  | cons a rest ih =>
    rw [List.forall_mem_cons] at done
    rw [List.foldlM_cons]
    have first := takeAnswer_takes runs settings w done.1 here
    refine Ends.bind (first.mono (fun failed => ⟨a, List.mem_cons_self .., failed⟩) fun _ => id) ?_
    intro next takes
    refine (ih done.2 next takes.shift.world).mono ?_ fun after others => takes.cons others
    exact fun ⟨b, member, failed⟩ => ⟨b, List.mem_cons_of_mem _ member, failed⟩

end Dispatch
end SourceIndex
