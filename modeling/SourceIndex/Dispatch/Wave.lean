import SourceIndex.Dispatch.Basic
/-!
# Waves

A wave is as many tasks as there are workers. They are all handed to a pool before the answers are
taken; what the workers do not do is done in the program itself.
-/

namespace SourceIndex.Dispatch
variable {σ : Type}

/-! ### Handing tasks over -/

abbrev Numbered := Nat × Task

/-- A wave that is under way: the outcomes so far, by number, and whether the pool is still
good. -/
structure Wave (σ : Type) where
  outcomes : List (Nat × Outcome)
  healthy : Bool
  shift : Shift σ

/-- Does a task in the program itself after a worker failed at it. -/
def Wave.retry (crew : Crew σ) (settings : DispatchSettings) (index : Nat) (task : Task)
    (status : TaskStatus) (error : String) (w : Wave σ) : Except (Broken σ) (Wave σ) := do
  let (outcome, shift) ←
    fallBack crew task (recordFailure crew settings task status error w.shift)
  return { w with outcomes := w.outcomes ++ [(index, outcome)], shift }

/-- Hands the tasks of a wave to a pool; gives those that it has taken. -/
def submitAll (crew : Crew σ) (settings : DispatchSettings) (pool : Nat) :
    List Numbered → Wave σ → Except (Broken σ) (List Assigned × Wave σ)
  | [], w => .ok ([], w)
  | (index, task) :: rest, w => do
    let (submission, world) := crew.submit index task w.shift.world
    let w := { w with
      shift := ({ w.shift with world } : Shift σ).record (.submit pool index) }
    match submission with
    | .taken reply =>
      let (taken, w) ← submitAll crew settings pool rest w
      return (⟨index, task, reply⟩ :: taken, w)
    | .refused fatal reason =>
      let w ← w.retry crew settings index task .failed ("submit failed: " ++ reason)
      submitAll crew settings pool rest { w with healthy := w.healthy && !fatal }

/-! ### Taking answers -/

def errorText (error : Option String) : String :=
  match error with
  | some text => if text = "" then "worker failed" else text
  | none => "worker failed"

def takeAnswer (crew : Crew σ) (settings : DispatchSettings) (w : Wave σ) (a : Assigned) :
    Except (Broken σ) (Wave σ) :=
  match a.reply with
  | .silent => .ok w
  | .crashed poolBroken reason =>
    let w := { w with healthy := w.healthy && !poolBroken }
    w.retry crew settings a.index a.task .failed ("worker error: " ++ reason)
  | .answered outcome =>
    if outcome.status = .succeeded then
      .ok { w with
        outcomes := w.outcomes ++ [(a.index, outcome)]
        shift := w.shift.count fun stats => { stats with processed := stats.processed + 1 } }
    else w.retry crew settings a.index a.task outcome.status (errorText outcome.error)

def Assigned.isDone (a : Assigned) : Bool :=
  match a.reply with
  | .silent => false
  | _ => true

def takeTimeout (crew : Crew σ) (settings : DispatchSettings) (w : Wave σ) (a : Assigned) :
    Except (Broken σ) (Wave σ) :=
  let w := { w with
    shift := w.shift.count fun stats => { stats with timeouts := stats.timeouts + 1 } }
  w.retry crew settings a.index a.task .timedOut
    ("no result within " ++ settings.timeout.text ++ "s")

/-- Takes the answers that came in time in some order, and does the other tasks in the order of
their numbers. A pool that did not answer in time is stopped. -/
def takeReplies (crew : Crew σ) (settings : DispatchSettings) (pool : Nat)
    (taken : List Assigned) (w : Wave σ) : Except (Broken σ) (Wave σ) := do
  let w ← (crew.arrange (taken.filter Assigned.isDone)).foldlM (takeAnswer crew settings) w
  match taken.filter fun a => !Assigned.isDone a with
  | [] => return w
  | late =>
    -- A worker that does not answer may hang, so that the pool is not waited for.
    let w := { w with shift := stopPool crew pool w.shift }
    let w ← late.foldlM (takeTimeout crew settings) w
    return { w with healthy := false }

/-- The largest number of seconds that can be waited: the last one below `2 ^ 63` nanoseconds. -/
def longestWait : Number := .real (.finite false 4835703278458516 (-19))

/-- Whether some tasks are not answered, and waiting for that takes longer than can be waited. -/
def waitsTooLong (settings : DispatchSettings) (taken : List Assigned) : Bool :=
  longestWait.lt settings.timeout && taken.any fun a => !Assigned.isDone a

/-! ### Running waves -/

def inOrder (tasks : List Numbered) (outcomes : List (Nat × Outcome)) : List Outcome :=
  tasks.filterMap fun task => (outcomes.find? fun entry => entry.1 == task.1).map (·.2)

/-- Runs a wave of tasks in a pool; tells whether the pool is still good. -/
def runWave (crew : Crew σ) (settings : DispatchSettings) (pool : Nat) (tasks : List Numbered)
    (s : Shift σ) : Except (Broken σ) ((List Outcome × Bool) × Shift σ) := do
  let (taken, w) ← submitAll crew settings pool tasks ⟨[], true, s⟩
  if waitsTooLong settings taken then .error ⟨.tooLarge, w.shift⟩
  else
    let w ← takeReplies crew settings pool taken w
    return ((inOrder tasks w.outcomes, w.healthy), w.shift)

def fallBackAll (crew : Crew σ) :
    List Numbered → Shift σ → Except (Broken σ) (List Outcome × Shift σ)
  | [], s => .ok ([], s)
  | (_, task) :: rest, s => do
    let (outcome, s) ← fallBack crew task s
    let (outcomes, s) ← fallBackAll crew rest s
    return (outcome :: outcomes, s)

/-- A new pool in place of a stopped one, if workers are still wanted. -/
def replacePool (crew : Crew σ) (settings : DispatchSettings) (pool : Nat) (s : Shift σ) :
    Option Nat × Shift σ :=
  let s := stopPool crew pool s
  if s.stats.mode = .concurrent then openPool crew settings s else (none, s)

/-- Runs a wave of tasks in the pool that is open, or in the program itself if there are no workers
for it; gives the pool that is open afterwards. -/
def runAnywhere (crew : Crew σ) (settings : DispatchSettings) (tasks : List Numbered)
    (pool : Option Nat) (s : Shift σ) : Except (Broken σ) ((List Outcome × Option Nat) × Shift σ) :=
  match pool, s.stats.mode with
  | some number, .concurrent => do
    let ((outcomes, healthy), s) ← runWave crew settings number tasks s
    let (pool, s) := if healthy then (pool, s) else replacePool crew settings number s
    return ((outcomes, pool), s)
  -- A pool of workers that were given up stays open until the batch is done.
  | _, _ => do
    let (outcomes, s) ← fallBackAll crew tasks s
    return ((outcomes, pool), s)

/-- Runs waves of tasks one after the other; gives the pool that is open at the end. A pool that is
open when the run breaks off is shut down. -/
def runWaves (crew : Crew σ) (settings : DispatchSettings) :
    List (List Numbered) → Option Nat → Shift σ →
      Except (Broken σ) ((List Outcome × Option Nat) × Shift σ)
  | [], pool, s => .ok (([], pool), s)
  | tasks :: rest, pool, s =>
    match runAnywhere crew settings tasks pool s with
    | .error broken => .error { broken with shift := closePool pool broken.shift }
    | .ok ((outcomes, pool), s) => do
      let ((others, pool), s) ← runWaves crew settings rest pool s
      return ((outcomes ++ others, pool), s)

end SourceIndex.Dispatch
