import SourceIndex.Dispatch.Crew
import SourceIndex.Json.Basic
import SourceIndex.Task.Basic
/-!
# Runs of a dispatcher

The state of a run and its small steps: running a task in the program itself, giving workers up,
opening and stopping pools. What happens is counted. A step may break the run off, and then tells
how far it had come.
-/

/-! ### Counters -/

namespace SourceIndex

/-- Whether tasks run one after the other in the program itself or in workers. -/
inductive DispatchMode
  | sequential
  | concurrent
  deriving DecidableEq, Repr

def DispatchMode.name : DispatchMode → String
  | sequential => "sequential"
  | concurrent => "concurrent"

def DispatchSettings.mode (settings : DispatchSettings) : DispatchMode :=
  if settings.concurrent then .concurrent else .sequential

structure DispatchStats where
  mode : DispatchMode
  processed : Nat := 0
  failed : Nat := 0
  workerFailures : Nat := 0
  timeouts : Nat := 0
  fallbacks : Nat := 0
  batches : Nat := 0
  /-- Why workers were given up. -/
  downgradeReason : Option String := none
  /-- The failures of workers. -/
  failures : List Outcome := []
  deriving DecidableEq, Repr

def Outcome.toJson (o : Outcome) : Json :=
  .object
    [("path", .text o.path), ("status", .text o.status.name), ("error", .optionalText o.error)]

def DispatchStats.toJson (s : DispatchStats) : Json :=
  .object
    [("mode", .text s.mode.name),
     ("processed_files", .nat s.processed),
     ("failed_files", .nat s.failed),
     ("worker_failures", .nat s.workerFailures),
     ("timeouts", .nat s.timeouts),
     ("sync_fallbacks", .nat s.fallbacks),
     ("batches", .nat s.batches),
     ("downgrade_reason", .optionalText s.downgradeReason),
     ("failures", .list (s.failures.map Outcome.toJson))]

end SourceIndex

namespace SourceIndex.Dispatch

/-! ### State -/

/-- A run of a dispatcher that is under way. -/
structure Shift (σ : Type) where
  world : σ
  stats : DispatchStats
  /-- How many pools were asked for. -/
  pools : Nat
  events : List Event

/-- Why the dispatching of tasks broke off. -/
inductive DispatchError
  /-- The tasks are to be divided into groups of no task. -/
  | emptyGroups
  /-- A wait for workers, a pause or a share of the memory is larger than can be handled. -/
  | tooLarge
  /-- A task could not even be tried. -/
  | task (e : FileError)
  deriving DecidableEq, Repr

def DispatchError.message : DispatchError → String
  | emptyGroups => "tasks cannot be divided into groups of none"
  | tooLarge => "a number is larger than can be handled"
  | task e => e.message

structure Broken (σ : Type) where
  error : DispatchError
  shift : Shift σ

variable {σ : Type}

namespace Shift

def record (s : Shift σ) (e : Event) : Shift σ := { s with events := s.events ++ [e] }

def tell (crew : Crew σ) (s : Shift σ) (text : String) : Shift σ :=
  { s with world := crew.tell (.warning text) s.world }

def count (s : Shift σ) (change : DispatchStats → DispatchStats) : Shift σ :=
  { s with stats := change s.stats }

end Shift

/-! ### Running a task in the program itself -/

def Shift.countOutcome (s : Shift σ) (outcome : Outcome) : Shift σ :=
  s.count fun stats =>
    if outcome.status = .succeeded then { stats with processed := stats.processed + 1 }
    else { stats with failed := stats.failed + 1 }

def runInline (crew : Crew σ) (task : Task) (s : Shift σ) : Except (Broken σ) (Outcome × Shift σ) :=
  match crew.run task s.world with
  | (.error e, world) => .error ⟨.task e, { s with world }⟩
  | (.ok outcome, world) => .ok (outcome, ({ s with world } : Shift σ).countOutcome outcome)

def fallBack (crew : Crew σ) (task : Task) (s : Shift σ) : Except (Broken σ) (Outcome × Shift σ) :=
  runInline crew task (s.count fun stats => { stats with fallbacks := stats.fallbacks + 1 })

/-! ### Giving workers up -/

/-- Goes over to sequential mode, unless that is done already. -/
def downgrade (crew : Crew σ) (reason : String) (s : Shift σ) : Shift σ :=
  if s.stats.mode = .sequential then s
  else
    (s.count fun stats =>
      { stats with mode := .sequential, downgradeReason := some reason }).tell crew
        ("Switching to sequential chunking: " ++ reason)

/-- Counts a failure of a worker; after too many the workers are given up. -/
def recordFailure (crew : Crew σ) (settings : DispatchSettings) (task : Task)
    (status : TaskStatus) (error : String) (s : Shift σ) : Shift σ :=
  let s := s.count fun stats =>
    { stats with
      workerFailures := stats.workerFailures + 1
      failures := stats.failures ++ [⟨task.path, status, [], some error⟩] }
  let s := s.tell crew
    ("Worker " ++ status.name ++ " for " ++ task.path ++ ": " ++ error ++ "; retrying inline")
  if settings.maxFailures < (s.stats.workerFailures : Int) then
    downgrade crew
      (toString s.stats.workerFailures ++ " worker failures exceeded limit " ++
        toString settings.maxFailures) s
  else s

/-- Reads the memory in use; above the threshold the workers are given up. -/
def checkMemory (crew : Crew σ) (settings : DispatchSettings) (moment : String) (s : Shift σ) :
    Except (Broken σ) (Shift σ) :=
  let (share, world) := crew.memory s.world
  let s := ({ s with world } : Shift σ).record (.memory share)
  if share.le settings.memoryThreshold then .ok s
  else
    match share.percent?, settings.memoryThreshold.percent? with
    | some share, some threshold =>
      .ok ((downgrade crew
        ("memory usage " ++ share ++ " " ++ moment ++ " exceeded threshold " ++ threshold)
        s).record .collect)
    | _, _ => .error ⟨.tooLarge, s⟩

/-! ### Pools -/

/-- Asks for a pool. Without one the workers are given up. -/
def openPool (crew : Crew σ) (settings : DispatchSettings) (s : Shift σ) : Option Nat × Shift σ :=
  let number := s.pools
  let (failure, world) := crew.openPool settings.maxWorkers s.world
  let s := ({ s with world, pools := number + 1 } : Shift σ).record
    (.pool number settings.maxWorkers)
  match failure with
  | none => (some number, s)
  | some reason =>
    (none, downgrade crew ("worker pool creation failed: " ++ reason)
      (s.tell crew ("Cannot start worker pool: " ++ reason)))

def terminations (pool : Nat) : Nat → List Bool → List Event
  | _, [] => []
  | process, true :: rest => .terminate pool process :: terminations pool (process + 1) rest
  | process, false :: rest => terminations pool (process + 1) rest

def stopPool (crew : Crew σ) (pool : Nat) (s : Shift σ) : Shift σ :=
  { s with events := s.events ++ terminations pool 0 crew.alive ++ [.shutdown pool false] }

def closePool (pool : Option Nat) (s : Shift σ) : Shift σ :=
  match pool with
  | some number => s.record (.shutdown number true)
  | none => s

end SourceIndex.Dispatch
