import SourceIndex.Number.Basic
import SourceIndex.Task.Basic
/-!
# Crews

What a dispatcher works with: a way to run a task in the program itself, pools of workers that may
refuse a task, break, fail or never answer, and a reading of the memory in use. All of it may
depend on a state, which every use may change.

The crew of a run on one machine is made from an engine. A worker has an engine and a session of its
own, so that what it learns and what it tells stays with it; only what it does to files is seen
outside.
-/

namespace SourceIndex

/-- What comes of a task that a pool has taken. -/
inductive Reply
  /-- The worker failed; the pool may have broken with it. -/
  | crashed (poolBroken : Bool) (reason : String)
  | answered (outcome : Outcome)
  /-- There is no answer in time. -/
  | silent

def Reply.ofResult : Except FileError Outcome → Reply
  | .ok outcome => answered outcome
  | .error e => crashed false e.message

/-- What comes of handing a task to a pool. -/
inductive Submission
  /-- The pool does not take the task. If that is `fatal`, it will take no other one either. -/
  | refused (fatal : Bool) (reason : String)
  | taken (reply : Reply)

structure Assigned where
  index : Nat
  task : Task
  reply : Reply

structure Crew (σ : Type) where
  /-- Runs a task in the program itself, unless it cannot even be tried. -/
  run : Task → σ → Except FileError Outcome × σ
  /-- Starts a pool with so many workers; gives a reason if that fails. -/
  openPool : Int → σ → Option String × σ
  /-- Hands a task, with its number in the run, to a pool. -/
  submit : Nat → Task → σ → Submission × σ
  /-- The order in which the answers of a wave are taken. -/
  arrange : List Assigned → List Assigned
  /-- Which of the processes of a pool are alive. -/
  alive : List Bool
  /-- The share of the memory in use. -/
  memory : σ → Number × σ
  /-- Whether the pauses between batches are really made. -/
  rests : Bool
  /-- Takes a message. -/
  tell : LogLine → σ → σ

/-- What a dispatcher does with its crew. Pools are numbered from zero. -/
inductive Event
  | pool (number : Nat) (workers : Int)
  | submit (number index : Nat)
  /-- A pool is shut down; `wait` tells whether its workers are waited for. -/
  | shutdown (number : Nat) (wait : Bool)
  | terminate (number process : Nat)
  | memory (share : Number)
  /-- Memory is given back. -/
  | collect
  | pause (seconds : Number)
  deriving DecidableEq, Repr

end SourceIndex

/-! ### The crew of one machine -/

namespace SourceIndex.Crew
variable {γ : Type}

def noWorkers : String := "max_workers must be greater than 0"

/-- The crew that chunks files with an engine. `share` is the share of the memory in use. -/
def ofEngine (engine : Engine γ) (scan : ScanSettings) (share : Number) : Crew (World γ) where
  run task w := task.run engine scan w
  openPool workers w := (if workers ≤ 0 then some noWorkers else none, w)
  submit _ task w :=
    let (result, after) := task.runAlone engine scan w
    (.taken (.ofResult result), { w with disk := after.disk })
  arrange replies := replies
  alive := []
  memory w := (share, w)
  rests := true
  tell line w := w.note line

end SourceIndex.Crew
