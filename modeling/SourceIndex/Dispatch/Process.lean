import SourceIndex.Dispatch.Wave
/-!
# Dispatching tasks

Tasks are dispatched in batches. In concurrent mode a batch goes to a pool of workers in waves of
as many tasks as there are workers, and every task that a worker does not do is done in the program
itself, so that no task is lost. After too many failures, or when memory gets short, the dispatcher
goes over to sequential mode for good.
-/

namespace SourceIndex.Dispatch
variable {σ : Type}

/-! ### Batches -/

/-- A list in groups of `size` items, the last one possibly shorter. -/
def groupsOf {α : Type} (size : Nat) (items : List α) : List (List α) :=
  if items.isEmpty || size = 0 then []
  else items.take size :: groupsOf size (items.drop size)
  termination_by items.length
  decreasing_by
    simp_all
    cases items with
    | nil => simp_all
    | cons => simp; omega

/-- A list in groups: there are none if the size is negative, and it cannot be zero. -/
def groups? {α : Type} (size : Int) (items : List α) : Option (List (List α)) :=
  if size = 0 then none else some (groupsOf size.toNat items)

def runBatch (crew : Crew σ) (settings : DispatchSettings) (tasks : List Numbered) (s : Shift σ) :
    Except (Broken σ) (List Outcome × Shift σ) :=
  let (pool, s) := openPool crew settings s
  match groups? settings.maxWorkers tasks with
  | none => .error ⟨.emptyGroups, closePool pool s⟩
  | some waves => do
    let ((outcomes, pool), s) ← runWaves crew settings waves pool s
    return (outcomes, closePool pool s)

def runAllInline (crew : Crew σ) :
    List Numbered → Shift σ → Except (Broken σ) (List Outcome × Shift σ)
  | [], s => .ok ([], s)
  | (_, task) :: rest, s => do
    let (outcome, s) ← runInline crew task s
    let (outcomes, s) ← runAllInline crew rest s
    return (outcome :: outcomes, s)

/-- Runs a batch in the mode that holds; memory is read before and after a batch in workers. -/
def runInMode (crew : Crew σ) (settings : DispatchSettings) (tasks : List Numbered)
    (s : Shift σ) : Except (Broken σ) (List Outcome × Shift σ) :=
  let s := s.count fun stats => { stats with batches := stats.batches + 1 }
  if s.stats.mode = .concurrent then do
    let s ← checkMemory crew settings "before batch" s
    -- The workers may have been given up just now.
    if s.stats.mode = .concurrent then
      let (outcomes, s) ← runBatch crew settings tasks s
      let s ← checkMemory crew settings "after batch" s
      return (outcomes, s)
    else runAllInline crew tasks s
  else runAllInline crew tasks s

def pauseBetween (crew : Crew σ) (settings : DispatchSettings) (s : Shift σ) :
    Except (Broken σ) (Shift σ) :=
  if !(Number.whole 0).lt settings.pause then .ok s
  else if crew.rests && longestWait.lt settings.pause then .error ⟨.tooLarge, s⟩
  else .ok (s.record (.pause settings.pause))

def runBatches (crew : Crew σ) (settings : DispatchSettings) (first : Bool) :
    List (List Numbered) → Shift σ → Except (Broken σ) (List Outcome × Shift σ)
  | [], s => .ok ([], s)
  | tasks :: rest, s => do
    let s ← if first then .ok s else pauseBetween crew settings s
    let (outcomes, s) ← runInMode crew settings tasks s
    let (others, s) ← runBatches crew settings false rest s
    return (outcomes ++ others, s)

/-! ### Runs -/

def number (index : Nat) : List Task → List Numbered
  | [] => []
  | task :: rest => (index, task) :: number (index + 1) rest

/-- The start of a run. `pools` is how many pools were asked for in earlier runs. -/
def start (settings : DispatchSettings) (pools : Nat) (world : σ) : Shift σ :=
  ⟨world, { mode := settings.mode }, pools, []⟩

def outcomes (crew : Crew σ) (settings : DispatchSettings) (tasks : List Task) (s : Shift σ) :
    Except (Broken σ) (List Outcome × Shift σ) :=
  match groups? settings.batchSize (number 0 tasks) with
  | none => .error ⟨.emptyGroups, s⟩
  | some batches => runBatches crew settings true batches s

/-- The chunks of some tasks in the order of the tasks, and the run that led to them or broke
off. -/
def process (crew : Crew σ) (settings : DispatchSettings) (tasks : List Task) (pools : Nat)
    (world : σ) : Except DispatchError (List Chunk) × Shift σ :=
  match outcomes crew settings tasks (start settings pools world) with
  | .error broken => (.error broken.error, broken.shift)
  | .ok (found, s) => (.ok (found.flatMap (·.chunks)), s)

end SourceIndex.Dispatch
