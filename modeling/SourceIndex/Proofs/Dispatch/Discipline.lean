import Mathlib.Data.Multiset.Filter
import SourceIndex.Proofs.Dispatch.Course
import SourceIndex.Proofs.Dispatch.Process
/-!
# Discipline

What a dispatcher may do at a moment of a run depends on a few things only: the pool that is open,
the tasks that are not done, the batches that are not begun, and what a failure of a worker still
asks for. The course of every run keeps to that, whatever the crew does.
-/

namespace SourceIndex.Dispatch
variable {σ : Type}

/-! ### Stages -/

/-- What has to follow on a failure of a worker. -/
inductive Due
  | nothing
  /-- No answer came in time; the failure has to be recorded. -/
  | late (index : Nat)
  /-- The failure is recorded; the task has to be left to the program itself. -/
  | blamed (index : Nat)
  /-- The task is left to the program itself, which has to run it. -/
  | fallen (index : Nat)
  deriving DecidableEq

/-- No failure has to be recorded, and no task to be left to the program itself. -/
def Due.IsSettled (due : Due) : Prop := ∀ index, due ≠ .late index ∧ due ≠ .blamed index

structure Stage where
  /-- The pool that was asked for last, unless there was none to be had. -/
  pool : Option Nat
  /-- That pool is not shut down. -/
  isOpen : Bool
  /-- The tasks that are not done. -/
  todo : Multiset Numbered
  /-- How many batches are not begun. -/
  batches : Nat
  due : Due
  /-- The batch and the wave in it that a task was last submitted of. -/
  wave : Option (Nat × Nat)
  /-- How many failures may still be recorded for that wave. -/
  slack : Nat

def waveOf (settings : DispatchSettings) (index : Nat) : Nat × Nat :=
  (index / settings.batchSize.toNat,
    index % settings.batchSize.toNat / settings.maxWorkers.toNat)

/-- What may be done next, and how far the run is then. -/
inductive Allows (crew : Crew σ) (settings : DispatchSettings) (s : Shift σ) (g : Stage) :
    Deed → Stage → Prop
  | beginBatch (left : Nat) (begins : g.batches = left + 1) :
    Allows crew settings s g .beginBatch { g with batches := left }
  | readMemory (moment : String) : Allows crew settings s g (.readMemory moment) g
  | pause : Allows crew settings s g .pause g
  | openPool (closed : g.isOpen = false) (concurrent : s.stats.mode = .concurrent) :
    Allows crew settings s g .openPool
      { g with
        pool := (openPool crew settings s).1
        isOpen := (openPool crew settings s).1.isSome }
  | submit (pool index : Nat) (task : Task) (slack : Nat) (last : g.pool = some pool)
    (open_ : g.isOpen = true)
    (wave : s.stats.mode = .concurrent ∧ slack = settings.maxWorkers.toNat ∨
      g.wave = some (waveOf settings index) ∧ slack = g.slack) :
    Allows crew settings s g (.submit pool index task)
      { g with wave := some (waveOf settings index), slack }
  | accept (index : Nat) (task : Task) (rest : Multiset Numbered) (idle : g.due = .nothing)
    (todo : g.todo = (index, task) ::ₘ rest) :
    Allows crew settings s g (.accept index task) { g with todo := rest }
  | timeOut (index : Nat) (idle : g.due = .nothing) :
    Allows crew settings s g (.timeOut index) { g with due := .late index }
  | blame (index : Nat) (task : Task) (status : TaskStatus) (error : String) (left : Nat)
    (ready : g.due = .nothing ∨ g.due = .late index) (slack : g.slack = left + 1) :
    Allows crew settings s g (.blame index task status error)
      { g with due := .blamed index, slack := left }
  | fallBack (index : Nat) (ready : g.due = .nothing ∨ g.due = .blamed index)
    (todo : ∃ task, (index, task) ∈ g.todo) :
    Allows crew settings s g (.fallBack index) { g with due := .fallen index }
  | run (index : Nat) (task : Task) (rest : Multiset Numbered) (outcome : Outcome)
    (ready : g.due = .nothing ∨ g.due = .fallen index)
    (todo : g.todo = (index, task) ::ₘ rest)
    (tried : (crew.run task s.world).1 = .ok outcome) :
    Allows crew settings s g (.run index task) { g with todo := rest, due := .nothing }
  /-- The program itself cannot even try the task, and the run breaks off. -/
  | refuse (index : Nat) (task : Task) (e : FileError)
    (refused : (crew.run task s.world).1 = .error e) :
    Allows crew settings s g (.run index task) g
  | stop (pool : Nat) (last : g.pool = some pool) :
    Allows crew settings s g (.stop pool) { g with isOpen := false }
  | close (pool : Nat) (last : g.pool = some pool) :
    Allows crew settings s g (.close pool) { g with isOpen := false }

/-- Deeds that are allowed one after the other, and how far the run is then. -/
inductive Goes (crew : Crew σ) (settings : DispatchSettings) :
    Stage → Shift σ → List Deed → Stage → Shift σ → Prop
  | done (g : Stage) (s : Shift σ) : Goes crew settings g s [] g s
  | deed {g next last : Stage} {s after : Shift σ} {deed : Deed} {rest : List Deed}
    (allowed : Allows crew settings s g deed next)
    (goes : Goes crew settings next (deed.act crew settings s) rest last after) :
    Goes crew settings g s (deed :: rest) last after

variable {crew : Crew σ} {settings : DispatchSettings}

namespace Goes

theorem replay {g last : Stage} {s after : Shift σ} {deeds : List Deed}
    (goes : Goes crew settings g s deeds last after) :
    Dispatch.replay crew settings deeds s = after := by
  induction goes with
  | done => rfl
  | deed allowed goes ih => exact ih

theorem trans {g next last : Stage} {s between after : Shift σ} {first second : List Deed}
    (goes : Goes crew settings g s first next between)
    (goesOn : Goes crew settings next between second last after) :
    Goes crew settings g s (first ++ second) last after := by
  induction goes with
  | done => exact goesOn
  | deed allowed goes ih => exact .deed allowed (ih goesOn)

theorem single {g next : Stage} {s : Shift σ} {deed : Deed}
    (allowed : Allows crew settings s g deed next) :
    Goes crew settings g s [deed] next (deed.act crew settings s) := .deed allowed (.done ..)

/-- What every deed keeps, holds at the end. -/
theorem keeps {holds : Stage → Shift σ → Prop}
    (step : ∀ g s deed next, holds g s → Allows crew settings s g deed next →
      holds next (deed.act crew settings s))
    {g last : Stage} {s after : Shift σ} {deeds : List Deed}
    (goes : Goes crew settings g s deeds last after) (start : holds g s) : holds last after := by
  induction goes with
  | done => exact start
  | deed allowed goes ih => exact ih (step _ _ _ _ start allowed)

/-- What every deed keeps, given the deeds before it, holds at the end of them. -/
theorem keeps_past {holds : List Deed → Stage → Shift σ → Prop}
    (step : ∀ past g s deed next, holds past g s → Allows crew settings s g deed next →
      holds (past ++ [deed]) next (deed.act crew settings s))
    {g last : Stage} {s after : Shift σ} {deeds : List Deed}
    (goes : Goes crew settings g s deeds last after) (start : holds [] g s) :
    holds deeds last after := by
  suffices all : ∀ past, holds past g s → holds (past ++ deeds) last after from all [] start
  clear start
  induction goes with
  | done => exact fun past start => by rwa [List.append_nil]
  | deed allowed goes ih =>
    intro past start
    have := ih _ (step _ _ _ _ _ start allowed)
    rwa [List.append_assoc] at this

theorem split {g last : Stage} {s after : Shift σ} {before later : List Deed}
    (goes : Goes crew settings g s (before ++ later) last after) :
    ∃ between, Goes crew settings g s before between (Dispatch.replay crew settings before s) ∧
      Goes crew settings between (Dispatch.replay crew settings before s) later last after := by
  induction before generalizing g s with
  | nil => exact ⟨g, .done .., goes⟩
  | cons deed rest ih =>
    cases goes with
    | deed allowed goes =>
      obtain ⟨between, first, second⟩ := ih goes
      exact ⟨between, .deed allowed first, second⟩

end Goes

/-! ### Breaking off -/

/-- A deed that a run breaks off at, and with what error. -/
inductive Strikes (crew : Crew σ) (settings : DispatchSettings) (s : Shift σ) :
    Deed → DispatchError → Prop
  | task {index : Nat} {task : Task} {e : FileError}
    (refused : (crew.run task s.world).1 = .error e) :
    Strikes crew settings s (.run index task) (.task e)
  | wait {pool index : Nat} {task : Task}
    (silent : (crew.submit index task s.world).1 = .taken .silent)
    (long : longestWait.lt settings.timeout = true) :
    Strikes crew settings s (.submit pool index task) .tooLarge
  | memory {moment : String}
    (above : (crew.memory s.world).1.le settings.memoryThreshold = false)
    (unshown : (crew.memory s.world).1.percent? = none ∨
      settings.memoryThreshold.percent? = none) :
    Strikes crew settings s (.readMemory moment) .tooLarge

/-- What some deeds break off for: one of them, or a pause after them that is too long. -/
inductive Cause (crew : Crew σ) (settings : DispatchSettings) (s : Shift σ) (deeds : List Deed) :
    DispatchError → Prop
  | deed (before after : List Deed) {deed : Deed} {error : DispatchError}
    (split : deeds = before ++ deed :: after)
    (strikes : Strikes crew settings (replay crew settings before s) deed error) :
    Cause crew settings s deeds error
  | pause (rests : crew.rests = true) (long : longestWait.lt settings.pause = true) :
    Cause crew settings s deeds .tooLarge

theorem Cause.append {s : Shift σ} {first : List Deed} {error : DispatchError}
    (cause : Cause crew settings s first error) (second : List Deed) :
    Cause crew settings s (first ++ second) error := by
  cases cause with
  | deed before after split strikes =>
    exact .deed before (after ++ second) (by rw [split, List.append_assoc]; rfl) strikes
  | pause rests long => exact .pause rests long

theorem Cause.prepend {s : Shift σ} {first second : List Deed} {error : DispatchError}
    (cause : Cause crew settings (replay crew settings first s) second error) :
    Cause crew settings s (first ++ second) error := by
  cases cause with
  | deed before after split strikes =>
    refine .deed (first ++ before) after (by rw [split, List.append_assoc]) ?_
    rwa [replay_append]
  | pause rests long => exact .pause rests long

/-! ### Steps that keep to what is allowed -/

/-- A step whose deeds are allowed. It ends as `ends` tells or breaks off as `breaks` tells, and
then there is a cause for that. -/
def Performs {α : Type} (crew : Crew σ) (settings : DispatchSettings) (g : Stage) (s : Shift σ)
    (deeds : List Deed) (shift : α → Shift σ) (ends : α → Stage → Prop) (breaks : Stage → Prop) :
    Except (Broken σ) α → Prop
  | .ok a => ∃ last, Goes crew settings g s deeds last (shift a) ∧ ends a last
  | .error broken => ∃ last, Goes crew settings g s deeds last broken.shift ∧ breaks last ∧
      last.due.IsSettled ∧ Cause crew settings s deeds broken.error

namespace Performs
variable {α β : Type} {g : Stage} {s : Shift σ} {deeds : List Deed} {shift : α → Shift σ}
  {ends : α → Stage → Prop} {breaks : Stage → Prop}

theorem pure {a : α} (holds : ends a g) :
    Performs crew settings g (shift a) [] shift ends breaks (.ok a) := ⟨g, .done .., holds⟩

theorem mono {step : Except (Broken σ) α} {later : α → Stage → Prop} {stops : Stage → Prop}
    (performs : Performs crew settings g s deeds shift ends breaks step)
    (going : ∀ a last, ends a last → later a last) (breaking : ∀ last, breaks last → stops last) :
    Performs crew settings g s deeds shift later stops step := by
  cases step with
  | ok a =>
    obtain ⟨last, goes, holds⟩ := performs
    exact ⟨last, goes, going a last holds⟩
  | error broken =>
    obtain ⟨last, goes, holds, others⟩ := performs
    exact ⟨last, goes, breaking last holds, others⟩

theorem after {step : Except (Broken σ) α} {first : List Deed} {next : Stage}
    {between : Shift σ} (goes : Goes crew settings g s first next between)
    (performs : Performs crew settings next between deeds shift ends breaks step) :
    Performs crew settings g s (first ++ deeds) shift ends breaks step := by
  cases step with
  | ok a =>
    obtain ⟨last, goesOn, holds⟩ := performs
    exact ⟨last, goes.trans goesOn, holds⟩
  | error broken =>
    obtain ⟨last, goesOn, holds, settled, cause⟩ := performs
    refine ⟨last, goes.trans goesOn, holds, settled, Cause.prepend ?_⟩
    rwa [goes.replay]

theorem cons {step : Except (Broken σ) α} {deed : Deed} {next : Stage}
    (allowed : Allows crew settings s g deed next)
    (performs : Performs crew settings next (deed.act crew settings s) deeds shift ends breaks
      step) :
    Performs crew settings g s (deed :: deeds) shift ends breaks step :=
  performs.after (.single allowed)

theorem map {step : Except (Broken σ) α} {shiftAfter : β → Shift σ} {endsAfter : β → Stage → Prop}
    {f : α → β} (performs : Performs crew settings g s deeds shift ends breaks step)
    (same : ∀ a, shiftAfter (f a) = shift a)
    (going : ∀ a last, ends a last → endsAfter (f a) last) :
    Performs crew settings g s deeds shiftAfter endsAfter breaks
      (step >>= fun a => .ok (f a)) := by
  cases step with
  | ok a =>
    obtain ⟨last, goes, holds⟩ := performs
    exact ⟨last, same a ▸ goes, going a last holds⟩
  | error broken => exact performs

theorem andThen {middle : α → Stage → Prop} {step : Except (Broken σ) α} {shiftAfter : β → Shift σ}
    {endsAfter : β → Stage → Prop} {next : α → Except (Broken σ) β} {more : α → List Deed}
    (performs : Performs crew settings g s deeds shift middle breaks step)
    (goesOn : ∀ a last, step = .ok a → middle a last →
      Performs crew settings last (shift a) (more a) shiftAfter endsAfter breaks (next a)) :
    Performs crew settings g s (Course.andThen deeds step more) shiftAfter endsAfter breaks
      (step >>= next) := by
  cases step with
  | ok a =>
    obtain ⟨last, goes, holds⟩ := performs
    exact (goesOn a last rfl holds).after goes
  | error broken =>
    have all : Course.andThen deeds (.error broken : Except (Broken σ) α) more = deeds :=
      List.append_nil _
    rw [all]
    exact performs

/-- Steps along a list: what holds with some items left, holds with none left at the end. -/
theorem along (holds : List α → Stage → Prop) {step : β → α → Except (Broken σ) β}
    {deeds : α → List Deed} {shift : β → Shift σ}
    (each : ∀ a rest b g, holds (a :: rest) g →
      Performs crew settings g (shift b) (deeds a) shift (fun _ => holds rest) breaks (step b a))
    (items : List α) (b : β) (g : Stage) (start : holds items g) :
    Performs crew settings g (shift b) (Course.along step deeds items b) shift
      (fun _ => holds []) breaks (items.foldlM step b) := by
  induction items generalizing b g with
  | nil => exact .pure start
  | cons a rest ih => exact (each a rest b g start).andThen fun b last _ => ih b last

end Performs
end SourceIndex.Dispatch
