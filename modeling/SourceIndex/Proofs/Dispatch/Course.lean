import SourceIndex.Dispatch.Process
/-!
# Courses

A run of a dispatcher is one deed after the other. The course of a run is the list of its deeds, up
to its end or to where it breaks off, and replaying a beginning of it gives the run as it stood at
that moment. So what is claimed of every moment of a run is said of the beginnings of its course.

The record of a run only grows, and each event in it comes from a deed of its kind.
-/

namespace SourceIndex.Dispatch
variable {σ : Type}

/-! ### Deeds -/

/-- What a dispatcher does. Tasks go by their numbers in the run, and pools by theirs. -/
inductive Deed
  | beginBatch
  /-- The memory in use is read; workers may be given up for it. -/
  | readMemory (moment : String)
  | pause
  /-- A pool is asked for; workers are given up if there is none. -/
  | openPool
  | submit (pool index : Nat) (task : Task)
  /-- A worker did the task. -/
  | accept (index : Nat) (task : Task)
  /-- No worker answered in time. -/
  | timeOut (index : Nat)
  /-- A failure of a worker is recorded; workers may be given up for it. -/
  | blame (index : Nat) (task : Task) (status : TaskStatus) (error : String)
  /-- The task is left to the program itself. -/
  | fallBack (index : Nat)
  /-- The task is run in the program itself. -/
  | run (index : Nat) (task : Task)
  | stop (pool : Nat)
  | close (pool : Nat)
  deriving DecidableEq

/-- How far a step has come, whether it breaks off or not. -/
def reached {α : Type} (shift : α → Shift σ) : Except (Broken σ) α → Shift σ
  | .ok a => shift a
  | .error broken => broken.shift

def Deed.act (crew : Crew σ) (settings : DispatchSettings) (s : Shift σ) : Deed → Shift σ
  | .beginBatch => s.count fun stats => { stats with batches := stats.batches + 1 }
  | .readMemory moment => reached id (checkMemory crew settings moment s)
  | .pause => s.record (.pause settings.pause)
  | .openPool => (Dispatch.openPool crew settings s).2
  | .submit pool index task =>
    ({ s with world := (crew.submit index task s.world).2 } : Shift σ).record (.submit pool index)
  | .accept _ _ => s.count fun stats => { stats with processed := stats.processed + 1 }
  | .timeOut _ => s.count fun stats => { stats with timeouts := stats.timeouts + 1 }
  | .blame _ task status error => recordFailure crew settings task status error s
  | .fallBack _ => s.count fun stats => { stats with fallbacks := stats.fallbacks + 1 }
  | .run _ task => reached (·.2) (runInline crew task s)
  | .stop pool => stopPool crew pool s
  | .close pool => closePool (some pool) s

def replay (crew : Crew σ) (settings : DispatchSettings) (deeds : List Deed) (s : Shift σ) :
    Shift σ :=
  deeds.foldl (Deed.act crew settings) s

theorem replay_append (crew : Crew σ) (settings : DispatchSettings) (first second : List Deed)
    (s : Shift σ) :
    replay crew settings (first ++ second) s =
      replay crew settings second (replay crew settings first s) := List.foldl_append ..

def gather {α : Type} (crew : Crew σ) (settings : DispatchSettings)
    (what : Shift σ → Deed → List α) : List Deed → Shift σ → List α
  | [], _ => []
  | deed :: rest, s => what s deed ++ gather crew settings what rest (deed.act crew settings s)

theorem gather_append_single {α : Type} (crew : Crew σ) (settings : DispatchSettings)
    (what : Shift σ → Deed → List α) (deeds : List Deed) (deed : Deed) (s : Shift σ) :
    gather crew settings what (deeds ++ [deed]) s =
      gather crew settings what deeds s ++ what (replay crew settings deeds s) deed := by
  induction deeds generalizing s with
  | nil => exact List.append_nil _
  | cons first rest ih =>
    rw [List.cons_append, gather, ih, ← List.append_assoc]
    rfl

/-! ### Courses of waves -/

namespace Course

/-- The deeds of a step, and those of the next one unless it breaks off. -/
def andThen {ε α : Type} (deeds : List Deed) (step : Except ε α) (next : α → List Deed) :
    List Deed :=
  deeds ++ match step with
    | .ok a => next a
    | .error _ => []

def along {ε α β : Type} (step : β → α → Except ε β) (deeds : α → List Deed) :
    List α → β → List Deed
  | [], _ => []
  | a :: rest, b => andThen (deeds a) (step b a) (along step deeds rest)

def fallBack (index : Nat) (task : Task) : List Deed := [.fallBack index, .run index task]

def retry (index : Nat) (task : Task) (status : TaskStatus) (error : String) : List Deed :=
  .blame index task status error :: fallBack index task

def submitAll (crew : Crew σ) (settings : DispatchSettings) (pool : Nat) :
    List Numbered → Wave σ → List Deed
  | [], _ => []
  | (index, task) :: rest, w =>
    let (submission, world) := crew.submit index task w.shift.world
    let w := { w with
      shift := ({ w.shift with world } : Shift σ).record (.submit pool index) }
    .submit pool index task ::
      match submission with
      | .taken _ => submitAll crew settings pool rest w
      | .refused fatal reason =>
        andThen (retry index task .failed ("submit failed: " ++ reason))
          (w.retry crew settings index task .failed ("submit failed: " ++ reason))
          fun w => submitAll crew settings pool rest { w with healthy := w.healthy && !fatal }

def takeAnswer (a : Assigned) : List Deed :=
  match a.reply with
  | .silent => []
  | .crashed _ reason => retry a.index a.task .failed ("worker error: " ++ reason)
  | .answered outcome =>
    if outcome.status = .succeeded then [.accept a.index a.task]
    else retry a.index a.task outcome.status (errorText outcome.error)

def takeTimeout (settings : DispatchSettings) (a : Assigned) : List Deed :=
  .timeOut a.index ::
    retry a.index a.task .timedOut ("no result within " ++ settings.timeout.text ++ "s")

def takeReplies (crew : Crew σ) (settings : DispatchSettings) (pool : Nat) (taken : List Assigned)
    (w : Wave σ) : List Deed :=
  let answered := crew.arrange (taken.filter Assigned.isDone)
  andThen (along (Dispatch.takeAnswer crew settings) takeAnswer answered w)
    (answered.foldlM (Dispatch.takeAnswer crew settings) w) fun w =>
      match taken.filter fun a => !Assigned.isDone a with
      | [] => []
      | late =>
        .stop pool :: along (Dispatch.takeTimeout crew settings) (takeTimeout settings) late
          { w with shift := stopPool crew pool w.shift }

def runWave (crew : Crew σ) (settings : DispatchSettings) (pool : Nat) (tasks : List Numbered)
    (s : Shift σ) : List Deed :=
  andThen (submitAll crew settings pool tasks ⟨[], true, s⟩)
    (Dispatch.submitAll crew settings pool tasks ⟨[], true, s⟩) fun (taken, w) =>
      if waitsTooLong settings taken then [] else takeReplies crew settings pool taken w

def fallBackAll (crew : Crew σ) : List Numbered → Shift σ → List Deed
  | [], _ => []
  | (index, task) :: rest, s =>
    andThen (fallBack index task) (Dispatch.fallBack crew task s) fun (_, s) =>
      fallBackAll crew rest s

def replacePool (crew : Crew σ) (pool : Nat) (s : Shift σ) : List Deed :=
  .stop pool :: if (stopPool crew pool s).stats.mode = .concurrent then [.openPool] else []

def runAnywhere (crew : Crew σ) (settings : DispatchSettings) (tasks : List Numbered)
    (pool : Option Nat) (s : Shift σ) : List Deed :=
  match pool, s.stats.mode with
  | some number, .concurrent =>
    andThen (runWave crew settings number tasks s) (Dispatch.runWave crew settings number tasks s)
      fun ((_, healthy), s) => if healthy then [] else replacePool crew number s
  | _, _ => fallBackAll crew tasks s

def closePool : Option Nat → List Deed
  | some pool => [.close pool]
  | none => []

def runWaves (crew : Crew σ) (settings : DispatchSettings) :
    List (List Numbered) → Option Nat → Shift σ → List Deed
  | [], _, _ => []
  | tasks :: rest, pool, s =>
    runAnywhere crew settings tasks pool s ++
      match Dispatch.runAnywhere crew settings tasks pool s with
      | .error _ => closePool pool
      | .ok ((_, pool), s) => runWaves crew settings rest pool s

/-! ### Courses of batches -/

def runBatch (crew : Crew σ) (settings : DispatchSettings) (tasks : List Numbered) (s : Shift σ) :
    List Deed :=
  let (pool, s) := openPool crew settings s
  .openPool ::
    match groups? settings.maxWorkers tasks with
    | none => closePool pool
    | some waves =>
      andThen (runWaves crew settings waves pool s) (Dispatch.runWaves crew settings waves pool s)
        fun ((_, pool), _) => closePool pool

def runAllInline (crew : Crew σ) : List Numbered → Shift σ → List Deed
  | [], _ => []
  | (index, task) :: rest, s =>
    andThen [.run index task] (runInline crew task s) fun (_, s) => runAllInline crew rest s

def runInMode (crew : Crew σ) (settings : DispatchSettings) (tasks : List Numbered)
    (s : Shift σ) : List Deed :=
  let s := s.count fun stats => { stats with batches := stats.batches + 1 }
  .beginBatch ::
    if s.stats.mode = .concurrent then
      andThen [.readMemory "before batch"] (checkMemory crew settings "before batch" s) fun s =>
        if s.stats.mode = .concurrent then
          andThen (runBatch crew settings tasks s) (Dispatch.runBatch crew settings tasks s)
            fun _ => [.readMemory "after batch"]
        else runAllInline crew tasks s
    else runAllInline crew tasks s

def pauseBetween (crew : Crew σ) (settings : DispatchSettings) : List Deed :=
  if !(Number.whole 0).lt settings.pause then []
  else if crew.rests && longestWait.lt settings.pause then [] else [.pause]

def runBatches (crew : Crew σ) (settings : DispatchSettings) (first : Bool) :
    List (List Numbered) → Shift σ → List Deed
  | [], _ => []
  | tasks :: rest, s =>
    andThen (if first then [] else pauseBetween crew settings)
      (if first then .ok s else Dispatch.pauseBetween crew settings s) fun s =>
        andThen (runInMode crew settings tasks s) (Dispatch.runInMode crew settings tasks s)
          fun (_, s) => runBatches crew settings false rest s

def process (crew : Crew σ) (settings : DispatchSettings) (tasks : List Task) (pools : Nat)
    (world : σ) : List Deed :=
  match groups? settings.batchSize (number 0 tasks) with
  | none => []
  | some batches => runBatches crew settings true batches (start settings pools world)

end Course

/-! ### What a deed leaves in the record -/

def Deed.Records : Deed → Event → Prop
  | .readMemory _, .memory _ => True
  | .readMemory _, .collect => True
  | .pause, .pause _ => True
  | .openPool, .pool _ _ => True
  | .submit pool index _, .submit number other => number = pool ∧ other = index
  | .stop pool, .terminate number _ => number = pool
  | .stop pool, .shutdown number _ => number = pool
  | .close pool, .shutdown number _ => number = pool
  | _, _ => False

/-- A run that goes on from `s`: it asked for no fewer pools, and has more events of some kind. -/
structure Shift.Extends (s : Shift σ) (kind : Event → Prop) (after : Shift σ) : Prop where
  pools : s.pools ≤ after.pools
  events : ∃ more, after.events = s.events ++ more ∧ ∀ e ∈ more, kind e

namespace Shift.Extends
variable {s between after : Shift σ} {kind other : Event → Prop}

theorem quiet (pools : after.pools = s.pools) (events : after.events = s.events) :
    s.Extends kind after :=
  ⟨Nat.le_of_eq pools.symm, [], by rw [events, List.append_nil], fun e member => by cases member⟩

theorem trans (first : s.Extends kind between) (second : between.Extends other after) :
    s.Extends (fun e => kind e ∨ other e) after := by
  obtain ⟨some, here, own⟩ := first.events
  obtain ⟨more, later, others⟩ := second.events
  refine ⟨Nat.le_trans first.pools second.pools, some ++ more, ?_, fun e member => ?_⟩
  · rw [later, here, List.append_assoc]
  · exact (List.mem_append.mp member).imp (own e) (others e)

theorem mono (extends_ : s.Extends kind after) (sub : ∀ e, kind e → other e) :
    s.Extends other after := by
  obtain ⟨pools, more, events, kinds⟩ := extends_
  exact ⟨pools, more, events, fun e member => sub e (kinds e member)⟩

end Shift.Extends

theorem downgrade_quiet (crew : Crew σ) (reason : String) (s : Shift σ) :
    (downgrade crew reason s).pools = s.pools ∧ (downgrade crew reason s).events = s.events := by
  unfold downgrade
  split <;> exact ⟨rfl, rfl⟩

theorem recordFailure_quiet (crew : Crew σ) (settings : DispatchSettings) (task : Task)
    (status : TaskStatus) (error : String) (s : Shift σ) :
    (recordFailure crew settings task status error s).pools = s.pools ∧
      (recordFailure crew settings task status error s).events = s.events := by
  unfold recordFailure
  simp only
  split
  · exact downgrade_quiet ..
  · exact ⟨rfl, rfl⟩

theorem runInline_quiet (crew : Crew σ) (task : Task) (s : Shift σ) :
    (reached (·.2) (runInline crew task s)).pools = s.pools ∧
      (reached (·.2) (runInline crew task s)).events = s.events := by
  unfold runInline
  rcases crew.run task s.world with ⟨_ | outcome, world⟩ <;> exact ⟨rfl, rfl⟩

theorem checkMemory_extends (crew : Crew σ) (settings : DispatchSettings) (moment : String)
    (s : Shift σ) :
    s.Extends (Deed.readMemory moment).Records
      (reached id (checkMemory crew settings moment s)) := by
  rcases read : crew.memory s.world with ⟨share, world⟩
  unfold checkMemory
  simp only [read]
  split
  · exact ⟨Nat.le_refl _, [.memory share], rfl, by simp [Deed.Records]⟩
  · split
    · refine ⟨?_, [.memory share, .collect], ?_, by simp [Deed.Records]⟩
      · change s.pools ≤ (downgrade ..).pools
        rw [(downgrade_quiet ..).1]
        exact Nat.le_refl _
      · change (downgrade ..).events ++ [.collect] = _
        rw [(downgrade_quiet ..).2]
        exact List.append_assoc ..
    · exact ⟨Nat.le_refl _, [.memory share], rfl, by simp [Deed.Records]⟩

theorem openPool_pools (crew : Crew σ) (settings : DispatchSettings) (s : Shift σ) :
    (openPool crew settings s).2.pools = s.pools + 1 ∧
      (openPool crew settings s).2.events = s.events ++ [.pool s.pools settings.maxWorkers] ∧
      ∀ number, (openPool crew settings s).1 = some number → number = s.pools := by
  unfold openPool
  rcases crew.openPool settings.maxWorkers s.world with ⟨_ | reason, world⟩
  · exact ⟨rfl, rfl, fun number same => (Option.some.inj same).symm⟩
  · obtain ⟨pools, events⟩ := downgrade_quiet crew _ (Shift.tell crew (Shift.record
      { s with world, pools := s.pools + 1 } (.pool s.pools settings.maxWorkers)) _)
    exact ⟨pools, events, fun number none => by cases none⟩

theorem records_of_mem_terminations {pool process : Nat} {alive : List Bool} {e : Event}
    (member : e ∈ terminations pool process alive) : (Deed.stop pool).Records e := by
  induction alive generalizing process with
  | nil => cases member
  | cons living rest ih =>
    cases living with
    | true =>
      rcases List.mem_cons.mp member with rfl | later
      · exact rfl
      · exact ih later
    | false => exact ih member

theorem act_extends (crew : Crew σ) (settings : DispatchSettings) (s : Shift σ) (deed : Deed) :
    s.Extends deed.Records (deed.act crew settings s) := by
  cases deed with
  | readMemory moment => exact checkMemory_extends crew settings moment s
  | pause => exact ⟨Nat.le_refl _, _, rfl, by simp [Deed.Records]⟩
  | openPool =>
    obtain ⟨pools, events, -⟩ := openPool_pools crew settings s
    exact ⟨pools ▸ Nat.le_succ _, _, events, by simp [Deed.Records]⟩
  | submit pool index task => exact ⟨Nat.le_refl _, _, rfl, by simp [Deed.Records]⟩
  | blame index task status error =>
    obtain ⟨pools, events⟩ := recordFailure_quiet crew settings task status error s
    exact .quiet pools events
  | run index task =>
    obtain ⟨pools, events⟩ := runInline_quiet crew task s
    exact .quiet pools events
  | stop pool =>
    refine ⟨Nat.le_refl _, terminations pool 0 crew.alive ++ [.shutdown pool false],
      by simp [Deed.act, stopPool], fun e member => ?_⟩
    rcases List.mem_append.mp member with terminated | last
    · exact records_of_mem_terminations terminated
    · cases List.mem_singleton.mp last
      exact rfl
  | close pool => exact ⟨Nat.le_refl _, _, rfl, by simp [Deed.Records]⟩
  | _ => exact .quiet rfl rfl

theorem replay_extends (crew : Crew σ) (settings : DispatchSettings) (deeds : List Deed)
    (s : Shift σ) :
    s.Extends (fun e => ∃ deed ∈ deeds, deed.Records e) (replay crew settings deeds s) := by
  induction deeds generalizing s with
  | nil => exact .quiet rfl rfl
  | cons deed rest ih =>
    refine ((act_extends crew settings s deed).trans (ih _)).mono ?_
    rintro e (here | ⟨other, among, records⟩)
    · exact ⟨deed, List.mem_cons_self .., here⟩
    · exact ⟨other, List.mem_cons_of_mem _ among, records⟩

end SourceIndex.Dispatch
