import SourceIndex.Proofs.Dispatch.Groups
import SourceIndex.Proofs.Dispatch.Replay
import SourceIndex.Proofs.Except
/-!
# Conduct

The functions of a dispatcher keep to what is allowed, one lemma for each in the order in which
they call each other. So do whole runs: they end with no pool open, and if nothing breaks them off
with no task and no batch left.
-/

namespace SourceIndex.Dispatch
variable {σ : Type} {crew : Crew σ} {settings : DispatchSettings}

/-- A run with this pool, open or not, between two failures. -/
structure Stage.At (g : Stage) (pool : Option Nat) (isOpen : Bool) (todo : Multiset Numbered)
    (batches : Nat) : Prop where
  pool : g.pool = pool
  isOpen : g.isOpen = isOpen
  todo : g.todo = todo
  batches : g.batches = batches
  idle : g.due = .nothing

section
variable {g : Stage} {pool : Option Nat} {isOpen : Bool} {others : Multiset Numbered}
  {batches : Nat}

theorem Stage.At.ended
    (here : g.At pool isOpen (↑([] : List Numbered) + others) batches) :
    g.At pool isOpen others batches := by
  rwa [Multiset.coe_nil, Multiset.zero_add] at here

theorem Stage.At.todo_cons {t : Numbered} {rest : List Numbered}
    (here : g.At pool isOpen (↑(t :: rest) + others) batches) :
    g.todo = t ::ₘ (↑rest + others) := by
  rw [here.todo, ← Multiset.cons_coe, Multiset.cons_add]

end

theorem Due.isSettled_nothing : Due.nothing.IsSettled := by simp [Due.IsSettled]

/-! ### Single tasks -/

theorem runInline_performs {g : Stage} {rest : Multiset Numbered} {index : Nat} {task : Task}
    (ready : g.due = .nothing ∨ g.due = .fallen index) (todo : g.todo = (index, task) ::ₘ rest)
    (s : Shift σ) :
    Performs crew settings g s [.run index task] (·.2)
      (fun _ last => last = { g with todo := rest, due := .nothing }) (· = g)
      (runInline crew task s) := by
  have act : (Deed.run index task).act crew settings s =
    reached (·.2) (runInline crew task s) := rfl
  rcases result : crew.run task s.world with ⟨answer, world⟩
  cases answer with
  | ok outcome =>
    have step : runInline crew task s =
        .ok (outcome, ({ s with world } : Shift σ).countOutcome outcome) := by
      simp only [runInline, result]
    have goes : Goes crew settings g s [.run index task] _ _ :=
      .single (.run index task rest outcome ready todo (by rw [result]))
    rw [act, step] at goes
    rw [step]
    exact ⟨_, goes, rfl⟩
  | error e =>
    have step : runInline crew task s = .error ⟨.task e, { s with world }⟩ := by
      simp only [runInline, result]
    have refused : (crew.run task s.world).1 = .error e := by rw [result]
    have goes : Goes crew settings g s [.run index task] _ _ :=
      .single (.refuse index task e refused)
    rw [act, step] at goes
    rw [step]
    refine ⟨g, goes, rfl, ?_, .deed [] [] rfl (.task refused)⟩
    rcases ready with idle | fallen
    · exact idle ▸ Due.isSettled_nothing
    · simp [fallen, Due.IsSettled]

theorem fallBack_performs {g : Stage} {rest : Multiset Numbered} {index : Nat} {task : Task}
    (ready : g.due = .nothing ∨ g.due = .blamed index) (todo : g.todo = (index, task) ::ₘ rest)
    (s : Shift σ) :
    Performs crew settings g s (Course.fallBack index task) (·.2)
      (fun _ last => last = { g with todo := rest, due := .nothing })
      (fun last => last.pool = g.pool ∧ last.isOpen = g.isOpen) (fallBack crew task s) := by
  have among : ∃ task, (index, task) ∈ g.todo := ⟨task, todo ▸ Multiset.mem_cons_self ..⟩
  refine .cons (.fallBack index ready among) ((runInline_performs
    (g := { g with due := .fallen index }) (.inr rfl) todo _).mono ?_ ?_)
  · exact fun _ _ same => same
  · rintro last rfl
    exact ⟨rfl, rfl⟩

theorem retry_performs {g : Stage} {rest : Multiset Numbered} {index left : Nat} {task : Task}
    (ready : g.due = .nothing ∨ g.due = .late index) (todo : g.todo = (index, task) ::ₘ rest)
    (slack : g.slack = left + 1) (status : TaskStatus) (error : String) (w : Wave σ) :
    Performs crew settings g w.shift (Course.retry index task status error) (·.shift)
      (fun _ last => last = { g with todo := rest, due := .nothing, slack := left })
      (fun last => last.pool = g.pool) (w.retry crew settings index task status error) := by
  refine .cons (.blame index task status error left ready slack) (.map
    ((fallBack_performs (g := { g with due := .blamed index, slack := left }) (.inr rfl) todo
      _).mono (fun _ _ same => same) ?_) (fun _ => rfl) ?_)
  · exact fun last same => same.1
  · rintro _ last rfl
    rfl

/-! ### Waves -/

/-- A wave with room for so many failures can begin yet, or is the one under way. -/
theorem Stage.exists_slack {mode : DispatchMode} {wave : Nat × Nat} {count : Nat} {g : Stage}
    (room : mode = .concurrent ∧ count ≤ settings.maxWorkers.toNat ∨
      g.wave = some wave ∧ count ≤ g.slack) :
    ∃ slack, (mode = .concurrent ∧ slack = settings.maxWorkers.toNat ∨
      g.wave = some wave ∧ slack = g.slack) ∧ count ≤ slack := by
  obtain ⟨concurrent, enough⟩ | ⟨here, enough⟩ := room
  · exact ⟨_, .inl ⟨concurrent, rfl⟩, enough⟩
  · exact ⟨_, .inr ⟨here, rfl⟩, enough⟩

theorem Stage.At.handed {pool : Nat} {t : Numbered} {rest : List Numbered}
    {others : Multiset Numbered} {batches slack : Nat} {wave : Nat × Nat} {g : Stage}
    (here : g.At (some pool) true (↑(t :: rest) + others) batches) :
    Stage.At { g with wave := some wave, slack } (some pool) true (↑rest + t ::ₘ others) batches :=
  ⟨here.pool, here.isOpen, by rw [here.todo_cons, Multiset.add_cons], here.batches, here.idle⟩

theorem Stage.At.taken {pool : Nat} {a : Assigned} {taken : List Assigned}
    {others : Multiset Numbered} {batches : Nat} {g : Stage}
    (here : g.At (some pool) true (↑(taken.map Assigned.numbered) + Assigned.numbered a ::ₘ others)
      batches) :
    g.At (some pool) true (↑((a :: taken).map Assigned.numbered) + others) batches := by
  refine ⟨here.pool, here.isOpen, ?_, here.batches, here.idle⟩
  rw [here.todo, List.map_cons, ← Multiset.cons_coe, Multiset.cons_add, Multiset.add_cons]

theorem submitAll_performs {pool : Nat} {wave : Nat × Nat} {others : Multiset Numbered}
    {batches : Nat} (tasks : List Numbered) (same : ∀ t ∈ tasks, waveOf settings t.1 = wave)
    (extra : Nat) (w : Wave σ) (g : Stage)
    (begins : g.At (some pool) true (↑tasks + others) batches)
    (room : tasks ≠ [] ∧ w.shift.stats.mode = .concurrent ∧
        tasks.length + extra ≤ settings.maxWorkers.toNat ∨
      g.wave = some wave ∧ tasks.length + extra ≤ g.slack) :
    Performs crew settings g w.shift (Course.submitAll crew settings pool tasks w)
      (fun found => found.2.shift)
      (fun (taken, _) last =>
        last.At (some pool) true (↑(taken.map Assigned.numbered) + others) batches ∧
          taken.length + extra ≤ last.slack)
      (fun last => last.pool = some pool) (submitAll crew settings pool tasks w) := by
  -- The first task that is handed over begins the wave, which then has room for the others.
  induction tasks generalizing others extra w g with
  | nil =>
    obtain ⟨none, -⟩ | ⟨-, enough⟩ := room
    · exact (none rfl).elim
    · exact ⟨g, .done .., begins, enough⟩
  | cons t rest ih =>
    obtain ⟨index, task⟩ := t
    have others' : ∀ t ∈ rest, waveOf settings t.1 = wave :=
      fun t among => same t (List.mem_cons_of_mem _ among)
    have here : waveOf settings index = wave := same _ (List.mem_cons_self ..)
    obtain ⟨slack, source, enough⟩ := Stage.exists_slack (here ▸ room.imp_left And.right)
    rw [List.length_cons] at enough
    rcases answer : crew.submit index task w.shift.world with ⟨submission, world⟩
    unfold Course.submitAll submitAll
    simp only [answer]
    refine .cons (.submit pool index task slack begins.pool begins.isOpen source) ?_
    rw [act_submit answer]
    cases submission with
    | taken reply =>
      refine .map (ih others' (extra + 1) _ _ begins.handed ?_) (fun _ => rfl) ?_
      · exact .inr ⟨congrArg some here, show rest.length + (extra + 1) ≤ slack by omega⟩
      · rintro ⟨taken, after⟩ last ⟨ends, left⟩
        refine ⟨.taken (a := ⟨index, task, reply⟩) ends, ?_⟩
        simp only [List.length_cons]
        omega
    | refused fatal reason =>
      obtain ⟨left, more⟩ : ∃ left, slack = left + 1 := ⟨slack - 1, by omega⟩
      refine .andThen ((retry_performs
        (g := { g with wave := some (waveOf settings index), slack }) (.inl begins.idle)
        begins.todo_cons more .failed ("submit failed: " ++ reason) { w with
          shift := ({ w.shift with world } : Shift σ).record (.submit pool index) }).mono
        (fun _ _ same => same) ?_) ?_
      · exact fun last same => same.trans begins.pool
      · rintro after last - rfl
        refine ih others' extra { after with healthy := after.healthy && !fatal } _ ?_ ?_
        · exact ⟨begins.pool, begins.isOpen, rfl, begins.batches, rfl⟩
        · exact .inr ⟨congrArg some here, show rest.length + extra ≤ left by omega⟩

/-! ### Answers -/

section Answers
variable {a : Assigned} {items rest : List Assigned} {pool : Nat} {isOpen : Bool}
  {others : Multiset Numbered} {batches extra : Nat} {g : Stage}

/-- A run that takes the answers for some tasks, with `extra` failures to come after them. -/
structure Stage.Awaits (items : List Assigned) (pool : Nat) (isOpen : Bool)
    (others : Multiset Numbered) (batches extra : Nat) (g : Stage) : Prop where
  here : g.At (some pool) isOpen (↑(items.map Assigned.numbered) + others) batches
  room : items.length + extra ≤ g.slack

theorem Stage.Awaits.todo (awaits : Stage.Awaits (a :: rest) pool isOpen others batches extra g) :
    g.todo = (a.index, a.task) ::ₘ (↑(rest.map Assigned.numbered) + others) :=
  awaits.here.todo_cons

theorem Stage.Awaits.ended (awaits : Stage.Awaits [] pool isOpen others batches extra g) :
    g.At (some pool) isOpen others batches ∧ extra ≤ g.slack :=
  ⟨awaits.here.ended, by simpa using awaits.room⟩

theorem retry_performs_of_awaits
    (awaits : Stage.Awaits (a :: rest) pool isOpen others batches extra g) (due : Due)
    (ready : due = .nothing ∨ due = .late a.index) (status : TaskStatus) (error : String)
    (w : Wave σ) :
    Performs crew settings { g with due } w.shift (Course.retry a.index a.task status error)
      (·.shift) (fun _ => Stage.Awaits rest pool isOpen others batches extra)
      (fun last => last.pool = some pool) (w.retry crew settings a.index a.task status error) := by
  have room : rest.length + 1 + extra ≤ g.slack := awaits.room
  obtain ⟨left, slack⟩ : ∃ left, g.slack = left + 1 := ⟨g.slack - 1, by omega⟩
  refine (retry_performs (g := { g with due }) ready awaits.todo slack status error w).mono ?_ ?_
  · rintro after last rfl
    exact ⟨⟨awaits.here.pool, awaits.here.isOpen, rfl, awaits.here.batches, rfl⟩,
      show rest.length + extra ≤ left by omega⟩
  · exact fun last same => same.trans awaits.here.pool

theorem takeAnswer_performs (done : Assigned.isDone a = true) (w : Wave σ)
    (awaits : Stage.Awaits (a :: rest) pool isOpen others batches extra g) :
    Performs crew settings g w.shift (Course.takeAnswer a) (·.shift)
      (fun _ => Stage.Awaits rest pool isOpen others batches extra)
      (fun last => last.pool = some pool) (takeAnswer crew settings w a) := by
  have idle : { g with due := .nothing } = g := by rw [← awaits.here.idle]
  have retries (status : TaskStatus) (error : String) (w : Wave σ) :
      Performs crew settings g w.shift (Course.retry a.index a.task status error) (·.shift)
        (fun _ => Stage.Awaits rest pool isOpen others batches extra)
        (fun last => last.pool = some pool)
        (w.retry crew settings a.index a.task status error) :=
    idle ▸ retry_performs_of_awaits awaits .nothing (.inl rfl) status error w
  unfold Course.takeAnswer takeAnswer
  cases reply : a.reply with
  | silent => exact absurd reply (isDone_iff.mp done)
  | crashed poolBroken reason => exact retries _ _ { w with healthy := w.healthy && !poolBroken }
  | answered outcome =>
    simp only
    by_cases success : outcome.status = .succeeded
    · rw [if_pos success, if_pos success]
      have room : rest.length + 1 + extra ≤ g.slack := awaits.room
      refine ⟨_, .single (.accept a.index a.task _ awaits.here.idle awaits.todo), ?_, ?_⟩
      · exact ⟨awaits.here.pool, awaits.here.isOpen, rfl, awaits.here.batches, awaits.here.idle⟩
      · exact show rest.length + extra ≤ g.slack by omega
    · rw [if_neg success, if_neg success]
      exact retries _ _ w

theorem takeTimeout_performs (w : Wave σ)
    (awaits : Stage.Awaits (a :: rest) pool isOpen others batches extra g) :
    Performs crew settings g w.shift (Course.takeTimeout settings a) (·.shift)
      (fun _ => Stage.Awaits rest pool isOpen others batches extra)
      (fun last => last.pool = some pool) (takeTimeout crew settings w a) :=
  .cons (.timeOut a.index awaits.here.idle)
    (retry_performs_of_awaits awaits (.late a.index) (.inr rfl) .timedOut _
      { w with shift := w.shift.count fun stats => { stats with timeouts := stats.timeouts + 1 } })

theorem takeAnswers_performs (done : ∀ a ∈ items, Assigned.isDone a = true) (w : Wave σ)
    (awaits : Stage.Awaits items pool isOpen others batches extra g) :
    Performs crew settings g w.shift
      (Course.along (takeAnswer crew settings) Course.takeAnswer items w) (·.shift)
      (fun _ last => last.At (some pool) isOpen others batches ∧ extra ≤ last.slack)
      (fun last => last.pool = some pool) (items.foldlM (takeAnswer crew settings) w) :=
  (Performs.along
    (fun items g => Stage.Awaits items pool isOpen others batches extra g ∧
      ∀ a ∈ items, Assigned.isDone a = true)
    (fun a _ w _ holds =>
      (takeAnswer_performs (holds.2 a (List.mem_cons_self ..)) w holds.1).mono
        (fun _ _ after => ⟨after, fun a member => holds.2 a (List.mem_cons_of_mem _ member)⟩)
        (fun _ same => same))
    items w g ⟨awaits, done⟩).mono (fun _ _ after => after.1.ended) (fun _ same => same)

theorem takeTimeouts_performs (w : Wave σ)
    (awaits : Stage.Awaits items pool isOpen others batches extra g) :
    Performs crew settings g w.shift
      (Course.along (takeTimeout crew settings) (Course.takeTimeout settings) items w) (·.shift)
      (fun _ last => last.At (some pool) isOpen others batches ∧ extra ≤ last.slack)
      (fun last => last.pool = some pool) (items.foldlM (takeTimeout crew settings) w) :=
  (Performs.along
    (fun items g => Stage.Awaits items pool isOpen others batches extra g)
    (fun _ _ w _ awaits => takeTimeout_performs w awaits) items w g awaits).mono
    (fun _ _ after => after.ended) (fun _ same => same)

/-- The answers that came in time are awaited first, and then those that did not. -/
theorem Stage.Awaits.arranged (arranges : ∀ taken, (crew.arrange taken).Perm taken)
    (awaits : Stage.Awaits items pool isOpen others batches 0 g) :
    let late := items.filter fun a => !Assigned.isDone a
    Stage.Awaits (crew.arrange (items.filter Assigned.isDone)) pool isOpen
      (↑(late.map Assigned.numbered) + others) batches late.length g := by
  intro late
  have all : (crew.arrange (items.filter Assigned.isDone) ++ late).Perm items :=
    ((arranges _).append_right late).trans (List.filter_append_perm _ items)
  refine ⟨⟨awaits.here.pool, awaits.here.isOpen, ?_, awaits.here.batches, awaits.here.idle⟩, ?_⟩
  · rw [awaits.here.todo, ← Multiset.add_assoc, Multiset.coe_add, ← List.map_append,
      Multiset.coe_eq_coe.mpr (all.map _)]
  · rw [← List.length_append, all.length_eq]
    exact awaits.room

theorem takeReplies_performs (arranges : ∀ taken, (crew.arrange taken).Perm taken) (w : Wave σ)
    (awaits : Stage.Awaits items pool true others batches 0 g) :
    Performs crew settings g w.shift (Course.takeReplies crew settings pool items w) (·.shift)
      (fun after last => ∃ isOpen, last.At (some pool) isOpen others batches ∧
        (after.healthy = true → isOpen = true))
      (fun last => last.pool = some pool) (takeReplies crew settings pool items w) := by
  have done : ∀ a ∈ crew.arrange (items.filter Assigned.isDone), Assigned.isDone a = true :=
    fun a member => (List.mem_filter.mp ((arranges _).mem_iff.mp member)).2
  unfold Course.takeReplies takeReplies
  refine (takeAnswers_performs done w (awaits.arranged arranges)).andThen ?_
  rintro after last - ⟨here, room⟩
  cases late : items.filter fun a => !Assigned.isDone a with
  | nil =>
    rw [late] at here
    exact ⟨last, .done .., true, here.ended, fun _ => rfl⟩
  | cons first more =>
    rw [late] at here room
    have stopped : Stage.Awaits (first :: more) pool false others batches 0
        { last with isOpen := false } :=
      ⟨⟨here.pool, rfl, here.todo, here.batches, here.idle⟩, room⟩
    refine .cons (.stop pool here.pool) (.map (takeTimeouts_performs _ stopped) (fun _ => rfl) ?_)
    rintro after last ⟨ends, -⟩
    exact ⟨false, ends, fun healthy => by cases healthy⟩

end Answers

/-! ### Running waves -/

theorem replay_retry {index : Nat} {task : Task} {status : TaskStatus} {error : String}
    {w after : Wave σ} (step : w.retry crew settings index task status error = .ok after) :
    replay crew settings (Course.retry index task status error) w.shift = after.shift := by
  have replays : Replays crew settings w.shift (Course.retry index task status error) (·.shift)
      (w.retry crew settings index task status error) := retry_replays index task status error w
  rw [step] at replays
  exact replays

/-- A task is submitted and taken at some moment of a course. -/
def IsSubmitted (crew : Crew σ) (settings : DispatchSettings) (pool : Nat) (a : Assigned)
    (s : Shift σ) (course : List Deed) : Prop :=
  ∃ before later, course = before ++ .submit pool a.index a.task :: later ∧
    (crew.submit a.index a.task (replay crew settings before s).world).1 = .taken a.reply

theorem IsSubmitted.after {pool : Nat} {a : Assigned} {s next : Shift σ}
    {first course : List Deed} (leads : replay crew settings first s = next)
    (submitted : IsSubmitted crew settings pool a next course) :
    IsSubmitted crew settings pool a s (first ++ course) := by
  obtain ⟨before, later, split, answer⟩ := submitted
  refine ⟨first ++ before, later, by rw [split, List.append_assoc], ?_⟩
  rwa [replay_append, leads]

theorem isSubmitted_of_mem_taken {pool : Nat} {tasks : List Numbered} {w after : Wave σ}
    {taken : List Assigned} (step : submitAll crew settings pool tasks w = .ok (taken, after))
    {a : Assigned} (among : a ∈ taken) :
    IsSubmitted crew settings pool a w.shift (Course.submitAll crew settings pool tasks w) := by
  induction tasks generalizing w taken with
  | nil =>
    cases step
    cases among
  | cons t rest ih =>
    obtain ⟨index, task⟩ := t
    unfold submitAll at step
    unfold Course.submitAll
    rcases answer : crew.submit index task w.shift.world with ⟨submission, world⟩
    simp only [answer] at step ⊢
    have handed : replay crew settings [.submit pool index task] w.shift =
        ({ w.shift with world } : Shift σ).record (.submit pool index) := by
      rw [replay, List.foldl_cons, act_submit answer, List.foldl_nil]
    cases submission with
    | taken reply =>
      obtain ⟨⟨others, last⟩, next, same⟩ := bind_eq_ok_iff.mp step
      cases same
      rcases List.mem_cons.mp among with rfl | among
      · exact ⟨[], _, rfl, congrArg Prod.fst answer⟩
      · exact .after handed (ih next among)
    | refused fatal reason =>
      obtain ⟨next, retried, later⟩ := bind_eq_ok_iff.mp step
      simp only [retried]
      exact .after handed (.after (replay_retry retried) (ih later among))

theorem runWave_performs (arranges : ∀ taken, (crew.arrange taken).Perm taken) {pool : Nat}
    {wave : Nat × Nat} {others : Multiset Numbered} {batches : Nat} {tasks : List Numbered}
    (small : tasks.length ≤ settings.maxWorkers.toNat)
    (same : ∀ t ∈ tasks, waveOf settings t.1 = wave) {s : Shift σ}
    (concurrent : s.stats.mode = .concurrent) {g : Stage}
    (begins : g.At (some pool) true (↑tasks + others) batches) :
    Performs crew settings g s (Course.runWave crew settings pool tasks s) (·.2)
      (fun ((_, healthy), _) last => ∃ isOpen, last.At (some pool) isOpen others batches ∧
        (healthy = true → isOpen = true))
      (fun last => last.pool = some pool) (runWave crew settings pool tasks s) := by
  have submits : Performs crew settings g s
      (Course.submitAll crew settings pool tasks ⟨[], true, s⟩) (fun found => found.2.shift)
      (fun (taken, _) last => Stage.Awaits taken pool true others batches 0 last)
      (fun last => last.pool = some pool) (submitAll crew settings pool tasks ⟨[], true, s⟩) := by
    by_cases none : tasks = []
    · subst none
      exact ⟨g, .done .., begins, Nat.zero_le _⟩
    · refine (submitAll_performs tasks same 0 ⟨[], true, s⟩ g begins
        (.inl ⟨none, concurrent, small⟩)).mono ?_ (fun _ same => same)
      rintro ⟨taken, after⟩ last ⟨here, room⟩
      exact ⟨here, room⟩
  -- A wait that is too long breaks the run off before any answer is taken.
  by_cases long : ∃ taken after, submitAll crew settings pool tasks ⟨[], true, s⟩ =
    .ok (taken, after) ∧ waitsTooLong settings taken = true
  · obtain ⟨taken, after, step, waits⟩ := long
    have breaksOff : runWave crew settings pool tasks s = .error ⟨.tooLarge, after.shift⟩ := by
      unfold runWave
      rw [step]
      exact if_pos waits
    have course : Course.runWave crew settings pool tasks s =
        Course.submitAll crew settings pool tasks ⟨[], true, s⟩ := by
      unfold Course.runWave
      rw [step]
      simp only [Course.andThen, if_pos waits, List.append_nil]
    rw [step] at submits
    obtain ⟨last, goes, awaits⟩ := submits
    rw [breaksOff, course]
    refine ⟨last, goes, awaits.here.pool, awaits.here.idle ▸ Due.isSettled_nothing, ?_⟩
    simp only [waitsTooLong, Bool.and_eq_true, List.any_eq_true, Bool.not_eq_true'] at waits
    obtain ⟨long, a, among, undone⟩ := waits
    have silent : a.reply = .silent := by
      by_contra answers
      simp [isDone_iff.mpr answers] at undone
    obtain ⟨before, later, split, submitted⟩ := isSubmitted_of_mem_taken step among
    exact .deed before later split (.wait (submitted.trans (by rw [silent])) long)
  · unfold Course.runWave runWave
    refine submits.andThen ?_
    rintro ⟨taken, after⟩ last step awaits
    have short : ¬ waitsTooLong settings taken = true := fun waits =>
      long ⟨taken, after, step, waits⟩
    simp only [if_neg short]
    refine .map (takeReplies_performs arranges after awaits) (fun _ => rfl) ?_
    exact fun _ _ ends => ends

theorem fallBackAll_performs {pool : Option Nat} {isOpen : Bool} {others : Multiset Numbered}
    {batches : Nat} (tasks : List Numbered) (s : Shift σ) (g : Stage)
    (begins : g.At pool isOpen (↑tasks + others) batches) :
    Performs crew settings g s (Course.fallBackAll crew tasks s) (·.2)
      (fun _ last => last.At pool isOpen others batches)
      (fun last => last.pool = pool ∧ last.isOpen = isOpen) (fallBackAll crew tasks s) := by
  induction tasks generalizing s g with
  | nil => exact ⟨g, .done .., begins.ended⟩
  | cons t rest ih =>
    obtain ⟨index, task⟩ := t
    have todo := begins.todo_cons
    unfold Course.fallBackAll fallBackAll
    refine ((fallBack_performs (.inl begins.idle) todo s).mono (fun _ _ same => same) ?_).andThen ?_
    · exact fun last same => ⟨same.1.trans begins.pool, same.2.trans begins.isOpen⟩
    · rintro ⟨outcome, after⟩ last - rfl
      exact .map (ih after _ ⟨begins.pool, begins.isOpen, rfl, begins.batches, rfl⟩) (fun _ => rfl)
        (fun _ _ ends => ends)

/-- A run whose pool, if it has one, is the last one that was asked for; no other one is open. -/
structure Stage.Holds (pool : Option Nat) (g : Stage) : Prop where
  last : ∀ number, pool = some number → g.pool = some number
  closed : pool = none → g.isOpen = false

structure Stage.Between (pool : Option Nat) (todo : Multiset Numbered) (batches : Nat)
    (g : Stage) : Prop where
  here : g.At g.pool pool.isSome todo batches
  last : ∀ number, pool = some number → g.pool = some number

theorem openPool_goes (crew : Crew σ) (settings : DispatchSettings) {todo : Multiset Numbered}
    {batches : Nat} {pool : Option Nat} {g : Stage} {s : Shift σ}
    (here : g.At pool false todo batches) (concurrent : s.stats.mode = .concurrent) :
    ∃ last, Goes crew settings g s [.openPool] last (openPool crew settings s).2 ∧
      last.Between (openPool crew settings s).1 todo batches :=
  ⟨_, .single (.openPool here.isOpen concurrent), ⟨rfl, rfl, here.todo, here.batches, here.idle⟩,
    fun _ same => same⟩

theorem replacePool_goes {number : Nat} {isOpen : Bool} {todo : Multiset Numbered} {batches : Nat}
    {g : Stage} (here : g.At (some number) isOpen todo batches) (s : Shift σ) :
    ∃ last, Goes crew settings g s (Course.replacePool crew number s) last
        (replacePool crew settings number s).2 ∧
      last.Between (replacePool crew settings number s).1 todo batches := by
  have stop : Allows crew settings s g (.stop number) { g with isOpen := false } :=
    .stop number here.pool
  have stopped : Stage.At { g with isOpen := false } (some number) false todo batches :=
    ⟨here.pool, rfl, here.todo, here.batches, here.idle⟩
  unfold Course.replacePool replacePool
  by_cases still : (stopPool crew number s).stats.mode = .concurrent
  · simp only [if_pos still]
    obtain ⟨last, goes, ends⟩ := openPool_goes crew settings stopped still
    exact ⟨last, .deed stop goes, ends⟩
  · simp only [if_neg still]
    exact ⟨_, .single stop, ⟨rfl, rfl, here.todo, here.batches, here.idle⟩,
      fun _ none => by cases none⟩

theorem runAnywhere_performs (arranges : ∀ taken, (crew.arrange taken).Perm taken)
    {wave : Nat × Nat} {others : Multiset Numbered} {batches : Nat} {tasks : List Numbered}
    (small : tasks.length ≤ settings.maxWorkers.toNat)
    (same : ∀ t ∈ tasks, waveOf settings t.1 = wave) (pool : Option Nat) (s : Shift σ) {g : Stage}
    (begins : g.Between pool (↑tasks + others) batches) :
    Performs crew settings g s (Course.runAnywhere crew settings tasks pool s) (·.2)
      (fun ((_, pool), _) => Stage.Between pool others batches)
      (Stage.Holds pool) (runAnywhere crew settings tasks pool s) := by
  have inline : Performs crew settings g s (Course.fallBackAll crew tasks s) (·.2)
      (fun ((_, pool), _) => Stage.Between pool others batches) (Stage.Holds pool)
      (fallBackAll crew tasks s >>= fun found => .ok ((found.1, pool), found.2)) := by
    refine .map ((fallBackAll_performs tasks s g begins.here).mono (fun _ _ ends => ends) ?_)
      (fun _ => rfl) ?_
    · rintro last ⟨same, isOpen⟩
      exact ⟨fun number some => same.trans (begins.last number some),
        fun none => by rw [isOpen, none]; rfl⟩
    · rintro found last ends
      exact ⟨⟨rfl, ends.isOpen, ends.todo, ends.batches, ends.idle⟩,
        fun number some => ends.pool.trans (begins.last number some)⟩
  unfold Course.runAnywhere runAnywhere
  cases pool with
  | none => exact inline
  | some number =>
    cases mode : s.stats.mode with
    | sequential => exact inline
    | concurrent =>
      have here : g.At (some number) true (↑tasks + others) batches :=
        ⟨begins.last number rfl, begins.here.isOpen, begins.here.todo, begins.here.batches,
          begins.here.idle⟩
      simp only
      refine ((runWave_performs arranges small same mode here).mono (fun _ _ ends => ends)
        ?_).andThen ?_
      · rintro last same
        exact ⟨fun _ here => same.trans here, fun none => by cases none⟩
      · rintro ⟨⟨outcomes, healthy⟩, s⟩ last - ⟨isOpen, ends, good⟩
        cases healthy with
        | true =>
          exact ⟨last, .done .., ⟨rfl, ends.isOpen.trans (good rfl), ends.todo, ends.batches,
            ends.idle⟩, fun _ here => ends.pool.trans here⟩
        | false => exact replacePool_goes ends s

theorem closePool_goes {pool : Option Nat} {g : Stage} (holds : g.Holds pool) (s : Shift σ) :
    Goes crew settings g s (Course.closePool pool) { g with isOpen := false }
      (closePool pool s) := by
  cases pool with
  | none =>
    have same : { g with isOpen := false } = g := by rw [← holds.closed rfl]
    rw [same]
    exact .done ..
  | some number => exact .single (.close number (holds.last number rfl))

theorem runWaves_performs (arranges : ∀ taken, (crew.arrange taken).Perm taken)
    {others : Multiset Numbered} {batches : Nat} {waves : List (List Numbered)}
    (areWaves : ∀ tasks ∈ waves, IsWave settings tasks) (pool : Option Nat) (s : Shift σ)
    (g : Stage)
    (begins : g.Between pool (↑waves.flatten + others) batches) :
    Performs crew settings g s (Course.runWaves crew settings waves pool s) (·.2)
      (fun ((_, pool), _) => Stage.Between pool others batches) (fun last => last.isOpen = false)
      (runWaves crew settings waves pool s) := by
  induction waves generalizing pool s g with
  | nil => exact ⟨g, .done .., begins.here.ended, begins.last⟩
  | cons tasks rest ih =>
    obtain ⟨small, wave, same⟩ := areWaves tasks (List.mem_cons_self ..)
    have first : g.Between pool (↑tasks + (↑rest.flatten + others)) batches := by
      refine ⟨⟨rfl, begins.here.isOpen, ?_, begins.here.batches, begins.here.idle⟩, begins.last⟩
      rw [begins.here.todo, List.flatten_cons, ← Multiset.coe_add, Multiset.add_assoc]
    have step := runAnywhere_performs arranges small same pool s first
    unfold Course.runWaves runWaves
    -- The pool is closed also where a wave breaks off, so that no law for two steps applies.
    cases done : runAnywhere crew settings tasks pool s with
    | error broken =>
      rw [done] at step
      obtain ⟨last, goes, holds, settled, cause⟩ := step
      exact ⟨_, goes.trans (closePool_goes holds broken.shift), rfl, settled, cause.append _⟩
    | ok found =>
      obtain ⟨⟨outcomes, pool⟩, after⟩ := found
      rw [done] at step
      obtain ⟨last, goes, holds⟩ := step
      have others := ih (fun tasks among => areWaves tasks (List.mem_cons_of_mem _ among)) pool
        after last holds
      exact .after goes (.map others (fun _ => rfl) (fun _ _ ends => ends))

/-! ### Running batches -/

theorem Stage.Between.holds {pool : Option Nat} {todo : Multiset Numbered} {batches : Nat}
    {g : Stage} (between : g.Between pool todo batches) : g.Holds pool :=
  ⟨between.last, fun none => by rw [between.here.isOpen, none]; rfl⟩

theorem Stage.Between.mk_none {todo : Multiset Numbered} {batches : Nat} {g : Stage}
    {pool : Option Nat} (here : g.At pool false todo batches) : g.Between none todo batches :=
  ⟨⟨rfl, here.isOpen, here.todo, here.batches, here.idle⟩, fun _ none => by cases none⟩

section Batches
variable {others : Multiset Numbered} {batches : Nat} {tasks : List Numbered} {g : Stage}

theorem runBatch_performs (arranges : ∀ taken, (crew.arrange taken).Perm taken)
    (workers : 0 < settings.maxWorkers)
    (areWaves : ∀ wave ∈ groupsOf settings.maxWorkers.toNat tasks, IsWave settings wave)
    {s : Shift σ} (concurrent : s.stats.mode = .concurrent)
    (begins : g.Between none (↑tasks + others) batches) :
    Performs crew settings g s (Course.runBatch crew settings tasks s) (·.2)
      (fun _ => Stage.Between none others batches) (fun last => last.isOpen = false)
      (runBatch crew settings tasks s) := by
  have all : (groupsOf settings.maxWorkers.toNat tasks).flatten = tasks :=
    flatten_groupsOf (by omega) tasks
  obtain ⟨opened, goes, holds⟩ := openPool_goes crew settings begins.here concurrent
  unfold Course.runBatch runBatch
  rw [groups?_of_pos workers]
  refine .after goes ((runWaves_performs arranges areWaves _ _ opened (by rwa [all])).andThen ?_)
  rintro ⟨⟨outcomes, pool⟩, after⟩ last - ends
  exact ⟨_, closePool_goes ends.holds after,
    .mk_none ⟨rfl, rfl, ends.here.todo, ends.here.batches, ends.here.idle⟩⟩

theorem runAllInline_performs (s : Shift σ) (begins : g.Between none (↑tasks + others) batches) :
    Performs crew settings g s (Course.runAllInline crew tasks s) (·.2)
      (fun _ => Stage.Between none others batches) (fun last => last.isOpen = false)
      (runAllInline crew tasks s) := by
  induction tasks generalizing s g with
  | nil => exact ⟨g, .done .., begins.here.ended, begins.last⟩
  | cons t rest ih =>
    obtain ⟨index, task⟩ := t
    have todo := begins.here.todo_cons
    unfold Course.runAllInline runAllInline
    refine ((runInline_performs (.inl begins.here.idle) todo s).mono (fun _ _ same => same)
      ?_).andThen ?_
    · rintro last rfl
      exact begins.here.isOpen
    · rintro ⟨outcome, after⟩ last - rfl
      refine .map (ih after (.mk_none ⟨rfl, begins.here.isOpen, rfl, begins.here.batches, rfl⟩))
        (fun _ => rfl) (fun _ _ ends => ends)

theorem checkMemory_performs (moment : String) (s : Shift σ)
    (begins : g.Between none others batches) :
    Performs crew settings g s [.readMemory moment] id (fun _ => Stage.Between none others batches)
      (fun last => last.isOpen = false) (checkMemory crew settings moment s) := by
  have goes : Goes crew settings g s [.readMemory moment] g
      (reached id (checkMemory crew settings moment s)) := .single (.readMemory moment)
  cases read : checkMemory crew settings moment s with
  | ok after =>
    rw [read] at goes
    exact ⟨g, goes, begins⟩
  | error broken =>
    rw [read] at goes
    have strikes : Strikes crew settings s (.readMemory moment) broken.error := by
      unfold checkMemory at read
      simp only at read
      split at read
      · cases read
      · rename_i above
        split at read
        · cases read
        · rename_i unshown
          cases read
          refine .memory (by simpa using above) ?_
          by_contra shown
          simp only [not_or, ← ne_eq, Option.ne_none_iff_exists'] at shown
          obtain ⟨⟨share, first⟩, threshold, second⟩ := shown
          exact unshown share threshold first second
    exact ⟨g, goes, begins.here.isOpen, begins.here.idle ▸ Due.isSettled_nothing,
      .deed [] [] rfl strikes⟩

theorem runInMode_performs (arranges : ∀ taken, (crew.arrange taken).Perm taken)
    (workers : 0 < settings.maxWorkers)
    (areWaves : ∀ wave ∈ groupsOf settings.maxWorkers.toNat tasks, IsWave settings wave)
    (s : Shift σ) (begins : g.Between none (↑tasks + others) (batches + 1)) :
    Performs crew settings g s (Course.runInMode crew settings tasks s) (·.2)
      (fun _ => Stage.Between none others batches) (fun last => last.isOpen = false)
      (runInMode crew settings tasks s) := by
  have begun : Stage.Between none (↑tasks + others) batches { g with batches } :=
    .mk_none ⟨rfl, begins.here.isOpen, begins.here.todo, rfl, begins.here.idle⟩
  unfold Course.runInMode runInMode
  refine .cons (.beginBatch batches begins.here.batches) ?_
  simp only
  by_cases concurrent : (s.count fun stats =>
      { stats with batches := stats.batches + 1 }).stats.mode = .concurrent
  · rw [if_pos concurrent, if_pos concurrent]
    refine (checkMemory_performs "before batch" _ begun).andThen ?_
    rintro after last - between
    simp only [id]
    by_cases still : after.stats.mode = .concurrent
    · rw [if_pos still, if_pos still]
      refine (runBatch_performs arranges workers areWaves still between).andThen ?_
      rintro ⟨outcomes, after⟩ last - between
      exact .map (checkMemory_performs "after batch" after between) (fun _ => rfl)
        (fun _ _ ends => ends)
    · rw [if_neg still, if_neg still]
      exact runAllInline_performs after between
  · rw [if_neg concurrent, if_neg concurrent]
    exact runAllInline_performs _ begun

theorem pauseBetween_performs (s : Shift σ) (begins : g.Between none others batches) :
    Performs crew settings g s (Course.pauseBetween crew settings) id
      (fun _ => Stage.Between none others batches) (fun last => last.isOpen = false)
      (pauseBetween crew settings s) := by
  unfold Course.pauseBetween pauseBetween
  split
  · exact ⟨g, .done .., begins⟩
  · split
    · rename_i cannot
      rw [Bool.and_eq_true] at cannot
      exact ⟨g, .done .., begins.here.isOpen, begins.here.idle ▸ Due.isSettled_nothing,
        .pause cannot.1 cannot.2⟩
    · exact ⟨g, .single .pause, begins⟩

theorem runBatches_performs (arranges : ∀ taken, (crew.arrange taken).Perm taken)
    (workers : 0 < settings.maxWorkers) (first : Bool) {groups : List (List Numbered)}
    (areWaves : ∀ tasks ∈ groups, ∀ wave ∈ groupsOf settings.maxWorkers.toNat tasks,
      IsWave settings wave)
    (s : Shift σ) (begins : g.Between none ↑groups.flatten groups.length) :
    Performs crew settings g s (Course.runBatches crew settings first groups s) (·.2)
      (fun _ => Stage.Between none 0 0) (fun last => last.isOpen = false)
      (runBatches crew settings first groups s) := by
  induction groups generalizing first s g with
  | nil => exact ⟨g, .done .., begins⟩
  | cons tasks rest ih =>
    have pause : Performs crew settings g s
        (if first then [] else Course.pauseBetween crew settings) id
        (fun _ => Stage.Between none (↑tasks + ↑rest.flatten) (rest.length + 1))
        (fun last => last.isOpen = false)
        (if first then .ok s else pauseBetween crew settings s) := by
      have begins : g.Between none (↑tasks + ↑rest.flatten) (rest.length + 1) := by
        rwa [Multiset.coe_add, ← List.flatten_cons, ← List.length_cons (a := tasks)]
      cases first with
      | true => exact ⟨g, .done .., begins⟩
      | false => exact pauseBetween_performs s begins
    rw [runBatches_cons]
    unfold Course.runBatches
    refine pause.andThen fun next last _ between => ?_
    refine (runInMode_performs arranges workers (areWaves tasks (List.mem_cons_self ..)) next
      between).andThen ?_
    rintro ⟨outcomes, after⟩ last - between
    exact .map (ih false (fun tasks among => areWaves tasks (List.mem_cons_of_mem _ among)) after
      between) (fun _ => rfl) (fun _ _ ends => ends)

end Batches

/-! ### Whole runs -/

def Stage.opening (settings : DispatchSettings) (tasks : List Task) : Stage where
  pool := none
  isOpen := false
  todo := number 0 tasks
  batches := (groupsOf settings.batchSize.toNat (number 0 tasks)).length
  due := .nothing
  wave := none
  slack := 0

theorem outcomes_performs (arranges : ∀ taken, (crew.arrange taken).Perm taken)
    (batch : 0 < settings.batchSize) (workers : 0 < settings.maxWorkers) (tasks : List Task)
    (pools : Nat) (world : σ) :
    Performs crew settings (.opening settings tasks) (start settings pools world)
      (Course.process crew settings tasks pools world) (·.2) (fun _ => Stage.Between none 0 0)
      (fun last => last.isOpen = false)
      (outcomes crew settings tasks (start settings pools world)) := by
  have all : (groupsOf settings.batchSize.toNat (number 0 tasks)).flatten = number 0 tasks :=
    flatten_groupsOf (by omega) _
  unfold Course.process outcomes
  rw [groups?_of_pos batch]
  refine runBatches_performs arranges workers true
    (fun group isBatch wave => isWave_of_mem_groupsOf batch workers isBatch) _ ?_
  refine .mk_none ⟨rfl, rfl, ?_, rfl, rfl⟩
  rw [all]
  rfl

/-- Every run goes on as allowed, up to its end or to where it breaks off. -/
theorem process_goes (arranges : ∀ taken, (crew.arrange taken).Perm taken)
    (batch : 0 < settings.batchSize) (workers : 0 < settings.maxWorkers) (tasks : List Task)
    (pools : Nat) (world : σ) :
    ∃ last, Goes crew settings (.opening settings tasks) (start settings pools world)
        (Course.process crew settings tasks pools world) last
        (process crew settings tasks pools world).2 ∧
      last.isOpen = false ∧ last.due.IsSettled ∧
      match (process crew settings tasks pools world).1 with
      | .ok _ => last.todo = 0 ∧ last.batches = 0
      | .error error => Cause crew settings (start settings pools world)
          (Course.process crew settings tasks pools world) error := by
  have performs := outcomes_performs arranges batch workers tasks pools world
  unfold process
  cases result : outcomes crew settings tasks (start settings pools world) with
  | ok found =>
    rw [result] at performs
    obtain ⟨last, goes, ends⟩ := performs
    exact ⟨last, goes, ends.here.isOpen, ends.here.idle ▸ Due.isSettled_nothing, ends.here.todo,
      ends.here.batches⟩
  | error broken =>
    rw [result] at performs
    exact performs

end SourceIndex.Dispatch
