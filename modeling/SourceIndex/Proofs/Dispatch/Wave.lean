import SourceIndex.Dispatch.Wave
import Mathlib.Data.List.Nodup
/-!
# Waves lose nothing

Whatever happens to a task on its way through a pool, a wave ends with exactly one outcome for it:
the worker's, or the one of the program itself. If every worker that succeeds answers as the
program itself would, the outcomes of a wave are those of its tasks, in their order.
-/

namespace SourceIndex
variable {σ : Type}

/-! ### Crews with an answer to every task -/

/-- A crew that does its tasks by a function: the program itself always, and a worker whenever it
succeeds. Everything else is left open: pools may fail to open, refuse tasks, break or be silent.
`sound` holds of the states in which that is so, and no use of the crew leaves them. -/
structure Crew.Follows (crew : Crew σ) (answer : Task → Except FileError Outcome)
    (sound : σ → Prop) : Prop where
  run : ∀ task world, sound world →
    (crew.run task world).1 = answer task ∧ sound (crew.run task world).2
  openPool : ∀ workers world, sound world → sound (crew.openPool workers world).2
  submit : ∀ index task world, sound world → sound (crew.submit index task world).2
  succeeded : ∀ index task world outcome, sound world →
    (crew.submit index task world).1 = .taken (.answered outcome) →
      outcome.status = .succeeded → answer task = .ok outcome
  arrange : ∀ taken, (crew.arrange taken).Perm taken
  /-- The share of the memory in use is a floating-point number. -/
  memory : ∀ world, sound world →
    (∃ share, (crew.memory world).1 = .real share) ∧ sound (crew.memory world).2
  tell : ∀ line world, sound world → sound (crew.tell line world)

/-- No use of a crew leaves the states in which `sound` holds. -/
structure Crew.Keeps (crew : Crew σ) (sound : σ → Prop) : Prop where
  run : ∀ task world, sound world → sound (crew.run task world).2
  openPool : ∀ workers world, sound world → sound (crew.openPool workers world).2
  submit : ∀ index task world, sound world → sound (crew.submit index task world).2
  memory : ∀ world, sound world → sound (crew.memory world).2
  tell : ∀ line world, sound world → sound (crew.tell line world)

theorem Crew.Follows.keeps {crew : Crew σ} {answer : Task → Except FileError Outcome}
    {sound : σ → Prop} (follows : crew.Follows answer sound) : crew.Keeps sound where
  run task world good := (follows.run task world good).2
  openPool := follows.openPool
  submit := follows.submit
  memory world good := (follows.memory world good).2
  tell := follows.tell

/-- Every task that a pool takes is answered in time. -/
def Crew.IsPrompt (crew : Crew σ) (sound : σ → Prop) : Prop :=
  ∀ index task world, sound world → (crew.submit index task world).1 ≠ .taken .silent

namespace Dispatch

/-! ### How steps end -/

/-- What holds of the end of a step: `holds` of its result, and `fails` if it broke off. -/
def Ends {ε α : Type} (fails : Prop) (holds : α → Prop) : Except ε α → Prop
  | .ok a => holds a
  | .error _ => fails

theorem Ends.bind {ε α β : Type} {fails : Prop} {first : α → Prop} {second : β → Prop}
    {step : Except ε α} {next : α → Except ε β} (ends : Ends fails first step)
    (goesOn : ∀ a, first a → Ends fails second (next a)) :
    Ends fails second (step >>= next) := by
  cases step with
  | ok a => exact goesOn a ends
  | error e => exact ends

variable {crew : Crew σ} {answer : Task → Except FileError Outcome} {sound : σ → Prop}

/-! ### Single tasks -/

theorem runInline_ends (follows : crew.Follows answer sound) {fails : Prop} {task : Task}
    (refusal : ∀ e, answer task = .error e → fails) (s : Shift σ) (good : sound s.world) :
    Ends fails (fun (outcome, s) => answer task = .ok outcome ∧ sound s.world)
      (runInline crew task s) := by
  obtain ⟨same, kept⟩ := follows.run task s.world good
  unfold runInline
  split
  · rename_i e world failed
    rw [failed] at same
    exact refusal e same.symm
  · rename_i outcome world done
    rw [done] at same kept
    exact ⟨same.symm, kept⟩

theorem fallBack_ends (follows : crew.Follows answer sound) {fails : Prop} {task : Task}
    (refusal : ∀ e, answer task = .error e → fails) (s : Shift σ) (good : sound s.world) :
    Ends fails (fun (outcome, s) => answer task = .ok outcome ∧ sound s.world)
      (fallBack crew task s) :=
  runInline_ends follows refusal _ good

theorem sound_downgrade (keeps : crew.Keeps sound) (reason : String) (s : Shift σ)
    (good : sound s.world) : sound (downgrade crew reason s).world := by
  unfold downgrade
  split
  · exact good
  · exact keeps.tell _ _ good

theorem sound_recordFailure (keeps : crew.Keeps sound) (settings : DispatchSettings)
    (task : Task) (status : TaskStatus) (error : String) (s : Shift σ) (good : sound s.world) :
    sound (recordFailure crew settings task status error s).world := by
  unfold recordFailure
  simp only
  split
  · exact sound_downgrade keeps _ _ (keeps.tell _ _ good)
  · exact keeps.tell _ _ good

/-! ### What holds of a wave -/

/-- A wave over some tasks of which `pending` are still to be done: every outcome is the answer to
its task, and every other task has one. -/
structure Wave.Sound (answer : Task → Except FileError Outcome) (sound : σ → Prop)
    (tasks pending : List Numbered) (w : Wave σ) : Prop where
  world : sound w.shift.world
  right : ∀ entry ∈ w.outcomes, ∃ task, (entry.1, task) ∈ tasks ∧ answer task = .ok entry.2
  complete : ∀ t ∈ tasks, t ∈ pending ∨ ∃ outcome, (t.1, outcome) ∈ w.outcomes

theorem Wave.Sound.mono {tasks few many : List Numbered} {w : Wave σ}
    (holds : w.Sound answer sound tasks few) (more : ∀ t ∈ few, t ∈ many) :
    w.Sound answer sound tasks many :=
  ⟨holds.world, holds.right, fun t member => (holds.complete t member).imp_left (more t)⟩

theorem Wave.Sound.add {tasks pending : List Numbered} {t : Numbered} {w after : Wave σ}
    {outcome : Outcome} (holds : w.Sound answer sound tasks (t :: pending)) (member : t ∈ tasks)
    (right : answer t.2 = .ok outcome) (world : sound after.shift.world)
    (added : after.outcomes = w.outcomes ++ [(t.1, outcome)]) :
    after.Sound answer sound tasks pending := by
  refine ⟨world, ?_, ?_⟩
  · intro entry found
    rw [added] at found
    rcases List.mem_append.mp found with before | last
    · exact holds.right entry before
    · rw [List.mem_singleton] at last
      subst last
      exact ⟨t.2, member, right⟩
  · intro other among
    rw [added]
    rcases holds.complete other among with open' | ⟨found, before⟩
    · rcases List.mem_cons.mp open' with here | later
      · exact .inr ⟨outcome, by simp [here]⟩
      · exact .inl later
    · exact .inr ⟨found, List.mem_append_left _ before⟩

theorem Wave.retry_ends (follows : crew.Follows answer sound) {fails : Prop}
    {settings : DispatchSettings} {tasks pending : List Numbered} {t : Numbered}
    {status : TaskStatus} {error : String} {w : Wave σ}
    (refusal : ∀ e, answer t.2 = .error e → fails) (member : t ∈ tasks)
    (holds : w.Sound answer sound tasks (t :: pending)) :
    Ends fails (fun after : Wave σ => after.Sound answer sound tasks pending)
      (w.retry crew settings t.1 t.2 status error) := by
  unfold Wave.retry
  refine (fallBack_ends follows refusal _
    (sound_recordFailure follows.keeps settings t.2 status error _ holds.world)).bind ?_
  rintro ⟨outcome, shift⟩ ⟨right, world⟩
  exact holds.add member right world rfl

/-! ### Handing tasks over -/

def Assigned.numbered (a : Assigned) : Numbered := (a.index, a.task)

def Assigned.IsRight (answer : Task → Except FileError Outcome) (a : Assigned) : Prop :=
  ∀ outcome, a.reply = .answered outcome → outcome.status = .succeeded →
    answer a.task = .ok outcome

/-- Tasks that a pool has taken out of a wave: their replies are right if they are successes, and
there is one for each of them if the crew is prompt. -/
structure AllTaken (answer : Task → Except FileError Outcome) (prompt : Prop)
    (tasks : List Numbered) (taken : List Assigned) : Prop where
  inside : ∀ a ∈ taken, Assigned.numbered a ∈ tasks
  right : ∀ a ∈ taken, Assigned.IsRight answer a
  done : prompt → ∀ a ∈ taken, Assigned.isDone a = true

theorem AllTaken.cons {prompt : Prop} {tasks : List Numbered} {taken : List Assigned}
    {a : Assigned} (all : AllTaken answer prompt tasks taken)
    (member : Assigned.numbered a ∈ tasks) (right : Assigned.IsRight answer a)
    (done : prompt → Assigned.isDone a = true) : AllTaken answer prompt tasks (a :: taken) where
  inside := by simpa using ⟨member, all.inside⟩
  right := by simpa using ⟨right, all.right⟩
  done quick := by simpa using ⟨done quick, all.done quick⟩

theorem isDone_iff {a : Assigned} : Assigned.isDone a = true ↔ a.reply ≠ .silent := by
  unfold Assigned.isDone
  cases a.reply <;> simp

theorem submitAll_ends (follows : crew.Follows answer sound) {fails : Prop}
    (settings : DispatchSettings) (pool : Nat) {tasks : List Numbered}
    (refusal : ∀ t ∈ tasks, ∀ e, answer t.2 = .error e → fails) (todo pending : List Numbered)
    (w : Wave σ) (inside : ∀ t ∈ todo, t ∈ tasks)
    (holds : w.Sound answer sound tasks (todo ++ pending)) :
    Ends fails
      (fun (taken, after) => AllTaken answer (crew.IsPrompt sound) tasks taken ∧
        Wave.Sound answer sound tasks (taken.map Assigned.numbered ++ pending) after)
      (submitAll crew settings pool todo w) := by
  induction todo generalizing pending w with
  | nil => exact ⟨⟨by simp, by simp, by simp⟩, holds⟩
  | cons t rest ih =>
    obtain ⟨index, task⟩ := t
    have member : (index, task) ∈ tasks := inside _ (List.mem_cons_self ..)
    have later : ∀ t ∈ rest, t ∈ tasks := fun t among => inside t (List.mem_cons_of_mem _ among)
    have world := follows.submit index task w.shift.world holds.world
    have succeeded := follows.succeeded index task w.shift.world
    have answered : crew.IsPrompt sound → _ := fun prompt =>
      prompt index task w.shift.world holds.world
    unfold submitAll
    generalize crew.submit index task w.shift.world = submitted at world succeeded answered
    obtain ⟨submission, after⟩ := submitted
    let handed : Shift σ := Shift.record { w.shift with world := after } (.submit pool index)
    have kept : Wave.Sound answer sound tasks (((index, task) :: rest) ++ pending)
        { w with shift := handed } := ⟨world, holds.right, holds.complete⟩
    cases submission with
    | taken reply =>
      have open' : Wave.Sound answer sound tasks (rest ++ (index, task) :: pending)
          { w with shift := handed } := by
        refine kept.mono fun t among => ?_
        simp only [List.cons_append, List.mem_cons, List.mem_append] at among ⊢
        tauto
      refine (ih ((index, task) :: pending) _ later open').bind ?_
      rintro ⟨taken, last⟩ ⟨allTaken, ends⟩
      refine ⟨allTaken.cons member ?_ ?_, ends.mono ?_⟩
      · exact fun outcome right => succeeded outcome holds.world (congrArg Submission.taken right)
      · exact fun prompt => isDone_iff.mpr fun silent =>
          answered prompt (congrArg Submission.taken silent)
      · intro t among
        simp only [List.map_cons, List.cons_append, List.mem_cons, List.mem_append,
          Assigned.numbered] at among ⊢
        tauto
    | refused fatal reason =>
      refine (Wave.retry_ends (t := (index, task)) follows (refusal _ member) member kept).bind ?_
      intro next holdsNext
      exact ih pending _ later ⟨holdsNext.world, holdsNext.right, holdsNext.complete⟩

/-! ### Taking answers -/

theorem takeAnswer_ends (follows : crew.Follows answer sound) {fails : Prop}
    (settings : DispatchSettings) {tasks pending : List Numbered} {w : Wave σ} {a : Assigned}
    (refusal : ∀ t ∈ tasks, ∀ e, answer t.2 = .error e → fails)
    (member : Assigned.numbered a ∈ tasks) (isRight : Assigned.IsRight answer a)
    (isDone : Assigned.isDone a = true)
    (holds : w.Sound answer sound tasks (Assigned.numbered a :: pending)) :
    Ends fails (fun after : Wave σ => after.Sound answer sound tasks pending)
      (takeAnswer crew settings w a) := by
  unfold takeAnswer
  split
  · rename_i silent
    simp [Assigned.isDone, silent] at isDone
  · rename_i poolBroken reason crashed
    exact Wave.retry_ends (t := Assigned.numbered a) follows (refusal _ member) member
      ⟨holds.world, holds.right, holds.complete⟩
  · rename_i outcome answered
    split
    · rename_i success
      exact holds.add member (isRight outcome answered success) holds.world rfl
    · exact Wave.retry_ends (t := Assigned.numbered a) follows (refusal _ member) member holds

theorem takeTimeout_ends (follows : crew.Follows answer sound) {fails : Prop}
    (settings : DispatchSettings) {tasks pending : List Numbered} {w : Wave σ} {a : Assigned}
    (refusal : ∀ t ∈ tasks, ∀ e, answer t.2 = .error e → fails)
    (member : Assigned.numbered a ∈ tasks)
    (holds : w.Sound answer sound tasks (Assigned.numbered a :: pending)) :
    Ends fails (fun after : Wave σ => after.Sound answer sound tasks pending)
      (takeTimeout crew settings w a) :=
  Wave.retry_ends (t := Assigned.numbered a) follows (refusal _ member) member
    ⟨holds.world, holds.right, holds.complete⟩

/-- Settling tasks one after the other leaves only the others to be done. -/
theorem settleAll_ends (fails : Prop) {tasks pending : List Numbered}
    (settle : Wave σ → Assigned → Except (Broken σ) (Wave σ)) (items : List Assigned)
    (settles : ∀ a ∈ items, ∀ (pending : List Numbered) (w : Wave σ),
      w.Sound answer sound tasks (Assigned.numbered a :: pending) →
      Ends fails (fun after : Wave σ => after.Sound answer sound tasks pending) (settle w a))
    (w : Wave σ) (holds : w.Sound answer sound tasks (items.map Assigned.numbered ++ pending)) :
    Ends fails (fun after : Wave σ => after.Sound answer sound tasks pending)
      (items.foldlM settle w) := by
  induction items generalizing w with
  | nil => exact holds
  | cons a rest ih =>
    rw [List.foldlM_cons]
    exact (settles a (List.mem_cons_self ..) _ w holds).bind fun next holdsNext =>
      ih (fun a among => settles a (List.mem_cons_of_mem _ among)) next holdsNext

theorem takeReplies_ends (follows : crew.Follows answer sound) {fails : Prop}
    (settings : DispatchSettings) (pool : Nat) {tasks : List Numbered} {taken : List Assigned}
    {w : Wave σ} (refusal : ∀ t ∈ tasks, ∀ e, answer t.2 = .error e → fails)
    {prompt : Prop} (allTaken : AllTaken answer prompt tasks taken)
    (holds : w.Sound answer sound tasks (taken.map Assigned.numbered)) :
    Ends fails (fun after : Wave σ => after.Sound answer sound tasks [])
      (takeReplies crew settings pool taken w) := by
  have arranged := follows.arrange (taken.filter Assigned.isDone)
  let late := taken.filter fun a => !Assigned.isDone a
  -- Every task is among those with an answer or among those without one.
  have start : w.Sound answer sound tasks
      ((crew.arrange (taken.filter Assigned.isDone)).map Assigned.numbered ++
        late.map Assigned.numbered) := by
    refine holds.mono fun t among => ?_
    obtain ⟨a, found, rfl⟩ := List.mem_map.mp among
    rw [← List.map_append]
    refine List.mem_map_of_mem (List.mem_append.mpr ?_)
    by_cases done : Assigned.isDone a = true
    · exact .inl (arranged.mem_iff.mpr (List.mem_filter.mpr ⟨found, done⟩))
    · exact .inr (List.mem_filter.mpr ⟨found, by simpa using done⟩)
  have answers := settleAll_ends fails (takeAnswer crew settings) _
    (fun a among pending w holds => by
      obtain ⟨found, done⟩ := List.mem_filter.mp (arranged.mem_iff.mp among)
      exact takeAnswer_ends follows settings refusal (allTaken.inside a found)
        (allTaken.right a found) done holds) w start
  unfold takeReplies
  refine answers.bind fun next settled => ?_
  split
  · rename_i nothing
    have empty : late = [] := nothing
    rwa [empty] at settled
  · have stopped : Wave.Sound answer sound tasks (late.map Assigned.numbered ++ [])
        ({ next with shift := stopPool crew pool next.shift }) := by
      rw [List.append_nil]
      exact ⟨settled.world, settled.right, settled.complete⟩
    have timeouts := settleAll_ends fails (takeTimeout crew settings) late
      (fun a among pending w holds => takeTimeout_ends follows settings refusal
        (allTaken.inside a (List.mem_filter.mp among).1) holds) _ stopped
    exact timeouts.bind fun last holdsLast =>
      ⟨holdsLast.world, holdsLast.right, holdsLast.complete⟩

/-! ### Waves -/

/-- Outcomes that are the answers to some tasks, one for each and in their order. -/
def AreAnswers (answer : Task → Except FileError Outcome) (tasks : List Numbered)
    (outcomes : List Outcome) : Prop :=
  tasks.map (fun t => answer t.2) = outcomes.map .ok

theorem areAnswers_nil : AreAnswers answer [] [] := rfl

theorem AreAnswers.cons {t : Numbered} {tasks : List Numbered} {outcome : Outcome}
    {outcomes : List Outcome} (first : answer t.2 = .ok outcome)
    (others : AreAnswers answer tasks outcomes) :
    AreAnswers answer (t :: tasks) (outcome :: outcomes) := by
  unfold AreAnswers at others ⊢
  rw [List.map_cons, List.map_cons, first, others]

theorem AreAnswers.append {first second : List Numbered} {some others : List Outcome}
    (left : AreAnswers answer first some) (right : AreAnswers answer second others) :
    AreAnswers answer (first ++ second) (some ++ others) := by
  unfold AreAnswers at left right ⊢
  rw [List.map_append, List.map_append, left, right]

/-- A task has the outcome that is found under its number, since numbers are not used twice. -/
theorem find?_of_sound {tasks : List Numbered} (distinct : (tasks.map Prod.fst).Nodup)
    {outcomes : List (Nat × Outcome)}
    (right : ∀ entry ∈ outcomes, ∃ task, (entry.1, task) ∈ tasks ∧ answer task = .ok entry.2)
    {t : Numbered} (member : t ∈ tasks) (done : ∃ outcome, (t.1, outcome) ∈ outcomes) :
    ∃ entry, outcomes.find? (fun entry => entry.1 == t.1) = some entry ∧
      answer t.2 = .ok entry.2 := by
  cases found : outcomes.find? fun entry => entry.1 == t.1 with
  | none =>
    obtain ⟨outcome, there⟩ := done
    have absent := List.find?_eq_none.mp found _ there
    simp at absent
  | some entry =>
    have same : entry.1 = t.1 := by simpa using List.find?_some found
    obtain ⟨task, among, answered⟩ := right entry (List.mem_of_find?_eq_some found)
    have unique : (entry.1, task) = t :=
      List.inj_on_of_nodup_map distinct among member same
    refine ⟨entry, rfl, ?_⟩
    rw [← unique]
    exact answered

theorem areAnswers_inOrder {tasks : List Numbered} (distinct : (tasks.map Prod.fst).Nodup)
    {w : Wave σ} (settled : w.Sound answer sound tasks []) :
    AreAnswers answer tasks (inOrder tasks w.outcomes) := by
  have each : ∀ t ∈ tasks, ∃ entry,
      w.outcomes.find? (fun entry => entry.1 == t.1) = some entry ∧ answer t.2 = .ok entry.2 := by
    intro t member
    refine find?_of_sound distinct settled.right member ?_
    rcases settled.complete t member with pending | done
    · simp at pending
    · exact done
  unfold inOrder
  clear distinct settled
  induction tasks with
  | nil => exact areAnswers_nil
  | cons t rest ih =>
    obtain ⟨entry, found, answered⟩ := each t (List.mem_cons_self ..)
    rw [List.filterMap_cons, found]
    exact .cons answered (ih fun other among => each other (List.mem_cons_of_mem _ among))

def CanWait (settings : DispatchSettings) : Prop := longestWait.lt settings.timeout = false

def Waits (crew : Crew σ) (sound : σ → Prop) (settings : DispatchSettings) : Prop :=
  CanWait settings ∨ crew.IsPrompt sound

theorem not_waits {prompt : Prop} {settings : DispatchSettings} {tasks : List Numbered}
    {taken : List Assigned} (allTaken : AllTaken answer prompt tasks taken)
    (long : waitsTooLong settings taken = true) : ¬ (CanWait settings ∨ prompt) := by
  rw [waitsTooLong, Bool.and_eq_true, List.any_eq_true] at long
  obtain ⟨exceeds, a, among, late⟩ := long
  rintro (canWait | prompt)
  · rw [CanWait, exceeds] at canWait
    cases canWait
  · rw [allTaken.done prompt a among] at late
    cases late

theorem runWave_ends (follows : crew.Follows answer sound) {fails : Prop}
    {settings : DispatchSettings} (late : ¬ Waits crew sound settings → fails) (pool : Nat)
    {tasks : List Numbered} (distinct : (tasks.map Prod.fst).Nodup)
    (refusal : ∀ t ∈ tasks, ∀ e, answer t.2 = .error e → fails) (s : Shift σ)
    (good : sound s.world) :
    Ends fails (fun ((outcomes, _), s) => AreAnswers answer tasks outcomes ∧ sound s.world)
      (runWave crew settings pool tasks s) := by
  have start : Wave.Sound answer sound tasks (tasks ++ []) ⟨[], true, s⟩ :=
    ⟨good, by simp, fun t member => .inl (List.mem_append_left _ member)⟩
  unfold runWave
  refine (submitAll_ends follows settings pool refusal tasks [] _ (fun _ member => member)
    start).bind ?_
  rintro ⟨taken, w⟩ ⟨allTaken, holds⟩
  simp only
  split
  · rename_i long
    exact late (not_waits allTaken long)
  · rw [List.append_nil] at holds
    refine (takeReplies_ends follows settings pool refusal allTaken holds).bind ?_
    intro last settled
    exact ⟨areAnswers_inOrder distinct settled, settled.world⟩

theorem fallBackAll_ends (follows : crew.Follows answer sound) {fails : Prop}
    {tasks : List Numbered} (refusal : ∀ t ∈ tasks, ∀ e, answer t.2 = .error e → fails)
    (s : Shift σ) (good : sound s.world) :
    Ends fails (fun (outcomes, s) => AreAnswers answer tasks outcomes ∧ sound s.world)
      (fallBackAll crew tasks s) := by
  induction tasks generalizing s with
  | nil => exact ⟨areAnswers_nil, good⟩
  | cons t rest ih =>
    unfold fallBackAll
    refine (fallBack_ends follows (refusal t (List.mem_cons_self ..)) s good).bind ?_
    rintro ⟨outcome, next⟩ ⟨answered, world⟩
    refine (ih (fun other among => refusal other (List.mem_cons_of_mem _ among)) next world).bind ?_
    rintro ⟨outcomes, last⟩ ⟨others, kept⟩
    exact ⟨others.cons answered, kept⟩

theorem sound_openPool (keeps : crew.Keeps sound) (settings : DispatchSettings)
    (s : Shift σ) (good : sound s.world) : sound (openPool crew settings s).2.world := by
  have kept := keeps.openPool settings.maxWorkers s.world good
  unfold openPool
  generalize crew.openPool settings.maxWorkers s.world = opened at kept
  obtain ⟨failure, world⟩ := opened
  cases failure with
  | none => exact kept
  | some reason => exact sound_downgrade keeps _ _ (keeps.tell _ _ kept)

theorem sound_replacePool (keeps : crew.Keeps sound) (settings : DispatchSettings)
    (pool : Nat) (s : Shift σ) (good : sound s.world) :
    sound (replacePool crew settings pool s).2.world := by
  unfold replacePool
  simp only
  split
  · exact sound_openPool keeps settings _ good
  · exact good

theorem runAnywhere_ends (follows : crew.Follows answer sound) {fails : Prop}
    {settings : DispatchSettings} (late : ¬ Waits crew sound settings → fails)
    {tasks : List Numbered} (distinct : (tasks.map Prod.fst).Nodup)
    (refusal : ∀ t ∈ tasks, ∀ e, answer t.2 = .error e → fails) (pool : Option Nat) (s : Shift σ)
    (good : sound s.world) :
    Ends fails (fun ((outcomes, _), s) => AreAnswers answer tasks outcomes ∧ sound s.world)
      (runAnywhere crew settings tasks pool s) := by
  unfold runAnywhere
  split
  · rename_i number _
    refine (runWave_ends follows late number distinct refusal s good).bind ?_
    rintro ⟨⟨outcomes, healthy⟩, next⟩ ⟨answers, kept⟩
    cases healthy with
    | true => exact ⟨answers, kept⟩
    | false => exact ⟨answers, sound_replacePool follows.keeps settings number next kept⟩
  · refine (fallBackAll_ends follows refusal s good).bind ?_
    rintro ⟨outcomes, next⟩ ends
    exact ends

theorem runWaves_ends (follows : crew.Follows answer sound) {fails : Prop}
    {settings : DispatchSettings} (late : ¬ Waits crew sound settings → fails)
    {waves : List (List Numbered)} (distinct : ∀ tasks ∈ waves, (tasks.map Prod.fst).Nodup)
    (refusal : ∀ t ∈ waves.flatten, ∀ e, answer t.2 = .error e → fails) (pool : Option Nat)
    (s : Shift σ) (good : sound s.world) :
    Ends fails
      (fun ((outcomes, _), s) => AreAnswers answer waves.flatten outcomes ∧ sound s.world)
      (runWaves crew settings waves pool s) := by
  induction waves generalizing pool s with
  | nil => exact ⟨areAnswers_nil, good⟩
  | cons tasks rest ih =>
    have first := runAnywhere_ends follows late (distinct tasks (List.mem_cons_self ..))
      (fun t member => refusal t (by simp [member])) pool s good
    unfold runWaves
    cases step : runAnywhere crew settings tasks pool s with
    | error broken => rwa [step] at first
    | ok found =>
      obtain ⟨⟨outcomes, next⟩, after⟩ := found
      rw [step] at first
      refine (ih (fun others among => distinct others (List.mem_cons_of_mem _ among))
        (fun t member => refusal t (by simp at member ⊢; exact .inr member)) next after
        first.2).bind ?_
      rintro ⟨⟨others, last⟩, final⟩ ⟨answers, kept⟩
      exact ⟨first.1.append answers, kept⟩

end Dispatch
end SourceIndex
