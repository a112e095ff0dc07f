import SourceIndex.Dispatch.Process
import SourceIndex.Proofs.Dispatch.Wave
/-!
# Workers do not change what comes out

What a run gives depends on the tasks alone, not on the mode, the pools or the memory in use. The
exceptions are settings that numbers are too large in: a timeout that cannot be waited for, and a
threshold that cannot be shown.
-/

namespace SourceIndex.Dispatch
variable {σ : Type}

/-! ### Groups and numbers -/

theorem flatten_groupsOf {α : Type} {size : Nat} (positive : 0 < size) (items : List α) :
    (groupsOf size items).flatten = items := by
  induction items using groupsOf.induct size with
  | case1 items stop =>
    have empty : items = [] := by
      rcases (Bool.or_eq_true _ _).mp stop with none | zero
      · exact List.isEmpty_iff.mp none
      · have : size = 0 := of_decide_eq_true zero
        omega
    subst empty
    simp [groupsOf]
  | case2 items more ih =>
    rw [groupsOf, if_neg more, List.flatten_cons, ih, List.take_append_drop]

theorem sublist_of_mem_groupsOf {α : Type} {size : Nat} {items group : List α}
    (member : group ∈ groupsOf size items) : group.Sublist items := by
  induction items using groupsOf.induct size with
  | case1 items stop => simp [groupsOf, stop] at member
  | case2 items more ih =>
    rw [groupsOf, if_neg more, List.mem_cons] at member
    rcases member with first | later
    · subst first
      exact List.take_sublist ..
    · exact (ih later).trans (List.drop_sublist ..)

theorem le_of_mem_number {index : Nat} {tasks : List Task} {t : Numbered}
    (member : t ∈ number index tasks) : index ≤ t.1 := by
  induction tasks generalizing index with
  | nil => simp [number] at member
  | cons task rest ih =>
    rw [number, List.mem_cons] at member
    rcases member with here | later
    · simp [here]
    · exact Nat.le_of_succ_le (ih later)

theorem nodup_number (index : Nat) (tasks : List Task) :
    ((number index tasks).map Prod.fst).Nodup := by
  induction tasks generalizing index with
  | nil => simp [number]
  | cons task rest ih =>
    rw [number, List.map_cons, List.nodup_cons]
    refine ⟨fun twice => ?_, ih (index + 1)⟩
    obtain ⟨t, member, same⟩ := List.mem_map.mp twice
    have later := le_of_mem_number member
    omega

theorem map_snd_number (index : Nat) (tasks : List Task) :
    (number index tasks).map Prod.snd = tasks := by
  induction tasks generalizing index with
  | nil => rfl
  | cons task rest ih => rw [number, List.map_cons, ih]

variable {crew : Crew σ} {answer : Task → Except FileError Outcome} {sound : σ → Prop}

/-! ### Modes -/

/-- A message about the memory can be told, or none has to be. -/
def Shows (crew : Crew σ) (sound : σ → Prop) (settings : DispatchSettings) : Prop :=
  settings.memoryThreshold.percent?.isSome = true ∨
    ∀ world, sound world → (crew.memory world).1.le settings.memoryThreshold = true

/-- Settings that all waits and messages of a concurrent run are possible with. -/
structure Workable (crew : Crew σ) (sound : σ → Prop) (settings : DispatchSettings) : Prop where
  waits : Waits crew sound settings
  shows : Shows crew sound settings

/-- A threshold that every share of the memory counts as above, so that workers are given up
before they get a task. -/
def NeverBelow (settings : DispatchSettings) : Prop := settings.memoryThreshold = .real .nan

/-- A run that no number is too large in from now on. -/
def Steady (crew : Crew σ) (sound : σ → Prop) (settings : DispatchSettings) (s : Shift σ) : Prop :=
  s.stats.mode = .sequential ∨ NeverBelow settings ∨ Workable crew sound settings

theorem mode_runInline {task : Task} {s last : Shift σ} {outcome : Outcome}
    (step : runInline crew task s = .ok (outcome, last)) : last.stats.mode = s.stats.mode := by
  unfold runInline at step
  split at step
  · simp at step
  · simp only [Except.ok.injEq, Prod.mk.injEq] at step
    obtain ⟨-, rfl⟩ := step
    simp only [Shift.countOutcome, Shift.count]
    split <;> rfl

theorem runAllInline_ends (follows : crew.Follows answer sound) {fails : Prop}
    {settings : DispatchSettings} {tasks : List Numbered}
    (refusal : ∀ t ∈ tasks, ∀ e, answer t.2 = .error e → fails) (s : Shift σ)
    (good : sound s.world) (steady : ¬ fails → Steady crew sound settings s) :
    Ends fails (fun (outcomes, s) => AreAnswers answer tasks outcomes ∧ sound s.world ∧
        (¬ fails → Steady crew sound settings s))
      (runAllInline crew tasks s) := by
  induction tasks generalizing s with
  | nil => exact ⟨areAnswers_nil, good, steady⟩
  | cons t rest ih =>
    obtain ⟨index, task⟩ := t
    have first := runInline_ends follows (refusal _ (List.mem_cons_self ..)) s good
    unfold runAllInline
    cases step : runInline crew task s with
    | error broken =>
      rw [step] at first
      exact first
    | ok found =>
      obtain ⟨outcome, next⟩ := found
      rw [step] at first
      have still : ¬ fails → Steady crew sound settings next := by
        unfold Steady
        rw [mode_runInline step]
        exact steady
      refine (ih (fun t among => refusal t (List.mem_cons_of_mem _ among)) next first.2
        still).bind ?_
      rintro ⟨outcomes, last⟩ ⟨others, kept⟩
      exact ⟨.cons (t := (index, task)) first.1 others, kept⟩

theorem mode_downgrade (reason : String) (s : Shift σ) :
    (downgrade crew reason s).stats.mode = .sequential := by
  unfold downgrade
  split
  · assumption
  · rfl

theorem le_nan (share : Binary64) : (Number.real share).le (.real .nan) = false := by
  cases share <;> rfl

theorem checkMemory_ends (follows : crew.Follows answer sound) {fails : Prop}
    {settings : DispatchSettings} (unshown : ¬ Shows crew sound settings → fails)
    (moment : String) (s : Shift σ) (good : sound s.world) :
    Ends fails
      (fun s => sound s.world ∧ (NeverBelow settings → s.stats.mode = .sequential))
      (checkMemory crew settings moment s) := by
  obtain ⟨⟨share, read⟩, kept⟩ := follows.memory s.world good
  have above : (crew.memory s.world).1.le settings.memoryThreshold = false →
      settings.memoryThreshold.percent? = none → ¬ Shows crew sound settings := by
    rintro more untold (shown | below)
    · rw [untold] at shown
      cases shown
    · rw [below s.world good] at more
      cases more
  unfold checkMemory
  generalize crew.memory s.world = reading at read kept above
  obtain ⟨found, world⟩ := reading
  simp only at read kept above
  subst read
  simp only
  split
  · rename_i below
    refine ⟨kept, fun never => ?_⟩
    rw [never, le_nan] at below
    cases below
  · rename_i more
    split
    · exact ⟨sound_downgrade follows.keeps _ (Shift.record { s with world } _) kept,
        fun _ => mode_downgrade _ _⟩
    · rename_i untold
      refine unshown (above (by simpa using more) ?_)
      cases percent : settings.memoryThreshold.percent? with
      | none => rfl
      | some text => exact (untold _ _ rfl percent).elim

theorem sound_closePool (pool : Option Nat) (s : Shift σ) (good : sound s.world) :
    sound (closePool pool s).world := by
  cases pool with
  | none => exact good
  | some number => exact good

/-! ### Batches -/

theorem groups?_of_pos {α : Type} {size : Int} (positive : 0 < size) (items : List α) :
    groups? size items = some (groupsOf size.toNat items) := by
  unfold groups?
  rw [if_neg (by omega)]

theorem runBatch_ends (follows : crew.Follows answer sound) {fails : Prop}
    {settings : DispatchSettings} (workers : 0 < settings.maxWorkers)
    (late : ¬ Waits crew sound settings → fails) {tasks : List Numbered}
    (distinct : (tasks.map Prod.fst).Nodup)
    (refusal : ∀ t ∈ tasks, ∀ e, answer t.2 = .error e → fails) (s : Shift σ)
    (good : sound s.world) :
    Ends fails (fun (outcomes, s) => AreAnswers answer tasks outcomes ∧ sound s.world)
      (runBatch crew settings tasks s) := by
  have opened := sound_openPool follows.keeps settings s good
  have all : (groupsOf settings.maxWorkers.toNat tasks).flatten = tasks :=
    flatten_groupsOf (by omega) tasks
  unfold runBatch
  rw [groups?_of_pos workers]
  refine (runWaves_ends follows late
    (fun group member => distinct.sublist ((sublist_of_mem_groupsOf member).map Prod.fst))
    (by rwa [all]) (openPool crew settings s).1 _ opened).bind ?_
  rintro ⟨⟨outcomes, pool⟩, last⟩ ⟨answers, kept⟩
  rw [all] at answers
  exact ⟨answers, sound_closePool pool last kept⟩

theorem runInMode_ends (follows : crew.Follows answer sound) {fails : Prop}
    {settings : DispatchSettings} (workers : 0 < settings.maxWorkers) {tasks : List Numbered}
    (distinct : (tasks.map Prod.fst).Nodup)
    (refusal : ∀ t ∈ tasks, ∀ e, answer t.2 = .error e → fails) (s : Shift σ)
    (good : sound s.world) (steady : ¬ fails → Steady crew sound settings s) :
    Ends fails (fun (outcomes, s) => AreAnswers answer tasks outcomes ∧ sound s.world ∧
        (¬ fails → Steady crew sound settings s))
      (runInMode crew settings tasks s) := by
  unfold runInMode
  simp only
  split
  · rename_i concurrent
    have workable : ¬ fails → NeverBelow settings ∨ Workable crew sound settings := by
      refine fun goesOn => (steady goesOn).resolve_left fun sequential => ?_
      rw [show s.stats.mode = .concurrent from concurrent] at sequential
      cases sequential
    have unshown : ¬ Shows crew sound settings → fails := by
      intro unshown
      by_contra goesOn
      rcases workable goesOn with never | workable
      · refine unshown (.inl ?_)
        rw [show settings.memoryThreshold = .real .nan from never]
        rfl
      · exact unshown workable.shows
    refine (checkMemory_ends follows unshown "before batch" (s.count _) good).bind ?_
    rintro next ⟨kept, givenUp⟩
    split
    · rename_i still
      have workable : ¬ fails → Workable crew sound settings := by
        refine fun goesOn => (workable goesOn).resolve_left fun never => ?_
        rw [givenUp never] at still
        cases still
      have late : ¬ Waits crew sound settings → fails := by
        intro late
        by_contra goesOn
        exact late (workable goesOn).waits
      refine (runBatch_ends follows workers late distinct refusal next kept).bind ?_
      rintro ⟨outcomes, after⟩ ⟨answers, keptAfter⟩
      refine (checkMemory_ends follows unshown "after batch" after keptAfter).bind ?_
      rintro last ⟨keptLast, -⟩
      exact ⟨answers, keptLast, fun goesOn => .inr (.inr (workable goesOn))⟩
    · exact runAllInline_ends follows refusal next kept fun goesOn => .inr (workable goesOn)
  · exact runAllInline_ends follows refusal _ good steady

/-- A pause between two batches is wanted and longer than can be waited. -/
def cannotPause (crew : Crew σ) (settings : DispatchSettings) : Bool :=
  (Number.whole 0).lt settings.pause && (crew.rests && longestWait.lt settings.pause)

theorem pauseBetween_ends {fails : Prop} {settings : DispatchSettings}
    (stuck : cannotPause crew settings = true → fails) (s : Shift σ) (good : sound s.world)
    (steady : ¬ fails → Steady crew sound settings s) :
    Ends fails (fun s => sound s.world ∧ (¬ fails → Steady crew sound settings s))
      (pauseBetween crew settings s) := by
  unfold pauseBetween
  split
  · exact ⟨good, steady⟩
  · rename_i wanted
    split
    · rename_i long
      exact stuck (by simp_all [cannotPause])
    · exact ⟨good, steady⟩

theorem runBatches_cons (settings : DispatchSettings) (first : Bool) (tasks : List Numbered)
    (rest : List (List Numbered)) (s : Shift σ) :
    runBatches crew settings first (tasks :: rest) s =
      ((if first then .ok s else pauseBetween crew settings s) >>= fun s => do
        let (outcomes, s) ← runInMode crew settings tasks s
        let (others, s) ← runBatches crew settings false rest s
        return (outcomes ++ others, s)) := by
  cases first <;> rfl

theorem runBatches_ends (follows : crew.Follows answer sound) {fails : Prop}
    {settings : DispatchSettings} (workers : 0 < settings.maxWorkers) (first : Bool)
    {batches : List (List Numbered)} (distinct : ∀ tasks ∈ batches, (tasks.map Prod.fst).Nodup)
    (refusal : ∀ t ∈ batches.flatten, ∀ e, answer t.2 = .error e → fails)
    (stuck : cannotPause crew settings = true → (first = true → 2 ≤ batches.length) → fails)
    (s : Shift σ) (good : sound s.world) (steady : ¬ fails → Steady crew sound settings s) :
    Ends fails (fun (outcomes, s) => AreAnswers answer batches.flatten outcomes ∧ sound s.world)
      (runBatches crew settings first batches s) := by
  induction batches generalizing first s with
  | nil => exact ⟨areAnswers_nil, good⟩
  | cons tasks rest ih =>
    have pause : Ends fails
        (fun s => sound s.world ∧ (¬ fails → Steady crew sound settings s))
        (if first then .ok s else pauseBetween crew settings s) := by
      cases first with
      | true => exact ⟨good, steady⟩
      | false => exact pauseBetween_ends (fun cannot => stuck cannot (by simp)) s good steady
    rw [runBatches_cons]
    refine pause.bind ?_
    rintro next ⟨kept, still⟩
    refine (runInMode_ends follows workers (distinct tasks (List.mem_cons_self ..))
      (fun t member => refusal t (by simp [member])) next kept still).bind ?_
    rintro ⟨outcomes, after⟩ ⟨answers, keptAfter, stillAfter⟩
    cases rest with
    | nil =>
      have single : AreAnswers answer [tasks].flatten (outcomes ++ []) := by simpa using answers
      exact ⟨single, keptAfter⟩
    | cons second others =>
      refine (ih false (fun group among => distinct group (List.mem_cons_of_mem _ among))
        (fun t member => refusal t (by simp at member ⊢; tauto))
        (fun cannot _ => stuck cannot (by simp)) after keptAfter stillAfter).bind ?_
      rintro ⟨found, last⟩ ⟨answersAfter, keptLast⟩
      exact ⟨answers.append answersAfter, keptLast⟩

/-! ### Runs -/

/-- A run stops between its first two batches because the pause is too long. -/
def StopsAtPause (crew : Crew σ) (settings : DispatchSettings) (tasks : List Task) : Prop :=
  cannotPause crew settings = true ∧
    2 ≤ (groupsOf settings.batchSize.toNat (number 0 tasks)).length

/-- Chunks that are those of all tasks, in the order of the tasks. -/
def AreChunksOf (answer : Task → Except FileError Outcome) (tasks : List Task)
    (chunks : List Chunk) : Prop :=
  ∃ outcomes : List Outcome, tasks.map answer = outcomes.map .ok ∧ chunks = outcomes.flatMap (·.chunks)

theorem AreChunksOf.unique {tasks : List Task} {first second : List Chunk}
    (left : AreChunksOf answer tasks first) (right : AreChunksOf answer tasks second) :
    first = second := by
  obtain ⟨outcomes, answers, rfl⟩ := left
  obtain ⟨others, same, rfl⟩ := right
  have equal : outcomes.map (Except.ok (ε := FileError)) = others.map .ok := by
    rw [← answers, ← same]
  rw [List.map_injective_iff.mpr (fun _ _ => Except.ok.inj) equal]

theorem map_snd_of_areAnswers {tasks : List Task} {outcomes : List Outcome}
    (answers : AreAnswers answer (number 0 tasks) outcomes) :
    tasks.map answer = outcomes.map .ok := by
  rw [← answers]
  conv_lhs => rw [← map_snd_number 0 tasks, List.map_map]
  rfl

/-- A run that has more than one batch does not get past a pause that is too long. -/
theorem runBatches_of_stopsAtPause {settings : DispatchSettings}
    (cannot : cannotPause crew settings = true) {batches : List (List Numbered)}
    (several : 2 ≤ batches.length) (s : Shift σ) :
    ∃ broken, runBatches crew settings true batches s = .error broken := by
  rcases batches with _ | ⟨first, _ | ⟨second, rest⟩⟩
  · simp at several
  · simp at several
  · rw [runBatches_cons]
    cases step : runInMode crew settings first s with
    | error broken => exact ⟨broken, by simp [step, bind, Except.bind]⟩
    | ok found =>
      obtain ⟨outcomes, next⟩ := found
      have stuck : pauseBetween crew settings next = .error ⟨.tooLarge, next⟩ := by
        simp_all [cannotPause, pauseBetween]
      exact ⟨⟨.tooLarge, next⟩, by simp [step, runBatches_cons, stuck, bind, Except.bind]⟩

theorem outcomes_ends (follows : crew.Follows answer sound) {fails : Prop}
    (settings : DispatchSettings) (batch : 0 < settings.batchSize)
    (workers : 0 < settings.maxWorkers) (tasks : List Task) (pools : Nat) (world : σ)
    (good : sound world)
    (refusal : ∀ t ∈ number 0 tasks, ∀ e, answer t.2 = .error e → fails)
    (stuck : StopsAtPause crew settings tasks → fails)
    (steady : ¬ fails → Steady crew sound settings (start settings pools world)) :
    Ends fails (fun (found, s) => tasks.map answer = found.map .ok ∧ sound s.world)
      (outcomes crew settings tasks (start settings pools world)) := by
  have all : (groupsOf settings.batchSize.toNat (number 0 tasks)).flatten = number 0 tasks :=
    flatten_groupsOf (by omega) _
  have distinct : ∀ group ∈ groupsOf settings.batchSize.toNat (number 0 tasks),
      (group.map Prod.fst).Nodup := fun group member =>
    (nodup_number 0 tasks).sublist ((sublist_of_mem_groupsOf member).map Prod.fst)
  have ends := runBatches_ends follows workers true distinct (by rwa [all])
    (fun cannot several => stuck ⟨cannot, several rfl⟩) (start settings pools world) good steady
  unfold outcomes
  rw [groups?_of_pos batch]
  simp only
  cases run : runBatches crew settings true
      (groupsOf settings.batchSize.toNat (number 0 tasks)) (start settings pools world) with
  | error broken =>
    rw [run] at ends
    exact ends
  | ok found =>
    rw [run, all] at ends
    exact ⟨map_snd_of_areAnswers ends.1, ends.2⟩

theorem areChunksOf_of_process (follows : crew.Follows answer sound)
    (settings : DispatchSettings) (batch : 0 < settings.batchSize)
    (workers : 0 < settings.maxWorkers) (tasks : List Task) (pools : Nat) (world : σ)
    (good : sound world) {chunks : List Chunk}
    (done : (process crew settings tasks pools world).1 = .ok chunks) :
    AreChunksOf answer tasks chunks ∧
      sound (process crew settings tasks pools world).2.world := by
  have ends : Ends True _ (outcomes crew settings tasks (start settings pools world)) :=
    outcomes_ends follows settings batch workers tasks pools world good (by simp) (by simp)
      (by simp)
  unfold process at done
  cases run : outcomes crew settings tasks (start settings pools world) with
  | error broken => simp [run] at done
  | ok found =>
    rw [run] at ends done
    exact ⟨⟨found.1, ends.1, (Except.ok.inj done).symm⟩, by simpa only [process, run] using ends.2⟩

theorem process_of_stopsAtPause {settings : DispatchSettings} (batch : 0 < settings.batchSize)
    {tasks : List Task} (stops : StopsAtPause crew settings tasks) (pools : Nat) (world : σ)
    (chunks : List Chunk) : (process crew settings tasks pools world).1 ≠ .ok chunks := by
  obtain ⟨broken, breaksOff⟩ := runBatches_of_stopsAtPause stops.1 stops.2
    (start settings pools world)
  unfold process outcomes
  rw [groups?_of_pos batch]
  simp only [breaksOff]
  intro done
  cases done

/-- What a run gives: the chunks of all tasks, unless one of them cannot be tried or the run stops
at a pause. -/
theorem process_eq_ok_iff (follows : crew.Follows answer sound) (settings : DispatchSettings)
    (batch : 0 < settings.batchSize) (workers : 0 < settings.maxWorkers) (tasks : List Task)
    (pools : Nat) (world : σ) (good : sound world)
    (steady : settings.concurrent = false ∨ NeverBelow settings ∨ Workable crew sound settings)
    (chunks : List Chunk) :
    (process crew settings tasks pools world).1 = .ok chunks ↔
      ¬ StopsAtPause crew settings tasks ∧ AreChunksOf answer tasks chunks := by
  constructor
  · intro done
    exact ⟨fun stops => process_of_stopsAtPause batch stops pools world chunks done,
      (areChunksOf_of_process follows settings batch workers tasks pools world good done).1⟩
  · rintro ⟨goesOn, areChunks⟩
    have begins : Steady crew sound settings (start settings pools world) := by
      refine steady.imp_left fun sequential => ?_
      simp [start, DispatchSettings.mode, sequential]
    have tried : ∀ t ∈ number 0 tasks, ∀ e, answer t.2 = .error e → False := by
      intro t member e refused
      obtain ⟨outcomes, answers, -⟩ := areChunks
      have among : answer t.2 ∈ tasks.map answer := by
        refine List.mem_map_of_mem ?_
        rw [← map_snd_number 0 tasks]
        exact List.mem_map_of_mem member
      rw [answers, refused] at among
      simp at among
    have ends := outcomes_ends follows settings batch workers tasks pools world good tried goesOn
      fun _ => begins
    unfold process
    cases run : outcomes crew settings tasks (start settings pools world) with
    | error broken =>
      rw [run] at ends
      exact ends.elim
    | ok found =>
      rw [run] at ends
      exact congrArg Except.ok (AreChunksOf.unique ⟨found.1, ends.1, rfl⟩ areChunks)

/-! ### Concurrent and sequential runs -/

/-- Every run gives the chunks that it would give in sequential mode, whatever the workers, the
pools and the memory do; if it gives none, that is so in sequential mode, too. -/
def MatchesSequential (settings : DispatchSettings) : Prop :=
  ∀ (σ : Type) (crew : Crew σ) (answer : Task → Except FileError Outcome) (sound : σ → Prop),
    crew.Follows answer sound → ∀ (tasks : List Task) (pools : Nat) (world : σ), sound world →
      (process crew settings tasks pools world).1.toOption =
        (process crew { settings with concurrent := false } tasks pools world).1.toOption

theorem toOption_eq_some_iff {ε α : Type} {result : Except ε α} {a : α} :
    result.toOption = some a ↔ result = .ok a := by
  cases result <;> simp [Except.toOption]

theorem matchesSequential_of_steady {settings : DispatchSettings} (batch : 0 < settings.batchSize)
    (workers : 0 < settings.maxWorkers)
    (steady : settings.concurrent = false ∨ NeverBelow settings ∨
      (CanWait settings ∧ settings.memoryThreshold.percent?.isSome = true)) :
    MatchesSequential settings := by
  intro σ crew answer sound follows tasks pools world good
  have steady : settings.concurrent = false ∨ NeverBelow settings ∨
      Workable crew sound settings :=
    steady.imp_right fun others => others.imp_right fun ⟨canWait, shown⟩ =>
      ⟨.inl canWait, .inl shown⟩
  refine Option.ext fun chunks => ?_
  rw [toOption_eq_some_iff, toOption_eq_some_iff,
    process_eq_ok_iff follows settings batch workers tasks pools world good steady,
    process_eq_ok_iff follows { settings with concurrent := false } batch workers
      tasks pools world good (.inl rfl)]
  rfl

/-- A crew whose workers are always silent, with a share of the memory that does not change. -/
def silentCrew (share : Binary64) : Crew Unit where
  run task world := (.ok ⟨task.path, .succeeded, [], none⟩, world)
  openPool _ world := (none, world)
  submit _ _ world := (.taken .silent, world)
  arrange replies := replies
  alive := []
  memory world := (.real share, world)
  rests := false
  tell _ world := world

theorem silentCrew_follows (share : Binary64) :
    (silentCrew share).Follows (fun task => .ok ⟨task.path, .succeeded, [], none⟩)
      fun _ => True where
  run _ _ _ := ⟨rfl, trivial⟩
  openPool _ _ _ := trivial
  submit _ _ _ _ := trivial
  succeeded _ _ _ _ _ taken := by cases taken
  arrange _ := List.Perm.refl _
  memory _ _ := ⟨⟨share, rfl⟩, trivial⟩
  tell _ _ _ := trivial

theorem groupsOf_singleton {α : Type} {size : Nat} (positive : 0 < size) (a : α) :
    groupsOf size [a] = [[a]] := by
  have long : [a].length ≤ size := positive
  rw [groupsOf, if_neg (by simp; omega), List.take_of_length_le long,
    List.drop_eq_nil_of_le long, groupsOf]
  rfl

theorem process_singleton {crew : Crew σ} {settings : DispatchSettings}
    (batch : 0 < settings.batchSize) (task : Task) (world : σ) :
    (process crew settings [task] 0 world).1.toOption =
      (runInMode crew settings [(0, task)] (start settings 0 world)).toOption.map
        fun found => found.1.flatMap (·.chunks) := by
  unfold process outcomes
  rw [groups?_of_pos batch, number, number, groupsOf_singleton (by omega)]
  simp only [runBatches_cons, if_true]
  cases step : runInMode crew settings [(0, task)] (start settings 0 world) <;>
    simp [step, bind, Except.bind, runBatches, pure, Except.pure, Except.toOption]

theorem runInMode_silentCrew_of_not_le {settings : DispatchSettings}
    (concurrent : settings.concurrent = true) {share : Binary64}
    (above : (Number.real share).le settings.memoryThreshold = false)
    (unshown : settings.memoryThreshold.percent? = none) (tasks : List Numbered) :
    (runInMode (silentCrew share) settings tasks (start settings 0 ())).toOption = none := by
  have breaksOff (moment : String) (s : Shift Unit) :
      ∃ broken, checkMemory (silentCrew share) settings moment s = .error broken := by
    unfold checkMemory silentCrew
    simp only [above, unshown]
    exact ⟨_, rfl⟩
  obtain ⟨broken, step⟩ := breaksOff "before batch"
    ((start settings 0 ()).count fun stats => { stats with batches := stats.batches + 1 })
  have mode : ((start settings 0 ()).count fun stats =>
      { stats with batches := stats.batches + 1 }).stats.mode = .concurrent := by
    simp [start, Shift.count, DispatchSettings.mode, concurrent]
  unfold runInMode
  simp only [mode, if_true, step]
  rfl

/-- A silent worker breaks a wave off if its answer cannot be waited for. -/
theorem runBatch_silentCrew {settings : DispatchSettings} (workers : 0 < settings.maxWorkers)
    (long : longestWait.lt settings.timeout = true) (share : Binary64) (task : Task)
    (s : Shift Unit) (mode : s.stats.mode = .concurrent) :
    ∃ broken, runBatch (silentCrew share) settings [(0, task)] s = .error broken := by
  unfold runBatch
  rw [groups?_of_pos workers, groupsOf_singleton (by omega)]
  simp [openPool, silentCrew, Shift.record, runWaves, runAnywhere, mode, runWave, submitAll,
    waitsTooLong, long, Assigned.isDone, bind, Except.bind, pure, Except.pure]

theorem runInMode_silentCrew_of_le {settings : DispatchSettings}
    (workers : 0 < settings.maxWorkers) (concurrent : settings.concurrent = true)
    {share : Binary64} (below : (Number.real share).le settings.memoryThreshold = true)
    (long : longestWait.lt settings.timeout = true) (task : Task) :
    (runInMode (silentCrew share) settings [(0, task)] (start settings 0 ())).toOption = none := by
  have mode : ((start settings 0 ()).count fun stats =>
      { stats with batches := stats.batches + 1 }).stats.mode = .concurrent := by
    simp [start, Shift.count, DispatchSettings.mode, concurrent]
  have memory (s : Shift Unit) : checkMemory (silentCrew share) settings "before batch" s =
      .ok (s.record (.memory (.real share))) := by
    unfold checkMemory silentCrew
    simp only [below, if_true]
  unfold runInMode
  simp only [mode, if_true, memory]
  obtain ⟨broken, step⟩ := runBatch_silentCrew workers long share task
    (((start settings 0 ()).count fun stats => { stats with batches := stats.batches + 1 }).record
      (.memory (.real share))) mode
  have still : (((start settings 0 ()).count fun stats =>
      { stats with batches := stats.batches + 1 }).record
        (.memory (.real share))).stats.mode = .concurrent := mode
  simp only [bind, Except.bind, still, if_true, step]
  rfl

theorem le_of_not_nan {threshold : Number} (number : threshold ≠ .real .nan) :
    (Number.real (.infinite true)).le threshold = true := by
  rcases threshold with n | (_ | negative | ⟨negative, m, e⟩)
  · rfl
  · exact absurd rfl number
  · cases negative <;> rfl
  · rfl

theorem toOption_silentCrew_sequential {settings : DispatchSettings} (batch : 0 < settings.batchSize)
    (workers : 0 < settings.maxWorkers) (share : Binary64) (task : Task) :
    (process (silentCrew share) { settings with concurrent := false } [task] 0 ()).1.toOption =
      some [] := by
  rw [toOption_eq_some_iff, process_eq_ok_iff (silentCrew_follows share)
    { settings with concurrent := false } batch workers [task] 0 () trivial (.inl rfl)]
  refine ⟨fun stops => ?_, [⟨task.path, .succeeded, [], none⟩], rfl, rfl⟩
  have several := stops.2
  rw [number, number, groupsOf_singleton (show 0 < settings.batchSize.toNat by omega)] at several
  simp at several

/-- The settings that concurrent runs are the same as sequential ones for. The two differ for a
timeout that cannot be waited for: there a task that a worker is silent about is lost. They differ
as well for a threshold that is too large to be shown, where a reading that is not a number breaks
the run off. -/
theorem matchesSequential_iff (settings : DispatchSettings) (batch : 0 < settings.batchSize)
    (workers : 0 < settings.maxWorkers) :
    MatchesSequential settings ↔
      settings.concurrent = false ∨ NeverBelow settings ∨
        (longestWait.lt settings.timeout = false ∧
          settings.memoryThreshold.percent?.isSome = true) := by
  constructor
  · intro matchesAll
    by_contra unsteady
    push Not at unsteady
    obtain ⟨concurrent, sometimesBelow, unworkable⟩ := unsteady
    let task : Task := ⟨"", "", none, false, none⟩
    -- Whatever breaks the concurrent run off, the sequential one gives the chunks of the task.
    have differs (share : Binary64)
        (breaksOff : (runInMode (silentCrew share) settings [(0, task)]
          (start settings 0 ())).toOption = none) : False := by
      have same := matchesAll Unit (silentCrew share) _ _ (silentCrew_follows share) [task] 0 ()
        trivial
      rw [toOption_silentCrew_sequential batch workers, process_singleton batch, breaksOff] at same
      cases same
    rw [ne_eq, Bool.not_eq_false] at concurrent
    by_cases shown : settings.memoryThreshold.percent?.isSome = true
    · have long : longestWait.lt settings.timeout = true := by
        by_contra short
        exact unworkable (by simpa using short) shown
      exact differs (.infinite true) (runInMode_silentCrew_of_le workers concurrent
        (le_of_not_nan sometimesBelow) long task)
    · have unshown : settings.memoryThreshold.percent? = none := by simpa using shown
      refine differs .nan (runInMode_silentCrew_of_not_le concurrent ?_ unshown _)
      cases settings.memoryThreshold <;> rfl
  · rintro (sequential | never | ⟨canWait, shown⟩)
    · exact matchesSequential_of_steady batch workers (.inl sequential)
    · exact matchesSequential_of_steady batch workers (.inr (.inl never))
    · exact matchesSequential_of_steady batch workers (.inr (.inr ⟨canWait, shown⟩))

/-- Workers that may take half a minute change nothing; workers that may take three hundred years
do. -/
theorem matchesSequential_thirty_seconds :
    MatchesSequential { concurrent := true, maxWorkers := 4 } ∧
      ¬ MatchesSequential
        { concurrent := true, maxWorkers := 4, timeout := .whole 10000000000 } := by
  constructor
  · exact (matchesSequential_iff _ (by decide) (by decide)).mpr
      (.inr (.inr ⟨by decide +kernel, by decide +kernel⟩))
  · intro same
    have condition := (matchesSequential_iff _ (by decide) (by decide)).mp same
    revert condition
    unfold NeverBelow
    decide +kernel

end SourceIndex.Dispatch
