import SourceIndex.Proofs.Dispatch.Process
/-!
# Tasks that nobody tells apart

Where neither the program itself nor a worker tells a task from another one that stands for it, a
run goes the same way over the tasks that stand for others as over the others, up to the last
counter.
-/

namespace SourceIndex
variable {σ : Type}

/-- What was handed over, with another task that stands for it. -/
def Assigned.onTask (f : Task → Task) (a : Assigned) : Assigned := { a with task := f a.task }

/-- A crew that does not tell the task that stands for another one from it. -/
structure Crew.Ignores (crew : Crew σ) (sound : σ → Prop) (f : Task → Task) : Prop where
  path : ∀ task, (f task).path = task.path
  run : ∀ task world, sound world → crew.run (f task) world = crew.run task world
  submit : ∀ index task world, sound world →
    crew.submit index (f task) world = crew.submit index task world
  arrange : ∀ taken,
    crew.arrange (taken.map (Assigned.onTask f)) = (crew.arrange taken).map (Assigned.onTask f)

namespace Dispatch

/-! ### Steps that agree -/

structure Agrees {ε α : Type} (holds : α → Prop) (first second : Except ε α) : Prop where
  same : first = second
  ends : Ends True holds second

theorem agrees_ok {ε α : Type} {holds : α → Prop} {a : α} (here : holds a) :
    Agrees (ε := ε) holds (.ok a) (.ok a) := ⟨rfl, here⟩

theorem Agrees.bind {ε α β : Type} {holds : α → Prop} {later : β → Prop}
    {first second : Except ε α} {next after : α → Except ε β} (agrees : Agrees holds first second)
    (goesOn : ∀ a, holds a → Agrees later (next a) (after a)) :
    Agrees later (first >>= next) (second >>= after) := by
  obtain ⟨rfl, ends⟩ := agrees
  refine ⟨?_, ends.bind fun a here => (goesOn a here).ends⟩
  cases first with
  | ok a => exact (goesOn a ends).same
  | error e => rfl

theorem Agrees.foldlM_map {ε α β : Type} {holds : β → Prop} {g : α → α}
    {step : β → α → Except ε β}
    (goesOn : ∀ b a, holds b → Agrees holds (step b (g a)) (step b a)) (items : List α) (b : β)
    (start : holds b) : Agrees holds ((items.map g).foldlM step b) (items.foldlM step b) := by
  induction items generalizing b with
  | nil => exact agrees_ok start
  | cons a rest ih =>
    rw [List.map_cons, List.foldlM_cons, List.foldlM_cons]
    exact (goesOn b a start).bind ih

variable {crew : Crew σ} {sound : σ → Prop} {f : Task → Task}

def onTasks (f : Task → Task) (tasks : List Numbered) : List Numbered := tasks.map (Prod.map id f)

/-! ### Single tasks -/

theorem runInline_agrees (keeps : crew.Keeps sound) (ignores : crew.Ignores sound f) (task : Task)
    (s : Shift σ) (good : sound s.world) :
    Agrees (fun result => sound result.2.world) (runInline crew (f task) s)
      (runInline crew task s) := by
  have kept := keeps.run task s.world good
  unfold runInline
  rw [ignores.run task s.world good]
  generalize crew.run task s.world = result at kept
  obtain ⟨outcome, world⟩ := result
  cases outcome with
  | error e => exact ⟨rfl, trivial⟩
  | ok outcome => exact agrees_ok kept

theorem fallBack_agrees (keeps : crew.Keeps sound) (ignores : crew.Ignores sound f) (task : Task)
    (s : Shift σ) (good : sound s.world) :
    Agrees (fun result => sound result.2.world) (fallBack crew (f task) s)
      (fallBack crew task s) :=
  runInline_agrees keeps ignores task _ good

theorem recordFailure_eq (ignores : crew.Ignores sound f) (settings : DispatchSettings)
    (task : Task) (status : TaskStatus) (error : String) (s : Shift σ) :
    recordFailure crew settings (f task) status error s =
      recordFailure crew settings task status error s := by
  simp only [recordFailure, ignores.path]

theorem retry_agrees (keeps : crew.Keeps sound) (ignores : crew.Ignores sound f)
    (settings : DispatchSettings) (index : Nat) (task : Task) (status : TaskStatus)
    (error : String) (w : Wave σ) (good : sound w.shift.world) :
    Agrees (fun w : Wave σ => sound w.shift.world)
      (w.retry crew settings index (f task) status error)
      (w.retry crew settings index task status error) := by
  unfold Wave.retry
  rw [recordFailure_eq ignores]
  refine (fallBack_agrees keeps ignores task _
    (sound_recordFailure keeps settings task status error _ good)).bind ?_
  intro result kept
  exact agrees_ok kept

/-! ### Waves -/

theorem submitAll_agrees (keeps : crew.Keeps sound) (ignores : crew.Ignores sound f)
    (settings : DispatchSettings) (pool : Nat) (todo : List Numbered) (w : Wave σ)
    (good : sound w.shift.world) :
    submitAll crew settings pool (onTasks f todo) w =
        (submitAll crew settings pool todo w).map (fun result =>
          (result.1.map (Assigned.onTask f), result.2)) ∧
      Ends True (fun result => sound result.2.shift.world)
        (submitAll crew settings pool todo w) := by
  induction todo generalizing w with
  | nil => exact ⟨rfl, good⟩
  | cons t rest ih =>
    obtain ⟨index, task⟩ := t
    have kept := keeps.submit index task w.shift.world good
    rw [onTasks, List.map_cons, ← onTasks, Prod.map_apply, id_eq]
    unfold submitAll
    rw [ignores.submit index task w.shift.world good]
    generalize crew.submit index task w.shift.world = submitted at kept
    obtain ⟨submission, world⟩ := submitted
    cases submission with
    | taken reply =>
      obtain ⟨same, ends⟩ := ih
        { w with shift := Shift.record { w.shift with world } (.submit pool index) } kept
      simp only
      rw [same]
      refine ⟨?_, ends.bind fun result kept => kept⟩
      cases submitAll crew settings pool rest _ with
      | error broken => rfl
      | ok result => rfl
    | refused fatal reason =>
      obtain ⟨same, ends⟩ := retry_agrees keeps ignores settings index task .failed
        ("submit failed: " ++ reason)
        { w with shift := Shift.record { w.shift with world } (.submit pool index) } kept
      simp only
      rw [same]
      generalize Wave.retry crew settings index task .failed _ _ = retried at ends
      cases retried with
      | error broken => exact ⟨rfl, trivial⟩
      | ok next => exact ih _ ends

theorem takeAnswer_agrees (keeps : crew.Keeps sound) (ignores : crew.Ignores sound f)
    (settings : DispatchSettings) (w : Wave σ) (a : Assigned) (good : sound w.shift.world) :
    Agrees (fun w : Wave σ => sound w.shift.world) (takeAnswer crew settings w (a.onTask f))
      (takeAnswer crew settings w a) := by
  obtain ⟨index, task, reply⟩ := a
  unfold takeAnswer Assigned.onTask
  cases reply with
  | silent => exact agrees_ok good
  | crashed poolBroken reason => exact retry_agrees keeps ignores settings index task _ _ _ good
  | answered outcome =>
    simp only
    split
    · exact agrees_ok good
    · exact retry_agrees keeps ignores settings index task _ _ _ good

theorem takeTimeout_agrees (keeps : crew.Keeps sound) (ignores : crew.Ignores sound f)
    (settings : DispatchSettings) (w : Wave σ) (a : Assigned) (good : sound w.shift.world) :
    Agrees (fun w : Wave σ => sound w.shift.world) (takeTimeout crew settings w (a.onTask f))
      (takeTimeout crew settings w a) :=
  retry_agrees keeps ignores settings a.index a.task _ _ _ good

theorem filter_onTask (wanted : Assigned → Bool)
    (blind : ∀ a, wanted (Assigned.onTask f a) = wanted a) (taken : List Assigned) :
    (taken.map (Assigned.onTask f)).filter wanted =
      (taken.filter wanted).map (Assigned.onTask f) := by
  rw [List.filter_map]
  congr 2
  funext a
  exact blind a

theorem takeReplies_agrees (keeps : crew.Keeps sound) (ignores : crew.Ignores sound f)
    (settings : DispatchSettings) (pool : Nat) (taken : List Assigned) (w : Wave σ)
    (good : sound w.shift.world) :
    Agrees (fun w : Wave σ => sound w.shift.world)
      (takeReplies crew settings pool (taken.map (Assigned.onTask f)) w)
      (takeReplies crew settings pool taken w) := by
  unfold takeReplies
  rw [filter_onTask _ (fun _ => rfl), filter_onTask _ (fun _ => rfl), ignores.arrange]
  refine (Agrees.foldlM_map (takeAnswer_agrees keeps ignores settings) _ w good).bind ?_
  intro next kept
  cases late : taken.filter fun a => !Assigned.isDone a with
  | nil => exact agrees_ok kept
  | cons a rest =>
    have timeouts := Agrees.foldlM_map (takeTimeout_agrees keeps ignores settings) (a :: rest)
      { next with shift := stopPool crew pool next.shift } kept
    exact timeouts.bind fun last keptLast => agrees_ok keptLast

theorem inOrder_onTasks (tasks : List Numbered) (outcomes : List (Nat × Outcome)) :
    inOrder (onTasks f tasks) outcomes = inOrder tasks outcomes := by
  rw [inOrder, onTasks, List.filterMap_map]
  rfl

theorem waitsTooLong_onTask (settings : DispatchSettings) (taken : List Assigned) :
    waitsTooLong settings (taken.map (Assigned.onTask f)) = waitsTooLong settings taken := by
  rw [waitsTooLong, waitsTooLong, List.any_map]
  rfl

theorem runWave_agrees (keeps : crew.Keeps sound) (ignores : crew.Ignores sound f)
    (settings : DispatchSettings) (pool : Nat) (tasks : List Numbered) (s : Shift σ)
    (good : sound s.world) :
    Agrees (fun result => sound result.2.world) (runWave crew settings pool (onTasks f tasks) s)
      (runWave crew settings pool tasks s) := by
  obtain ⟨same, ends⟩ := submitAll_agrees keeps ignores settings pool tasks ⟨[], true, s⟩ good
  unfold runWave
  rw [same]
  generalize submitAll crew settings pool tasks ⟨[], true, s⟩ = submitted at ends
  cases submitted with
  | error broken => exact ⟨rfl, trivial⟩
  | ok result =>
    obtain ⟨taken, w⟩ := result
    have waits : waitsTooLong settings (taken.map (Assigned.onTask f)) =
        waitsTooLong settings taken := waitsTooLong_onTask settings taken
    simp only [Except.map, bind, Except.bind, waits]
    split
    · exact ⟨rfl, trivial⟩
    · refine (takeReplies_agrees keeps ignores settings pool taken w ends).bind ?_
      intro last kept
      rw [inOrder_onTasks]
      exact agrees_ok kept

theorem fallBackAll_agrees (keeps : crew.Keeps sound) (ignores : crew.Ignores sound f)
    (tasks : List Numbered) (s : Shift σ) (good : sound s.world) :
    Agrees (fun result => sound result.2.world) (fallBackAll crew (onTasks f tasks) s)
      (fallBackAll crew tasks s) := by
  induction tasks generalizing s with
  | nil => exact agrees_ok good
  | cons t rest ih =>
    refine (fallBack_agrees keeps ignores t.2 s good).bind fun result kept => ?_
    exact (ih result.2 kept).bind fun others keptLast => agrees_ok keptLast

theorem runAnywhere_agrees (keeps : crew.Keeps sound) (ignores : crew.Ignores sound f)
    (settings : DispatchSettings) (tasks : List Numbered) (pool : Option Nat) (s : Shift σ)
    (good : sound s.world) :
    Agrees (fun result => sound result.2.world)
      (runAnywhere crew settings (onTasks f tasks) pool s)
      (runAnywhere crew settings tasks pool s) := by
  unfold runAnywhere
  split
  · rename_i number _
    refine (runWave_agrees keeps ignores settings number tasks s good).bind fun result kept => ?_
    obtain ⟨⟨outcomes, healthy⟩, next⟩ := result
    cases healthy with
    | true => exact agrees_ok kept
    | false => exact agrees_ok (sound_replacePool keeps settings number next kept)
  · exact (fallBackAll_agrees keeps ignores tasks s good).bind fun result kept => agrees_ok kept

theorem runWaves_agrees (keeps : crew.Keeps sound) (ignores : crew.Ignores sound f)
    (settings : DispatchSettings) (waves : List (List Numbered)) (pool : Option Nat) (s : Shift σ)
    (good : sound s.world) :
    Agrees (fun result => sound result.2.world)
      (runWaves crew settings (waves.map (onTasks f)) pool s)
      (runWaves crew settings waves pool s) := by
  induction waves generalizing pool s with
  | nil => exact agrees_ok good
  | cons tasks rest ih =>
    obtain ⟨same, ends⟩ := runAnywhere_agrees keeps ignores settings tasks pool s good
    rw [List.map_cons]
    unfold runWaves
    rw [same]
    generalize runAnywhere crew settings tasks pool s = step at ends
    cases step with
    | error broken => exact ⟨rfl, trivial⟩
    | ok result =>
      obtain ⟨⟨outcomes, next⟩, after⟩ := result
      exact (ih next after ends).bind fun others kept => agrees_ok kept

/-! ### Batches -/

theorem groupsOf_map {α β : Type} (g : α → β) (size : Nat) (items : List α) :
    groupsOf size (items.map g) = (groupsOf size items).map (List.map g) := by
  induction items using groupsOf.induct size with
  | case1 items stop =>
    have stop' : ((items.map g).isEmpty || decide (size = 0)) = true := by simpa using stop
    rw [groupsOf, if_pos stop', groupsOf, if_pos stop, List.map_nil]
  | case2 items more ih =>
    have more' : ¬ ((items.map g).isEmpty || decide (size = 0)) = true := by simpa using more
    rw [groupsOf, if_neg more', ← List.map_take, ← List.map_drop, ih]
    conv_rhs => rw [groupsOf, if_neg more, List.map_cons]

theorem groups?_onTasks (size : Int) (tasks : List Numbered) :
    groups? size (onTasks f tasks) = (groups? size tasks).map (List.map (onTasks f)) := by
  unfold groups?
  split
  · rfl
  · exact congrArg some (groupsOf_map (Prod.map id f) size.toNat tasks)

theorem runBatch_agrees (keeps : crew.Keeps sound) (ignores : crew.Ignores sound f)
    (settings : DispatchSettings) (tasks : List Numbered) (s : Shift σ) (good : sound s.world) :
    Agrees (fun result => sound result.2.world) (runBatch crew settings (onTasks f tasks) s)
      (runBatch crew settings tasks s) := by
  have opened := sound_openPool keeps settings s good
  unfold runBatch
  rw [groups?_onTasks]
  cases groups? settings.maxWorkers tasks with
  | none => exact ⟨rfl, trivial⟩
  | some waves =>
    refine (runWaves_agrees keeps ignores settings waves _ _ opened).bind fun result kept => ?_
    exact agrees_ok (sound_closePool result.1.2 result.2 kept)

theorem runAllInline_agrees (keeps : crew.Keeps sound) (ignores : crew.Ignores sound f)
    (tasks : List Numbered) (s : Shift σ) (good : sound s.world) :
    Agrees (fun result => sound result.2.world) (runAllInline crew (onTasks f tasks) s)
      (runAllInline crew tasks s) := by
  induction tasks generalizing s with
  | nil => exact agrees_ok good
  | cons t rest ih =>
    refine (runInline_agrees keeps ignores t.2 s good).bind fun result kept => ?_
    exact (ih result.2 kept).bind fun others keptLast => agrees_ok keptLast

theorem sound_checkMemory (keeps : crew.Keeps sound) (settings : DispatchSettings)
    (moment : String) (s : Shift σ) (good : sound s.world) :
    Ends True (fun s => sound s.world) (checkMemory crew settings moment s) := by
  have kept := keeps.memory s.world good
  unfold checkMemory
  generalize crew.memory s.world = reading at kept
  obtain ⟨share, world⟩ := reading
  simp only
  split
  · exact kept
  split
  · exact sound_downgrade keeps _ (Shift.record { s with world } _) kept
  · trivial

theorem runInMode_agrees (keeps : crew.Keeps sound) (ignores : crew.Ignores sound f)
    (settings : DispatchSettings) (tasks : List Numbered) (s : Shift σ) (good : sound s.world) :
    Agrees (fun result => sound result.2.world) (runInMode crew settings (onTasks f tasks) s)
      (runInMode crew settings tasks s) := by
  have checks (moment : String) (s : Shift σ) (good : sound s.world) :
      Agrees (fun s => sound s.world) (checkMemory crew settings moment s)
        (checkMemory crew settings moment s) :=
    ⟨rfl, sound_checkMemory keeps settings moment s good⟩
  unfold runInMode
  simp only
  split
  · refine (checks "before batch" (s.count _) good).bind fun next kept => ?_
    split
    · have batch := runBatch_agrees keeps ignores settings tasks next kept
      refine batch.bind fun result keptAfter => ?_
      exact (checks "after batch" result.2 keptAfter).bind fun last keptLast => agrees_ok keptLast
    · exact runAllInline_agrees keeps ignores tasks next kept
  · exact runAllInline_agrees keeps ignores tasks _ good

theorem sound_pauseBetween (settings : DispatchSettings) (s : Shift σ) (good : sound s.world) :
    Ends True (fun s => sound s.world) (pauseBetween crew settings s) := by
  unfold pauseBetween
  split
  · exact good
  split
  · trivial
  · exact good

theorem runBatches_agrees (keeps : crew.Keeps sound) (ignores : crew.Ignores sound f)
    (settings : DispatchSettings) (first : Bool) (batches : List (List Numbered)) (s : Shift σ)
    (good : sound s.world) :
    Agrees (fun result => sound result.2.world)
      (runBatches crew settings first (batches.map (onTasks f)) s)
      (runBatches crew settings first batches s) := by
  induction batches generalizing first s with
  | nil => exact agrees_ok good
  | cons tasks rest ih =>
    have pause : Ends True (fun s => sound s.world)
        (if first then (.ok s : Except (Broken σ) (Shift σ))
          else pauseBetween crew settings s) := by
      cases first with
      | true => exact good
      | false => exact sound_pauseBetween settings s good
    rw [List.map_cons, runBatches_cons, runBatches_cons]
    refine Agrees.bind ⟨rfl, pause⟩ fun next kept => ?_
    refine (runInMode_agrees keeps ignores settings tasks next kept).bind fun result keptAfter => ?_
    exact (ih false result.2 keptAfter).bind fun others keptLast => agrees_ok keptLast

/-! ### Runs -/

theorem number_map (index : Nat) (tasks : List Task) :
    number index (tasks.map f) = onTasks f (number index tasks) := by
  induction tasks generalizing index with
  | nil => rfl
  | cons task rest ih =>
    rw [List.map_cons, number, ih]
    rfl

/-- A run over tasks that stand for others is the run over the others. -/
theorem process_map (keeps : crew.Keeps sound) (ignores : crew.Ignores sound f)
    (settings : DispatchSettings) (tasks : List Task) (pools : Nat) (world : σ)
    (good : sound world) :
    process crew settings (tasks.map f) pools world = process crew settings tasks pools world := by
  have same : outcomes crew settings (tasks.map f) (start settings pools world) =
      outcomes crew settings tasks (start settings pools world) := by
    unfold outcomes
    rw [number_map, groups?_onTasks]
    cases groups? settings.batchSize (number 0 tasks) with
    | none => rfl
    | some batches => exact (runBatches_agrees keeps ignores settings true batches _ good).same
  rw [process, process, same]

end Dispatch
end SourceIndex
