import SourceIndex.Proofs.Dispatch.Tally
/-!
# The order of the answers does not matter

The answers of a wave come in some order, and every failure among them counts, may make the
dispatcher give its workers up and is done again in the program itself. Whatever the order is, a
run ends with the same chunks and the same counters; only the list of failures shows it.
-/

namespace SourceIndex
variable {σ : Type}

/-! ### Crews that take answers in different orders -/

/-- A crew with another order in which the answers of a wave are taken. -/
def Crew.inOrder (crew : Crew σ) (order : List Assigned → List Assigned) : Crew σ :=
  { crew with arrange := order }

/-- A crew that runs tasks in the program itself by a function, and whose pools and readings do not
see what was run there and told: states that are alike stay alike through that. -/
structure Crew.IsBlind (crew : Crew σ) (answer : Task → Except FileError Outcome)
    (like : σ → σ → Prop) : Prop where
  symm : ∀ a b, like a b → like b a
  run : ∀ task a b, like a b →
    (crew.run task a).1 = answer task ∧ like (crew.run task a).2 b
  tell : ∀ line a b, like a b → like (crew.tell line a) b
  openPool : ∀ workers a b, like a b →
    (crew.openPool workers a).1 = (crew.openPool workers b).1 ∧
      like (crew.openPool workers a).2 (crew.openPool workers b).2
  submit : ∀ index task a b, like a b →
    (crew.submit index task a).1 = (crew.submit index task b).1 ∧
      like (crew.submit index task a).2 (crew.submit index task b).2
  memory : ∀ a b, like a b →
    (crew.memory a).1 = (crew.memory b).1 ∧ like (crew.memory a).2 (crew.memory b).2

/-- Two crews that run tasks in the program itself by one function, and stop pools alike. -/
structure Crew.Reorders (crew other : Crew σ) (answer : Task → Except FileError Outcome)
    (like : σ → σ → Prop) : Prop where
  left : ∀ world, crew.RunsBy answer (like · world)
  right : ∀ world, other.RunsBy answer (like world ·)
  arrangeLeft : ∀ taken, (crew.arrange taken).Perm taken
  arrangeRight : ∀ taken, (other.arrange taken).Perm taken
  alive : crew.alive = other.alive

/-- Two crews that differ in the order only in which the answers of a wave are taken. -/
structure Crew.Mirrors (crew other : Crew σ) (answer : Task → Except FileError Outcome)
    (like : σ → σ → Prop) : Prop extends Crew.Reorders crew other answer like where
  openPool : ∀ workers a b, like a b →
    (crew.openPool workers a).1 = (other.openPool workers b).1 ∧
      like (crew.openPool workers a).2 (other.openPool workers b).2
  submit : ∀ index task a b, like a b →
    (crew.submit index task a).1 = (other.submit index task b).1 ∧
      like (crew.submit index task a).2 (other.submit index task b).2
  memory : ∀ a b, like a b →
    (crew.memory a).1 = (other.memory b).1 ∧ like (crew.memory a).2 (other.memory b).2
  rests : crew.rests = other.rests

theorem Crew.IsBlind.mirrors {crew : Crew σ} {answer : Task → Except FileError Outcome}
    {like : σ → σ → Prop} (blind : crew.IsBlind answer like)
    {first second : List Assigned → List Assigned} (left : ∀ taken, (first taken).Perm taken)
    (right : ∀ taken, (second taken).Perm taken) :
    (crew.inOrder first).Mirrors (crew.inOrder second) answer like where
  left world := ⟨fun task a here => blind.run task a world here,
    fun line a here => blind.tell line a world here⟩
  right world := ⟨fun task b here =>
      (blind.run task b world (blind.symm _ _ here)).imp_right (blind.symm _ _),
    fun line b here => blind.symm _ _ (blind.tell line b world (blind.symm _ _ here))⟩
  arrangeLeft := left
  arrangeRight := right
  alive := rfl
  openPool := blind.openPool
  submit := blind.submit
  memory := blind.memory
  rests := rfl

namespace Dispatch

/-! ### Two steps side by side -/

/-- Two steps that both break off, or end in results that are related. -/
def Both {ε α β : Type} (related : α → β → Prop) : Except ε α → Except ε β → Prop
  | .ok a, .ok b => related a b
  | .error _, .error _ => True
  | _, _ => False

section Both
variable {ε α β γ δ : Type} {related : α → β → Prop} {first : Except ε α} {second : Except ε β}

theorem Both.bind {later : γ → δ → Prop} {next : α → Except ε γ} {after : β → Except ε δ}
    (both : Both related first second)
    (goesOn : ∀ a b, related a b → Both later (next a) (after b)) :
    Both later (first >>= next) (second >>= after) := by
  cases first with
  | ok a =>
    cases second with
    | ok b => exact goesOn a b both
    | error e => exact both.elim
  | error e =>
    cases second with
    | ok b => exact both.elim
    | error e => trivial

theorem Both.mono {later : α → β → Prop} (both : Both related first second)
    (weaker : ∀ a b, related a b → later a b) : Both later first second := by
  cases first with
  | ok a =>
    cases second with
    | ok b => exact weaker a b both
    | error e => exact both
  | error e => cases second <;> exact both

theorem Both.map {later : γ → δ → Prop} {f : α → γ} {g : β → δ}
    (both : Both related first second) (goesOn : ∀ a b, related a b → later (f a) (g b)) :
    Both later (first.map f) (second.map g) := by
  cases first with
  | ok a =>
    cases second with
    | ok b => exact goesOn a b both
    | error e => exact both.elim
  | error e =>
    cases second with
    | ok b => exact both.elim
    | error e => trivial

theorem Both.foldlM {related : α → β → Prop} {step : α → γ → Except ε α}
    {other : β → γ → Except ε β}
    (goesOn : ∀ a b item, related a b → Both related (step a item) (other b item))
    (items : List γ) {a : α} {b : β} (start : related a b) :
    Both related (items.foldlM step a) (items.foldlM other b) := by
  induction items generalizing a b with
  | nil => exact start
  | cons item rest ih =>
    rw [List.foldlM_cons, List.foldlM_cons]
    exact (goesOn a b item start).bind fun _ _ => ih

theorem Both.with_left {holds : α → Prop} (both : Both related first second)
    (ends : Ends True holds first) : Both (fun a b => related a b ∧ holds a) first second := by
  cases first with
  | ok a =>
    cases second with
    | ok b => exact ⟨both, ends⟩
    | error e => exact both
  | error e => cases second <;> exact both

/-- Two steps side by side, if the second one breaks off whenever the first does. -/
theorem Both.of_ends {fails : Prop} {holds : α → Prop} (left : Ends fails holds first)
    (stops : fails → Ends True (fun _ => False) second)
    (goesOn : ∀ a, holds a → Ends False (related a) second) : Both related first second := by
  cases first with
  | ok a =>
    have ends := goesOn a left
    cases second with
    | ok b => exact ends
    | error e => exact ends.elim
  | error e =>
    have ends := stops left
    cases second with
    | ok b => exact ends.elim
    | error e => trivial

end Both

/-! ### Runs side by side -/

/-- Two runs that differ at most in the order of the failures after those that are `kept`. -/
structure Shift.Alike (like : σ → σ → Prop) (kept : List Outcome) (s s' : Shift σ) : Prop where
  world : like s.world s'.world
  stats : DispatchStats.Alike kept s.stats s'.stats
  pools : s.pools = s'.pools
  events : s.events = s'.events

/-- Two waves that differ at most in the order of the outcomes, and of the failures. -/
structure Wave.Alike (like : σ → σ → Prop) (kept : List Outcome) (w w' : Wave σ) : Prop where
  outcomes : w.outcomes.Perm w'.outcomes
  healthy : w.healthy = w'.healthy
  shift : w.shift.Alike like kept w'.shift

variable {crew other : Crew σ} {answer : Task → Except FileError Outcome} {like : σ → σ → Prop}
  {kept : List Outcome} {s s' : Shift σ} {w w' : Wave σ}

theorem Shift.Alike.withWorld (alike : s.Alike like kept s') {world world' : σ}
    (here : like world world') :
    Shift.Alike like kept { s with world } { s' with world := world' } :=
  ⟨here, alike.stats, alike.pools, alike.events⟩

theorem Shift.Alike.record (alike : s.Alike like kept s') (e : Event) :
    (s.record e).Alike like kept (s'.record e) :=
  ⟨alike.world, alike.stats, alike.pools, congrArg (· ++ [e]) alike.events⟩

theorem Shift.Alike.count (alike : s.Alike like kept s')
    {change : DispatchStats → DispatchStats} {more : List Outcome}
    (adds : DispatchStats.Adds change more) :
    (s.count change).Alike like kept (s'.count change) :=
  ⟨alike.world, alike.stats.change adds, alike.pools, alike.events⟩

theorem Shift.Alike.of_counts (alike : s.Alike like kept s') {near near' : σ → Prop}
    {stats stats' : DispatchStats} {after after' : Shift σ}
    (left : s.Counts near stats after) (right : s'.Counts near' stats' after')
    (same : DispatchStats.Alike kept stats stats') (world : like after.world after'.world) :
    after.Alike like kept after' where
  world := world
  stats := by rwa [left.stats, right.stats]
  pools := left.pools.trans (alike.pools.trans right.pools.symm)
  events := left.events.trans (alike.events.trans right.events.symm)

theorem Shift.Alike.mode (alike : s.Alike like kept s') : s.stats.mode = s'.stats.mode :=
  show s.stats.unlisted.mode = s'.stats.unlisted.mode by rw [alike.stats.unlisted]

theorem downgrade_alike (reorders : crew.Reorders other answer like) (reason : String)
    (alike : s.Alike like kept s') :
    (downgrade crew reason s).Alike like kept (downgrade other reason s') := by
  have left := downgrade_counts (reorders.left _) reason s alike.world
  have right := downgrade_counts (reorders.right _) reason s' left.world
  exact alike.of_counts left right (alike.stats.change (DispatchStats.adds_giveUp reason)) right.world

theorem runInline_alike (reorders : crew.Reorders other answer like) (task : Task)
    (alike : s.Alike like kept s') :
    Both (fun r r' => r.1 = r'.1 ∧ r.2.Alike like kept r'.2) (runInline crew task s)
      (runInline other task s') := by
  refine .of_ends (runInline_counts (reorders.left _) task s alike.world) ?_ ?_
  · rintro ⟨e, refused⟩
    refine (runInline_counts (reorders.right _) task s' alike.world).mono (fun _ => trivial) ?_
    rintro ⟨outcome, after⟩ ⟨answered, -⟩
    rw [refused] at answered
    cases answered
  · rintro ⟨outcome, after⟩ ⟨answered, left⟩
    refine (runInline_counts (reorders.right _) task s' left.world).mono ?_ ?_
    · rintro ⟨e, refused⟩
      rw [refused] at answered
      cases answered
    · rintro ⟨outcome', after'⟩ ⟨answered', right⟩
      obtain rfl : outcome = outcome' := Except.ok.inj (answered.symm.trans answered')
      exact ⟨rfl, alike.of_counts left right
        (alike.stats.change (DispatchStats.adds_credit outcome)) right.world⟩

theorem fallBack_alike (reorders : crew.Reorders other answer like) (task : Task)
    (alike : s.Alike like kept s') :
    Both (fun r r' => r.1 = r'.1 ∧ r.2.Alike like kept r'.2) (fallBack crew task s)
      (fallBack other task s') :=
  runInline_alike reorders task (alike.count DispatchStats.adds_fallBack)

/-! ### Waves side by side -/

theorem retry_alike (reorders : crew.Reorders other answer like) (settings : DispatchSettings)
    (index : Nat) (task : Task) (status : TaskStatus) (error : String)
    (alike : w.Alike like kept w') :
    Both (Wave.Alike like kept) (w.retry crew settings index task status error)
      (w'.retry other settings index task status error) := by
  have left := recordFailure_counts (reorders.left _) settings task status error w.shift
    alike.shift.world
  have right := recordFailure_counts (reorders.right _) settings task status error w'.shift
    left.world
  have recorded := alike.shift.of_counts left right
    (alike.shift.stats.change (DispatchStats.adds_blame settings _)) right.world
  refine (fallBack_alike reorders task recorded).bind ?_
  rintro ⟨outcome, shift⟩ ⟨outcome', shift'⟩ ⟨rfl, same⟩
  exact ⟨alike.outcomes.append_right _, alike.healthy, same⟩

theorem submitAll_alike (mirrors : crew.Mirrors other answer like) (settings : DispatchSettings)
    (pool : Nat) (todo : List Numbered) (alike : w.Alike like kept w') :
    Both (fun r r' => r.1 = r'.1 ∧ r.2.Alike like kept r'.2)
      (submitAll crew settings pool todo w) (submitAll other settings pool todo w') := by
  induction todo generalizing w w' with
  | nil => exact ⟨rfl, alike⟩
  | cons t rest ih =>
    obtain ⟨index, task⟩ := t
    obtain ⟨same, world⟩ := mirrors.submit index task _ _ alike.shift.world
    unfold submitAll
    generalize crew.submit index task w.shift.world = submitted at same world
    generalize other.submit index task w'.shift.world = submitted' at same world
    obtain ⟨submission, next⟩ := submitted
    obtain ⟨submission', next'⟩ := submitted'
    obtain rfl : submission = submission' := same
    have handed : Wave.Alike like kept
        { w with shift := Shift.record { w.shift with world := next } (.submit pool index) }
        { w' with shift := Shift.record { w'.shift with world := next' } (.submit pool index) } :=
      ⟨alike.outcomes, alike.healthy, (alike.shift.withWorld world).record _⟩
    cases submission with
    | taken reply =>
      refine (ih handed).bind ?_
      rintro ⟨taken, after⟩ ⟨taken', after'⟩ ⟨rfl, ends⟩
      exact ⟨rfl, ends⟩
    | refused fatal reason =>
      refine (retry_alike mirrors.toReorders settings index task .failed _ handed).bind ?_
      intro after after' ends
      exact ih ⟨ends.outcomes, congrArg (· && !fatal) ends.healthy, ends.shift⟩

theorem takeAnswers_alike (reorders : crew.Reorders other answer like)
    (settings : DispatchSettings) {answered others : List Assigned} (perm : answered.Perm others)
    (done : ∀ a ∈ answered, Assigned.isDone a = true) (alike : w.Alike like kept w') :
    Both (Wave.Alike like kept) (answered.foldlM (takeAnswer crew settings) w)
      (others.foldlM (takeAnswer other settings) w') := by
  have done' : ∀ a ∈ others, Assigned.isDone a = true := fun a member =>
    done a (perm.mem_iff.mpr member)
  refine .of_ends (takeAnswers_takes (reorders.left _) settings done w alike.shift.world) ?_ ?_
  · rintro ⟨a, member, e, refused⟩
    refine (takeAnswers_takes (reorders.right _) settings done' w' alike.shift.world).mono
      (fun _ => trivial) fun after takes => ?_
    obtain ⟨outcome, answered⟩ := takes.tried a (perm.mem_iff.mp member)
    rw [refused] at answered
    cases answered
  · intro after left
    refine (takeAnswers_takes (reorders.right _) settings done' w' left.shift.world).mono ?_ ?_
    · rintro ⟨a, member, e, refused⟩
      obtain ⟨outcome, answered⟩ := left.tried a (perm.mem_iff.mpr member)
      rw [refused] at answered
      cases answered
    · intro after' right
      refine ⟨?_, ?_, alike.shift.of_counts left.shift right.shift ?_ right.shift.world⟩
      · rw [left.outcomes, right.outcomes]
        exact alike.outcomes.append (perm.flatMap_right _)
      · rw [left.healthy, right.healthy, alike.healthy, perm.any_eq]
      · exact alike.shift.stats.foldl_of_perm (Assigned.adds_change answer settings)
          (Assigned.commute_change answer settings) perm

theorem stopPool_alike (reorders : crew.Reorders other answer like) (pool : Nat)
    (alike : s.Alike like kept s') :
    (stopPool crew pool s).Alike like kept (stopPool other pool s') := by
  refine ⟨alike.world, alike.stats, alike.pools, ?_⟩
  rw [stopPool, stopPool, reorders.alive, alike.events]

theorem takeTimeout_alike (reorders : crew.Reorders other answer like)
    (settings : DispatchSettings) (a : Assigned) (alike : w.Alike like kept w') :
    Both (Wave.Alike like kept) (takeTimeout crew settings w a)
      (takeTimeout other settings w' a) := by
  have counts : DispatchStats.Adds
      (fun stats => { stats with timeouts := stats.timeouts + 1 }) [] :=
    ⟨fun _ => rfl, fun _ => (List.append_nil _).symm⟩
  exact retry_alike reorders settings a.index a.task .timedOut _
    ⟨alike.outcomes, alike.healthy, alike.shift.count counts⟩

theorem takeReplies_alike (reorders : crew.Reorders other answer like)
    (settings : DispatchSettings) (pool : Nat) (taken : List Assigned)
    (alike : w.Alike like kept w') :
    Both (Wave.Alike like kept) (takeReplies crew settings pool taken w)
      (takeReplies other settings pool taken w') := by
  have left := reorders.arrangeLeft (taken.filter Assigned.isDone)
  have right := reorders.arrangeRight (taken.filter Assigned.isDone)
  have done : ∀ a ∈ crew.arrange (taken.filter Assigned.isDone), Assigned.isDone a = true :=
    fun a member => (List.mem_filter.mp (left.mem_iff.mp member)).2
  unfold takeReplies
  refine (takeAnswers_alike reorders settings (left.trans right.symm) done alike).bind ?_
  intro next next' answered
  split
  · exact answered
  · have stopped : Wave.Alike like kept { next with shift := stopPool crew pool next.shift }
        { next' with shift := stopPool other pool next'.shift } :=
      ⟨answered.outcomes, answered.healthy, stopPool_alike reorders pool answered.shift⟩
    refine (Both.foldlM (fun _ _ a => takeTimeout_alike reorders settings a) _ stopped).bind ?_
    exact fun last last' ends => ⟨ends.outcomes, rfl, ends.shift⟩

/-! ### Numbers of a wave -/

theorem keys_retry (crew : Crew σ) (settings : DispatchSettings) (index : Nat) (task : Task)
    (status : TaskStatus) (error : String) (w : Wave σ) :
    Ends True (fun after => after.outcomes.map Prod.fst = w.outcomes.map Prod.fst ++ [index])
      (w.retry crew settings index task status error) := by
  unfold Wave.retry
  generalize fallBack crew task _ = step
  cases step with
  | error broken => trivial
  | ok result => exact List.map_append

theorem keys_takeAnswer (crew : Crew σ) (settings : DispatchSettings) (w : Wave σ) {a : Assigned}
    (done : Assigned.isDone a = true) :
    Ends True (fun after => after.outcomes.map Prod.fst = w.outcomes.map Prod.fst ++ [a.index])
      (takeAnswer crew settings w a) := by
  unfold takeAnswer
  split
  · rename_i silent
    simp [Assigned.isDone, silent] at done
  · exact keys_retry ..
  · split
    · exact List.map_append
    · exact keys_retry ..

theorem keys_takeTimeout (crew : Crew σ) (settings : DispatchSettings) (w : Wave σ)
    (a : Assigned) :
    Ends True (fun after => after.outcomes.map Prod.fst = w.outcomes.map Prod.fst ++ [a.index])
      (takeTimeout crew settings w a) :=
  keys_retry crew settings a.index a.task .timedOut _
    { w with shift := w.shift.count fun stats => { stats with timeouts := stats.timeouts + 1 } }

theorem keys_foldlM {step : Wave σ → Assigned → Except (Broken σ) (Wave σ)} (items : List Assigned)
    (adds : ∀ w, ∀ a ∈ items, Ends True
      (fun after : Wave σ => after.outcomes.map Prod.fst = w.outcomes.map Prod.fst ++ [a.index])
      (step w a)) (w : Wave σ) :
    Ends True (fun after : Wave σ =>
      after.outcomes.map Prod.fst = w.outcomes.map Prod.fst ++ items.map Assigned.index)
      (items.foldlM step w) := by
  induction items generalizing w with
  | nil => exact (List.append_nil _).symm
  | cons a rest ih =>
    rw [List.foldlM_cons]
    refine (adds w a (List.mem_cons_self ..)).bind fun next one => ?_
    refine (ih (fun w b member => adds w b (List.mem_cons_of_mem _ member)) next).mono id ?_
    intro after others
    rw [others, one, List.append_assoc]
    rfl

theorem keys_submitAll (crew : Crew σ) (settings : DispatchSettings) (pool : Nat)
    (todo : List Numbered) (w : Wave σ) :
    Ends True
      (fun (taken, after) => (after.outcomes.map Prod.fst ++ taken.map Assigned.index).Perm
        (w.outcomes.map Prod.fst ++ todo.map Prod.fst))
      (submitAll crew settings pool todo w) := by
  induction todo generalizing w with
  | nil => exact .refl _
  | cons t rest ih =>
    obtain ⟨index, task⟩ := t
    unfold submitAll
    generalize crew.submit index task w.shift.world = submitted
    obtain ⟨submission, world⟩ := submitted
    cases submission with
    | taken reply =>
      refine (ih _).bind ?_
      rintro ⟨taken, after⟩ perm
      exact List.perm_middle.trans ((perm.cons index).trans List.perm_middle.symm)
    | refused fatal reason =>
      refine (keys_retry ..).bind fun next one => ?_
      refine (ih _).mono id ?_
      rintro ⟨taken, after⟩ perm
      simp only [one, List.append_assoc] at perm
      exact perm

theorem keys_takeReplies {crew : Crew σ} (arrange : ∀ taken, (crew.arrange taken).Perm taken)
    (settings : DispatchSettings) (pool : Nat) (taken : List Assigned) (w : Wave σ) :
    Ends True
      (fun after => (after.outcomes.map Prod.fst).Perm
        (w.outcomes.map Prod.fst ++ taken.map Assigned.index))
      (takeReplies crew settings pool taken w) := by
  have arranged := arrange (taken.filter Assigned.isDone)
  have parts : (crew.arrange (taken.filter Assigned.isDone) ++
      taken.filter fun a => !Assigned.isDone a).Perm taken :=
    (arranged.append_right _).trans (List.filter_append_perm _ taken)
  have answers := keys_foldlM (crew.arrange (taken.filter Assigned.isDone))
    (fun w a member => keys_takeAnswer crew settings w
      (List.mem_filter.mp (arranged.mem_iff.mp member)).2) w
  unfold takeReplies
  refine answers.bind fun next one => ?_
  split
  · rename_i none
    rw [none, List.append_nil] at parts
    show (next.outcomes.map Prod.fst).Perm _
    rw [one]
    exact (parts.map Assigned.index).append_left _
  · have late := keys_foldlM (taken.filter fun a => !Assigned.isDone a)
      (fun w a _ => keys_takeTimeout crew settings w a)
      { next with shift := stopPool crew pool next.shift }
    refine late.bind fun last others => ?_
    show (last.outcomes.map Prod.fst).Perm _
    rw [others, one, List.append_assoc, ← List.map_append]
    exact (parts.map Assigned.index).append_left _

/-- Outcomes under different numbers are the same in whatever order they came. -/
theorem inOrder_of_perm (tasks : List Numbered) {outcomes others : List (Nat × Outcome)}
    (distinct : (outcomes.map Prod.fst).Nodup) (perm : outcomes.Perm others) :
    inOrder tasks outcomes = inOrder tasks others := by
  have distinct' : (others.map Prod.fst).Nodup := (perm.map Prod.fst).nodup_iff.mp distinct
  refine List.filterMap_congr fun t _ => congrArg (Option.map Prod.snd) ?_
  cases found : outcomes.find? fun entry => entry.1 == t.1 with
  | none =>
    refine (List.find?_eq_none.mpr fun entry member => ?_).symm
    exact List.find?_eq_none.mp found entry (perm.mem_iff.mpr member)
  | some entry =>
    have same : entry.1 = t.1 := by simpa using List.find?_some found
    have member := perm.mem_iff.mp (List.mem_of_find?_eq_some found)
    cases again : others.find? fun entry => entry.1 == t.1 with
    | none => exact absurd (by simpa using same) (List.find?_eq_none.mp again entry member)
    | some second =>
      have alsoSame : second.1 = t.1 := by simpa using List.find?_some again
      rw [List.inj_on_of_nodup_map distinct' member (List.mem_of_find?_eq_some again)
        (same.trans alsoSame.symm)]

/-! ### Waves -/

theorem runWave_of_taken {taken : List Assigned}
    (reorders : crew.Reorders other answer like) (settings : DispatchSettings) (pool : Nat)
    {tasks : List Numbered} (distinct : (tasks.map Prod.fst).Nodup)
    (keys : (w.outcomes.map Prod.fst ++ taken.map Assigned.index).Perm (tasks.map Prod.fst))
    (alike : w.Alike like kept w') :
    Both (fun r r' => r.1 = r'.1 ∧ r.2.Alike like kept r'.2)
      ((takeReplies crew settings pool taken w).map fun w =>
        ((inOrder tasks w.outcomes, w.healthy), w.shift))
      ((takeReplies other settings pool taken w').map fun w =>
        ((inOrder tasks w.outcomes, w.healthy), w.shift)) := by
  have ends := (takeReplies_alike reorders settings pool taken alike).with_left
    (keys_takeReplies reorders.arrangeLeft settings pool taken w)
  refine ends.map ?_
  intro after after' ⟨same, perm⟩
  have nodup := (perm.trans keys).nodup_iff.mpr distinct
  exact ⟨Prod.ext (inOrder_of_perm tasks nodup same.outcomes) same.healthy, same.shift⟩

theorem runWave_alike (mirrors : crew.Mirrors other answer like) (settings : DispatchSettings)
    (pool : Nat) {tasks : List Numbered} (distinct : (tasks.map Prod.fst).Nodup)
    (alike : s.Alike like kept s') :
    Both (fun r r' => r.1 = r'.1 ∧ r.2.Alike like kept r'.2)
      (runWave crew settings pool tasks s) (runWave other settings pool tasks s') := by
  have start : Wave.Alike like kept ⟨[], true, s⟩ ⟨[], true, s'⟩ := ⟨.refl _, rfl, alike⟩
  have submitted := (submitAll_alike mirrors settings pool tasks start).with_left
    (keys_submitAll crew settings pool tasks ⟨[], true, s⟩)
  refine submitted.bind ?_
  rintro ⟨taken, w⟩ ⟨taken', w'⟩ ⟨⟨rfl, same⟩, keys⟩
  dsimp only
  split
  · trivial
  · exact runWave_of_taken mirrors.toReorders settings pool distinct keys same

/-! ### Batches -/

theorem fallBackAll_alike (reorders : crew.Reorders other answer like) (tasks : List Numbered)
    (alike : s.Alike like kept s') :
    Both (fun r r' => r.1 = r'.1 ∧ r.2.Alike like kept r'.2) (fallBackAll crew tasks s)
      (fallBackAll other tasks s') := by
  induction tasks generalizing s s' with
  | nil => exact ⟨rfl, alike⟩
  | cons t rest ih =>
    refine (fallBack_alike reorders t.2 alike).bind ?_
    rintro ⟨outcome, next⟩ ⟨outcome', next'⟩ ⟨rfl, same⟩
    refine (ih same).bind ?_
    rintro ⟨outcomes, last⟩ ⟨outcomes', last'⟩ ⟨rfl, ends⟩
    exact ⟨rfl, ends⟩

theorem runAllInline_alike (reorders : crew.Reorders other answer like) (tasks : List Numbered)
    (alike : s.Alike like kept s') :
    Both (fun r r' => r.1 = r'.1 ∧ r.2.Alike like kept r'.2) (runAllInline crew tasks s)
      (runAllInline other tasks s') := by
  induction tasks generalizing s s' with
  | nil => exact ⟨rfl, alike⟩
  | cons t rest ih =>
    refine (runInline_alike reorders t.2 alike).bind ?_
    rintro ⟨outcome, next⟩ ⟨outcome', next'⟩ ⟨rfl, same⟩
    refine (ih same).bind ?_
    rintro ⟨outcomes, last⟩ ⟨outcomes', last'⟩ ⟨rfl, ends⟩
    exact ⟨rfl, ends⟩

theorem openPool_alike (mirrors : crew.Mirrors other answer like) (settings : DispatchSettings)
    (alike : s.Alike like kept s') :
    (openPool crew settings s).1 = (openPool other settings s').1 ∧
      (openPool crew settings s).2.Alike like kept (openPool other settings s').2 := by
  obtain ⟨same, world⟩ := mirrors.openPool settings.maxWorkers _ _ alike.world
  unfold openPool
  generalize crew.openPool settings.maxWorkers s.world = opened at same world
  generalize other.openPool settings.maxWorkers s'.world = opened' at same world
  obtain ⟨failure, next⟩ := opened
  obtain ⟨failure', next'⟩ := opened'
  obtain rfl : failure = failure' := same
  have asked : Shift.Alike like kept
      (Shift.record { s with world := next, pools := s.pools + 1 }
        (.pool s.pools settings.maxWorkers))
      (Shift.record { s' with world := next', pools := s'.pools + 1 }
        (.pool s'.pools settings.maxWorkers)) := by
    have counted : Shift.Alike like kept { s with world := next, pools := s.pools + 1 }
        { s' with world := next', pools := s'.pools + 1 } :=
      ⟨world, alike.stats, congrArg (· + 1) alike.pools, alike.events⟩
    have event : Event.pool s'.pools settings.maxWorkers = .pool s.pools settings.maxWorkers := by
      rw [alike.pools]
    rw [event]
    exact counted.record _
  cases failure with
  | none => exact ⟨congrArg some alike.pools, asked⟩
  | some reason =>
    have told := (mirrors.right _).tell (.warning ("Cannot start worker pool: " ++ reason)) _
      ((mirrors.left _).tell (.warning ("Cannot start worker pool: " ++ reason)) _ world)
    exact ⟨rfl, downgrade_alike mirrors.toReorders _ (asked.withWorld told)⟩

theorem replacePool_alike (mirrors : crew.Mirrors other answer like) (settings : DispatchSettings)
    (pool : Nat) (alike : s.Alike like kept s') :
    (replacePool crew settings pool s).1 = (replacePool other settings pool s').1 ∧
      (replacePool crew settings pool s).2.Alike like kept
        (replacePool other settings pool s').2 := by
  have stopped := stopPool_alike mirrors.toReorders pool alike
  unfold replacePool
  simp only [stopped.mode]
  split
  · exact openPool_alike mirrors settings stopped
  · exact ⟨rfl, stopped⟩

theorem closePool_alike (pool : Option Nat) (alike : s.Alike like kept s') :
    (closePool pool s).Alike like kept (closePool pool s') := by
  cases pool with
  | none => exact alike
  | some number => exact alike.record _

theorem runAnywhere_alike (mirrors : crew.Mirrors other answer like) (settings : DispatchSettings)
    {tasks : List Numbered} (distinct : (tasks.map Prod.fst).Nodup) (pool : Option Nat)
    (alike : s.Alike like kept s') :
    Both (fun r r' => r.1 = r'.1 ∧ r.2.Alike like kept r'.2)
      (runAnywhere crew settings tasks pool s) (runAnywhere other settings tasks pool s') := by
  unfold runAnywhere
  rw [alike.mode]
  split
  · rename_i number _
    refine (runWave_alike mirrors settings number distinct alike).bind ?_
    rintro ⟨⟨outcomes, healthy⟩, next⟩ ⟨⟨outcomes', healthy'⟩, next'⟩ ⟨equal, same⟩
    obtain ⟨rfl, rfl⟩ := Prod.mk.inj equal
    cases healthy with
    | true => exact ⟨rfl, same⟩
    | false =>
      obtain ⟨pools, ends⟩ := replacePool_alike mirrors settings number same
      exact ⟨Prod.ext rfl pools, ends⟩
  · refine (fallBackAll_alike mirrors.toReorders tasks alike).bind ?_
    rintro ⟨outcomes, next⟩ ⟨outcomes', next'⟩ ⟨rfl, same⟩
    exact ⟨rfl, same⟩

theorem runWaves_alike (mirrors : crew.Mirrors other answer like) (settings : DispatchSettings)
    {waves : List (List Numbered)} (distinct : ∀ tasks ∈ waves, (tasks.map Prod.fst).Nodup)
    (pool : Option Nat) (alike : s.Alike like kept s') :
    Both (fun r r' => r.1 = r'.1 ∧ r.2.Alike like kept r'.2)
      (runWaves crew settings waves pool s) (runWaves other settings waves pool s') := by
  induction waves generalizing pool s s' with
  | nil => exact ⟨rfl, alike⟩
  | cons tasks rest ih =>
    rw [List.forall_mem_cons] at distinct
    have both := runAnywhere_alike mirrors settings distinct.1 pool alike
    unfold runWaves
    generalize runAnywhere crew settings tasks pool s = step at both
    generalize runAnywhere other settings tasks pool s' = step' at both
    cases step with
    | error broken =>
      cases step' with
      | error broken' => trivial
      | ok result' => exact both.elim
    | ok result =>
      cases step' with
      | error broken' => exact both.elim
      | ok result' =>
        obtain ⟨⟨outcomes, next⟩, after⟩ := result
        obtain ⟨⟨outcomes', next'⟩, after'⟩ := result'
        obtain ⟨equal, same⟩ := both
        obtain ⟨rfl, rfl⟩ := Prod.mk.inj equal
        refine (ih distinct.2 next same).bind ?_
        rintro ⟨⟨others, last⟩, ends⟩ ⟨⟨others', last'⟩, ends'⟩ ⟨equal, same⟩
        obtain ⟨rfl, rfl⟩ := Prod.mk.inj equal
        exact ⟨rfl, same⟩

theorem runBatch_alike (mirrors : crew.Mirrors other answer like) (settings : DispatchSettings)
    {tasks : List Numbered} (distinct : (tasks.map Prod.fst).Nodup)
    (alike : s.Alike like kept s') :
    Both (fun r r' => r.1 = r'.1 ∧ r.2.Alike like kept r'.2) (runBatch crew settings tasks s)
      (runBatch other settings tasks s') := by
  obtain ⟨pool, opened⟩ := openPool_alike mirrors settings alike
  unfold runBatch
  generalize openPool crew settings s = first at pool opened
  generalize openPool other settings s' = second at pool opened
  obtain ⟨number, next⟩ := first
  obtain ⟨number', next'⟩ := second
  obtain rfl : number = number' := pool
  cases groups : groups? settings.maxWorkers tasks with
  | none => trivial
  | some waves =>
    have apart : ∀ wave ∈ waves, (wave.map Prod.fst).Nodup := by
      intro wave member
      unfold groups? at groups
      split at groups
      · cases groups
      · obtain rfl := Option.some.inj groups
        exact distinct.sublist ((sublist_of_mem_groupsOf member).map Prod.fst)
    refine (runWaves_alike mirrors settings apart number opened).bind ?_
    rintro ⟨⟨outcomes, last⟩, after⟩ ⟨⟨outcomes', last'⟩, after'⟩ ⟨equal, same⟩
    obtain ⟨rfl, rfl⟩ := Prod.mk.inj equal
    exact ⟨rfl, closePool_alike last same⟩

theorem checkMemory_alike (mirrors : crew.Mirrors other answer like) (settings : DispatchSettings)
    (moment : String) (alike : s.Alike like kept s') :
    Both (Shift.Alike like kept) (checkMemory crew settings moment s)
      (checkMemory other settings moment s') := by
  obtain ⟨same, world⟩ := mirrors.memory _ _ alike.world
  unfold checkMemory
  generalize crew.memory s.world = reading at same world
  generalize other.memory s'.world = reading' at same world
  obtain ⟨share, next⟩ := reading
  obtain ⟨share', next'⟩ := reading'
  obtain rfl : share = share' := same
  have read := (alike.withWorld world).record (.memory share)
  dsimp only
  split
  · exact read
  · split
    · exact (downgrade_alike mirrors.toReorders _ read).record _
    · trivial

theorem runInMode_alike (mirrors : crew.Mirrors other answer like) (settings : DispatchSettings)
    {tasks : List Numbered} (distinct : (tasks.map Prod.fst).Nodup)
    (alike : s.Alike like kept s') :
    Both (fun r r' => r.1 = r'.1 ∧ r.2.Alike like kept r'.2) (runInMode crew settings tasks s)
      (runInMode other settings tasks s') := by
  have counts : DispatchStats.Adds (fun stats => { stats with batches := stats.batches + 1 }) [] :=
    ⟨fun _ => rfl, fun _ => (List.append_nil _).symm⟩
  have counted := alike.count counts
  unfold runInMode
  simp only [counted.mode]
  split
  · refine (checkMemory_alike mirrors settings "before batch" counted).bind fun next next' same => ?_
    simp only [same.mode]
    split
    · refine (runBatch_alike mirrors settings distinct same).bind ?_
      rintro ⟨outcomes, after⟩ ⟨outcomes', after'⟩ ⟨rfl, ends⟩
      refine (checkMemory_alike mirrors settings "after batch" ends).bind fun last last' kept => ?_
      exact ⟨rfl, kept⟩
    · exact runAllInline_alike mirrors.toReorders tasks same
  · exact runAllInline_alike mirrors.toReorders tasks counted

theorem pauseBetween_alike (mirrors : crew.Mirrors other answer like) (settings : DispatchSettings)
    (alike : s.Alike like kept s') :
    Both (Shift.Alike like kept) (pauseBetween crew settings s)
      (pauseBetween other settings s') := by
  unfold pauseBetween
  rw [mirrors.rests]
  split
  · exact alike
  · split
    · trivial
    · exact alike.record _

theorem runBatches_alike (mirrors : crew.Mirrors other answer like) (settings : DispatchSettings)
    (first : Bool) {batches : List (List Numbered)}
    (distinct : ∀ tasks ∈ batches, (tasks.map Prod.fst).Nodup) (alike : s.Alike like kept s') :
    Both (fun r r' => r.1 = r'.1 ∧ r.2.Alike like kept r'.2)
      (runBatches crew settings first batches s) (runBatches other settings first batches s') := by
  induction batches generalizing first s s' with
  | nil => exact ⟨rfl, alike⟩
  | cons tasks rest ih =>
    rw [List.forall_mem_cons] at distinct
    have pause : Both (Shift.Alike like kept)
        (if first then (.ok s : Except (Broken σ) (Shift σ)) else pauseBetween crew settings s)
        (if first then .ok s' else pauseBetween other settings s') := by
      cases first with
      | true => exact alike
      | false => exact pauseBetween_alike mirrors settings alike
    rw [runBatches_cons, runBatches_cons]
    refine pause.bind fun next next' same => ?_
    refine (runInMode_alike mirrors settings distinct.1 same).bind ?_
    rintro ⟨outcomes, after⟩ ⟨outcomes', after'⟩ ⟨rfl, ends⟩
    refine (ih false distinct.2 ends).bind ?_
    rintro ⟨others, last⟩ ⟨others', last'⟩ ⟨rfl, same⟩
    exact ⟨rfl, same⟩

/-! ### Runs -/

theorem outcomes_alike (mirrors : crew.Mirrors other answer like) (settings : DispatchSettings)
    (tasks : List Task) (alike : s.Alike like kept s') :
    Both (fun r r' => r.1 = r'.1 ∧ r.2.Alike like kept r'.2) (outcomes crew settings tasks s)
      (outcomes other settings tasks s') := by
  unfold outcomes
  cases groups : groups? settings.batchSize (number 0 tasks) with
  | none => trivial
  | some batches =>
    refine runBatches_alike mirrors settings true ?_ alike
    intro batch member
    unfold groups? at groups
    split at groups
    · cases groups
    · obtain rfl := Option.some.inj groups
      exact (nodup_number 0 tasks).sublist ((sublist_of_mem_groupsOf member).map Prod.fst)

theorem submitAll_inOrder (crew : Crew σ) (order : List Assigned → List Assigned)
    (settings : DispatchSettings) (pool : Nat) (todo : List Numbered) (w : Wave σ) :
    submitAll (crew.inOrder order) settings pool todo w = submitAll crew settings pool todo w := by
  induction todo generalizing w with
  | nil => rfl
  | cons t rest ih =>
    unfold submitAll
    simp only [ih]
    rfl

theorem failures_submitAll (runs : crew.RunsBy answer fun _ => True) (settings : DispatchSettings)
    (pool : Nat) (todo : List Numbered) (w : Wave σ) :
    Ends True
      (fun (_, after) => ∃ more, after.shift.stats.failures = w.shift.stats.failures ++ more)
      (submitAll crew settings pool todo w) := by
  induction todo generalizing w with
  | nil => exact ⟨[], (List.append_nil _).symm⟩
  | cons t rest ih =>
    obtain ⟨index, task⟩ := t
    unfold submitAll
    generalize crew.submit index task w.shift.world = submitted
    obtain ⟨submission, world⟩ := submitted
    cases submission with
    | taken reply =>
      refine (ih _).bind ?_
      exact fun _ more => more
    | refused fatal reason =>
      refine ((Wave.retry_gains runs settings index task .failed _ _ trivial).mono
        (fun _ => trivial) fun _ => id).bind ?_
      rintro next ⟨outcome, -, gained⟩
      refine (ih _).mono id ?_
      rintro ⟨taken, after⟩ ⟨more, added⟩
      refine ⟨[⟨task.path, .failed, [], some ("submit failed: " ++ reason)⟩] ++ more, ?_⟩
      rw [added]
      show next.shift.stats.failures ++ more = _
      rw [gained.shift.stats, (DispatchStats.adds_retry settings _ outcome).failures,
        List.append_assoc]
      rfl

/-- What two runs of one wave have in common: the results, whether the pool is still good, the
counters but for the order of the failures after those that are `kept`, and all events. -/
def EndAlike {α : Type} (kept : List Outcome) (r r' : α × Shift σ) : Prop :=
  r.1 = r'.1 ∧ DispatchStats.Alike kept r.2.stats r'.2.stats ∧ r.2.pools = r'.2.pools ∧
    r.2.events = r'.2.events

theorem runWave_inOrder {first second : List Assigned → List Assigned}
    (left : ∀ taken, (first taken).Perm taken) (right : ∀ taken, (second taken).Perm taken)
    (runs : ∀ task world, (crew.run task world).1 = answer task) (settings : DispatchSettings)
    (pool : Nat) {tasks : List Numbered} (distinct : (tasks.map Prod.fst).Nodup) (s : Shift σ) :
    Both (EndAlike s.stats.failures) (runWave (crew.inOrder first) settings pool tasks s)
      (runWave (crew.inOrder second) settings pool tasks s) := by
  have runsBy : crew.RunsBy answer fun _ => True :=
    ⟨fun task world _ => ⟨runs task world, trivial⟩, fun _ _ _ => trivial⟩
  have reorders : (crew.inOrder first).Reorders (crew.inOrder second) answer fun _ _ => True :=
    ⟨fun _ => ⟨runsBy.run, runsBy.tell⟩, fun _ => ⟨runsBy.run, runsBy.tell⟩, left, right, rfl⟩
  have keys := keys_submitAll crew settings pool tasks ⟨[], true, s⟩
  have added := failures_submitAll runsBy settings pool tasks ⟨[], true, s⟩
  unfold runWave
  rw [submitAll_inOrder, submitAll_inOrder]
  generalize submitAll crew settings pool tasks ⟨[], true, s⟩ = submitted at keys added
  cases submitted with
  | error broken => trivial
  | ok result =>
    obtain ⟨taken, w⟩ := result
    obtain ⟨more, added⟩ := added
    have same : Wave.Alike (fun _ _ => True) s.stats.failures w w :=
      ⟨.refl _, rfl, trivial, ⟨rfl, more, more, added, added, .refl _⟩, rfl, rfl⟩
    simp only [bind, Except.bind]
    split
    · trivial
    · refine (runWave_of_taken reorders settings pool distinct keys same).mono ?_
      exact fun _ _ ⟨equal, ends⟩ => ⟨equal, ends.stats, ends.pools, ends.events⟩

/-- The order in which the answers of a wave are taken changes neither what the wave ends with nor
what the run does, except for the order of the failures. -/
theorem independent_of_order {first second : List Assigned → List Assigned}
    (left : ∀ taken, (first taken).Perm taken) (right : ∀ taken, (second taken).Perm taken) :
    ((∀ task world, (crew.run task world).1 = answer task) →
      ∀ settings pool tasks s, (tasks.map Prod.fst).Nodup →
        Both (EndAlike s.stats.failures) (runWave (crew.inOrder first) settings pool tasks s)
          (runWave (crew.inOrder second) settings pool tasks s)) ∧
    (crew.IsBlind answer like → ∀ settings tasks pools world, like world world →
      (process (crew.inOrder first) settings tasks pools world).1.toOption =
          (process (crew.inOrder second) settings tasks pools world).1.toOption ∧
        ∀ chunks, (process (crew.inOrder first) settings tasks pools world).1 = .ok chunks →
          EndAlike [] (process (crew.inOrder first) settings tasks pools world)
            (process (crew.inOrder second) settings tasks pools world)) := by
  refine ⟨fun runs settings pool tasks s distinct =>
    runWave_inOrder left right runs settings pool distinct s, ?_⟩
  intro blind settings tasks pools world here
  have started : Shift.Alike like [] (start settings pools world) (start settings pools world) :=
    ⟨here, DispatchStats.Alike.refl (start settings pools world).stats, rfl, rfl⟩
  have both := outcomes_alike (blind.mirrors left right) settings tasks started
  unfold process
  generalize outcomes (crew.inOrder first) settings tasks _ = step at both
  generalize outcomes (crew.inOrder second) settings tasks _ = step' at both
  cases step with
  | error broken =>
    cases step' with
    | error broken' => exact ⟨rfl, fun _ done => by cases done⟩
    | ok result' => exact both.elim
  | ok result =>
    cases step' with
    | error broken' => exact both.elim
    | ok result' =>
      obtain ⟨outcomes, after⟩ := result
      obtain ⟨outcomes', after'⟩ := result'
      obtain ⟨rfl, same⟩ := both
      exact ⟨rfl, fun _ _ => ⟨rfl, same.stats, same.pools, same.events⟩⟩

/-- A crew whose workers all crash, each for a reason of its own. -/
def crashingCrew : Crew Unit where
  run task _ := (.ok ⟨task.path, .succeeded, [], none⟩, ())
  openPool _ _ := (none, ())
  submit _ task _ := (.taken (.crashed false task.path), ())
  arrange taken := taken
  alive := []
  memory _ := (.real .zero, ())
  rests := false
  tell _ _ := ()

/-- Two workers crash, and only the list of failures tells which one was heard of first. -/
theorem independent_of_order_reversed :
    let settings : DispatchSettings := { concurrent := true, maxWorkers := 2, maxFailures := 1 }
    let tasks : List Task := [⟨"a", "", some "", false, none⟩, ⟨"b", "", some "", false, none⟩]
    let forwards := process (crashingCrew.inOrder id) settings tasks 0 ()
    let backwards := process (crashingCrew.inOrder List.reverse) settings tasks 0 ()
    forwards.1.toOption = backwards.1.toOption ∧ EndAlike [] forwards backwards ∧
      forwards.2.stats.downgradeReason = some "2 worker failures exceeded limit 1" ∧
      forwards.2.stats.failures ≠ backwards.2.stats.failures := by
  intro settings tasks forwards backwards
  have blind : crashingCrew.IsBlind (fun task => .ok ⟨task.path, .succeeded, [], none⟩)
      fun _ _ => True := by
    constructor <;> simp [crashingCrew]
  obtain ⟨same, ends⟩ := (independent_of_order (fun taken => .refl taken)
    List.reverse_perm).2 blind settings tasks 0 () trivial
  refine ⟨same, ends [] (by decide +kernel), by decide +kernel, by decide +kernel⟩

end Dispatch
end SourceIndex
