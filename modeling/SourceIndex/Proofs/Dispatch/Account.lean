import SourceIndex.Proofs.Dispatch.Conduct
import SourceIndex.Proofs.Dispatch.Counters
/-!
# What the counters tell

The counters of a run account for all of its tasks and failures. A failure is counted in steps, one
counter after the other, so that at a moment in between a counter may be ahead of the next one by
what is still due.
-/

namespace SourceIndex.Dispatch
variable {σ : Type} {crew : Crew σ} {settings : DispatchSettings}

/-! ### Tallies -/

/-- The task of a deed, if it is run in the program itself and its outcome is a failure. -/
def Deed.failed (crew : Crew σ) (s : Shift σ) : Deed → List Numbered
  | .run index task =>
    match (crew.run task s.world).1 with
    | .ok outcome => if outcome.status = .succeeded then [] else [(index, task)]
    | .error _ => []
  | _ => []

/-- The tasks that are run in the program itself with a failure for an outcome. -/
def failedRuns (crew : Crew σ) (settings : DispatchSettings) :
    List Deed → Shift σ → List Numbered :=
  gather crew settings (Deed.failed crew)

def Due.timeouts : Due → Nat
  | late _ => 1
  | _ => 0

/-- The failures that are recorded before their task is left to the program itself. -/
def Due.failures : Due → Nat
  | blamed _ => 1
  | _ => 0

/-- The tasks that are left to the program itself before it runs them. -/
def Due.fallbacks : Due → Nat
  | fallen _ => 1
  | _ => 0

/-- Counters that add up, for a run that has come so far with these `bad` runs of tasks. -/
structure Tallies (all : Multiset Numbered) (groups : Nat) (bad : List Numbered) (g : Stage)
    (stats : DispatchStats) : Prop where
  done : stats.processed + stats.failed + g.todo.card = all.card
  failed : stats.failed = bad.length
  apart : ↑bad + g.todo ≤ all
  listed : stats.workerFailures = stats.failures.length
  timeouts : stats.timeouts ≤ stats.workerFailures + g.due.timeouts
  failures : stats.workerFailures ≤ stats.fallbacks + g.due.failures
  fallbacks : stats.fallbacks + g.todo.card ≤ all.card + g.due.fallbacks
  pending : g.due.fallbacks ≤ g.todo.card
  batches : stats.batches + g.batches = groups

variable {all : Multiset Numbered} {groups : Nat} {bad : List Numbered} {g next : Stage}
  {s : Shift σ} {stats : DispatchStats}

/-- The mode and the reason for it do not matter. -/
theorem Tallies.of_bare (tallies : Tallies all groups bad g stats) {other : DispatchStats}
    (same : other.bare = stats.bare) : Tallies all groups bad g other := by
  have bare : Tallies all groups bad g stats.bare :=
    ⟨tallies.done, tallies.failed, tallies.apart, tallies.listed, tallies.timeouts,
      tallies.failures, tallies.fallbacks, tallies.pending, tallies.batches⟩
  rw [← same] at bare
  exact ⟨bare.done, bare.failed, bare.apart, bare.listed, bare.timeouts, bare.failures,
    bare.fallbacks, bare.pending, bare.batches⟩

/-- A task that is not to be done any more is counted as done, well or badly. -/
theorem Tallies.credit (tallies : Tallies all groups bad g stats) {t : Numbered}
    {rest : Multiset Numbered} (todo : g.todo = t ::ₘ rest)
    (ready : g.due.timeouts = 0 ∧ g.due.failures = 0) (outcome : Outcome) :
    Tallies all groups (bad ++ if outcome.status = .succeeded then [] else [t])
      { g with todo := rest, due := .nothing } (stats.credit outcome) := by
  have card : g.todo.card = rest.card + 1 := by rw [todo, Multiset.card_cons]
  obtain ⟨done, failed, apart, listed, timeouts, failures, fallbacks, pending, batches⟩ := tallies
  rw [todo, Multiset.add_cons] at apart
  have few : g.due.fallbacks ≤ 1 := by cases g.due <;> simp [Due.fallbacks]
  unfold DispatchStats.credit
  split
  · rw [List.append_nil]
    refine ⟨?_, failed, (Multiset.le_cons_self _ _).trans apart, listed, ?_, ?_, ?_,
      Nat.zero_le _, batches⟩
    all_goals simp only [Due.timeouts, Due.failures, Due.fallbacks]
    all_goals omega
  · refine ⟨?_, ?_, ?_, listed, ?_, ?_, ?_, Nat.zero_le _, batches⟩
    case refine_3 =>
      rw [← Multiset.coe_add, Multiset.coe_singleton, Multiset.add_assoc, Multiset.singleton_add,
        Multiset.add_cons]
      exact apart
    all_goals simp only [Due.timeouts, Due.failures, Due.fallbacks, List.length_append,
      List.length_singleton]
    all_goals omega

theorem Tallies.step (tallies : Tallies all groups bad g s.stats) {deed : Deed}
    (allowed : Allows crew settings s g deed next) :
    Tallies all groups (bad ++ deed.failed crew s) next (deed.counted crew s) := by
  have nothing : bad ++ [] = bad := List.append_nil bad
  -- What a deed counts ahead of another counter is what it makes due, and what it does was due.
  cases allowed with
  | accept index task rest idle todo =>
    have credit := tallies.credit todo (by simp [idle, Due.timeouts, Due.failures])
      ⟨"", .succeeded, [], none⟩
    rw [← idle] at credit
    exact credit
  | run index task rest outcome ready todo tried =>
    have settled : g.due.timeouts = 0 ∧ g.due.failures = 0 := by
      rcases ready with due | due <;> simp [due, Due.timeouts, Due.failures]
    have credit := tallies.credit todo settled outcome
    simp only [Deed.failed, Deed.counted, tried]
    exact credit
  | refuse index task e refused =>
    simp only [Deed.failed, Deed.counted, refused, List.append_nil]
    exact tallies
  | beginBatch left begins =>
    have batches := tallies.batches
    refine nothing.symm ▸ ⟨tallies.done, tallies.failed, tallies.apart, tallies.listed,
      tallies.timeouts, tallies.failures, tallies.fallbacks, tallies.pending, ?_⟩
    simp only [Deed.counted]
    omega
  | timeOut index idle =>
    obtain ⟨done, failed, apart, listed, timeouts, failures, fallbacks, pending, batches⟩ := tallies
    rw [idle] at timeouts failures fallbacks
    refine nothing.symm ▸ ⟨done, failed, apart, listed, ?_, failures, fallbacks, Nat.zero_le _,
      batches⟩
    exact Nat.succ_le_succ timeouts
  | blame index task status error left ready slack =>
    obtain ⟨done, failed, apart, listed, timeouts, failures, fallbacks, pending, batches⟩ := tallies
    refine nothing.symm ▸ ⟨done, failed, apart, ?_, ?_, ?_, ?_, Nat.zero_le _, batches⟩
    · simpa [Deed.counted] using listed
    all_goals
      rcases ready with due | due <;>
      simp only [due, Deed.counted, Due.timeouts, Due.failures, Due.fallbacks] at * <;>
      omega
  | fallBack index ready todo =>
    obtain ⟨done, failed, apart, listed, timeouts, failures, fallbacks, pending, batches⟩ := tallies
    obtain ⟨task, among⟩ := todo
    have some : 0 < g.todo.card := Multiset.card_pos_iff_exists_mem.mpr ⟨_, among⟩
    refine nothing.symm ▸ ⟨done, failed, apart, listed, ?_, ?_, ?_, some, batches⟩
    all_goals
      rcases ready with due | due <;>
      simp only [due, Deed.counted, Due.timeouts, Due.failures, Due.fallbacks] at * <;>
      omega
  | _ =>
    exact nothing.symm ▸ ⟨tallies.done, tallies.failed, tallies.apart, tallies.listed,
      tallies.timeouts, tallies.failures, tallies.fallbacks, tallies.pending, tallies.batches⟩

/-! ### Reasons -/

/-- Counters that give a reason for sequential mode if that was not asked for. -/
structure IsExplained (settings : DispatchSettings) (stats : DispatchStats) : Prop where
  asked : stats.mode = .concurrent → settings.concurrent = true
  reason : stats.downgradeReason.isSome = true ↔
    settings.concurrent = true ∧ stats.mode = .sequential

theorem IsExplained.giveUp (explained : IsExplained settings stats) (reason : String) :
    IsExplained settings (stats.giveUp reason) := by
  unfold DispatchStats.giveUp
  split
  · exact explained
  · rename_i concurrent
    have asked : settings.concurrent = true := by
      refine explained.asked ?_
      cases mode : stats.mode with
      | sequential => exact absurd mode concurrent
      | concurrent => rfl
    exact ⟨fun _ => asked, fun _ => ⟨asked, rfl⟩, fun _ => rfl⟩

theorem IsExplained.act (explained : IsExplained settings s.stats) (deed : Deed) :
    IsExplained settings (deed.act crew settings s).stats := by
  obtain ⟨mode, reason⟩ := mode_counted crew s deed
  have counted : IsExplained settings (deed.counted crew s) :=
    ⟨mode ▸ explained.asked, by rw [mode, reason]; exact explained.reason⟩
  rcases act_stays crew settings s deed with same | ⟨reason, same⟩
  · rwa [same]
  · rw [same]
    exact counted.giveUp reason

theorem isExplained_start (settings : DispatchSettings) (pools : Nat) (world : σ) :
    IsExplained settings (start settings pools world).stats := by
  cases asked : settings.concurrent <;>
    constructor <;> simp [start, DispatchSettings.mode, asked]

/-! ### Runs -/

/-- A run, some deeds after `first`, whose counters account for what was done. -/
structure IsAccounted (crew : Crew σ) (settings : DispatchSettings) (tasks : List Task)
    (first : Shift σ) (past : List Deed) (g : Stage) (s : Shift σ) : Prop where
  here : replay crew settings past first = s
  tallies : Tallies (number 0 tasks) (Stage.opening settings tasks).batches
    (failedRuns crew settings past first) g s.stats
  explained : IsExplained settings s.stats

theorem IsAccounted.step {tasks : List Task} {first : Shift σ} {past : List Deed} {deed : Deed}
    (accounted : IsAccounted crew settings tasks first past g s)
    (allowed : Allows crew settings s g deed next) :
    IsAccounted crew settings tasks first (past ++ [deed]) next (deed.act crew settings s) := by
  obtain ⟨here, tallies, explained⟩ := accounted
  refine ⟨by rw [replay_append, here]; rfl, ?_, explained.act deed⟩
  have more := (tallies.step allowed).of_bare (bare_act crew settings s deed)
  rwa [failedRuns, gather_append_single, here]

theorem isAccounted_start (settings : DispatchSettings) (tasks : List Task) (pools : Nat)
    (world : σ) :
    IsAccounted crew settings tasks (start settings pools world) [] (.opening settings tasks)
      (start settings pools world) := by
  refine ⟨rfl, ?_, isExplained_start settings pools world⟩
  constructor <;> simp [start, Stage.opening, failedRuns, gather, Due.fallbacks]

/-- The counters of a run, whatever its workers do. Those of failures add up also if it breaks off;
then there is a cause for that. A run that does not break off counts each task and each batch
once. -/
theorem stats_account (crew : Crew σ) (settings : DispatchSettings)
    (arranges : ∀ taken, (crew.arrange taken).Perm taken)
    (batch : 0 < settings.batchSize) (workers : 0 < settings.maxWorkers) (tasks : List Task)
    (pools : Nat) (world : σ) :
    let course := Course.process crew settings tasks pools world
    let first := start settings pools world
    let run := process crew settings tasks pools world
    let stats := run.2.stats
    let failed := failedRuns crew settings course first
    replay crew settings course first = run.2 ∧
      stats.workerFailures = stats.failures.length ∧
      stats.timeouts ≤ stats.workerFailures ∧
      stats.workerFailures ≤ stats.fallbacks ∧ stats.fallbacks ≤ tasks.length ∧
      stats.failed = failed.length ∧ failed.Subperm (number 0 tasks) ∧
      (stats.downgradeReason.isSome = true ↔
        settings.concurrent = true ∧ stats.mode = .sequential) ∧
      match run.1 with
      | .ok _ => stats.processed + stats.failed = tasks.length ∧
          stats.batches = (tasks.length + settings.batchSize.toNat - 1) / settings.batchSize.toNat
      | .error error => Cause crew settings first course error := by
  intro course first run stats failed
  obtain ⟨last, goes, -, settled, ends⟩ := process_goes arranges batch workers tasks pools world
  have count : (number 0 tasks).length = tasks.length := by
    rw [← List.length_map (f := Prod.snd), map_snd_number]
  obtain ⟨here, tallies, explained⟩ :=
    goes.keeps_past (fun _ _ _ _ _ accounted => accounted.step)
      (isAccounted_start settings tasks pools world)
  have punctual : last.due.timeouts = 0 ∧ last.due.failures = 0 := by
    cases due : last.due with
    | late index => exact absurd due (settled index).1
    | blamed index => exact absurd due (settled index).2
    | _ => exact ⟨rfl, rfl⟩
  obtain ⟨done, failedOnes, apart, listed, timeouts, failures, fallbacks, pending, batches⟩ :=
    tallies
  rw [punctual.1] at timeouts
  rw [punctual.2] at failures
  rw [Multiset.coe_card, count] at done fallbacks
  have few : stats.fallbacks ≤ tasks.length := by
    change stats.fallbacks + last.todo.card ≤ _ at fallbacks
    omega
  refine ⟨here, listed, timeouts, failures, few, failedOnes, ?_, explained.reason, ?_⟩
  · exact Multiset.coe_le.mp ((Multiset.le_add_right _ _).trans apart)
  · change match run.1 with | .ok _ => _ | .error error => _ at ends
    revert ends
    cases run.1 with
    | error error => exact id
    | ok chunks =>
      rintro ⟨none, begun⟩
      rw [none, Multiset.card_zero] at done
      rw [begun] at batches
      refine ⟨done, batches.trans ?_⟩
      change (groupsOf settings.batchSize.toNat (number 0 tasks)).length = _
      rw [length_groupsOf (by omega), count]

/-- A silent worker is counted, unless it cannot be waited for: then the run breaks off, and its
task is not counted at all. -/
theorem stats_account_silent :
    let tasks : List Task := [⟨"a.txt", "", some "one\n", false, none⟩]
    let short : DispatchSettings := { concurrent := true }
    let long : DispatchSettings := { concurrent := true, timeout := .whole 10000000000 }
    let ended (settings : DispatchSettings) := process (silentCrew .zero) settings tasks 0 ()
    let stats (settings : DispatchSettings) := (ended settings).2.stats
    (stats short).processed + (stats short).failed = 1 ∧
      (stats short).workerFailures ≤ (stats short).fallbacks ∧
      (ended long).1 = .error .tooLarge ∧ (stats long).processed + (stats long).failed = 0 ∧
      Cause (silentCrew .zero) long (start long 0 ())
        (Course.process (silentCrew .zero) long tasks 0 ()) .tooLarge := by
  intro tasks short long ended stats
  obtain ⟨-, -, -, few, -, -, -, -, counts⟩ := stats_account (silentCrew .zero) short
    (fun taken => .refl taken) (by decide) (by decide) tasks 0 ()
  obtain ⟨-, -, -, -, -, -, -, -, causes⟩ := stats_account (silentCrew .zero) long
    (fun taken => .refl taken) (by decide) (by decide) tasks 0 ()
  have done : (ended short).1 = .ok [] := by decide +kernel
  have broken : (ended long).1 = .error .tooLarge := by decide +kernel
  rw [show (process _ short _ _ _).1 = _ from done] at counts
  rw [show (process _ long _ _ _).1 = _ from broken] at causes
  exact ⟨counts.1, few, broken, by decide +kernel, causes⟩

end SourceIndex.Dispatch
