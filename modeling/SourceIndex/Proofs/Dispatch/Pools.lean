import SourceIndex.Proofs.Dispatch.Conduct
/-!
# Pools

At any moment of a run at most one pool is open. A pool is open whenever a task is handed to it, and
all pools are shut down at the end, also if the run breaks off.
-/

namespace SourceIndex.Dispatch
variable {σ : Type} {crew : Crew σ} {settings : DispatchSettings}

/-! ### Pools that were given -/

/-- The pool that a deed is given, if it asks for one and there is one. -/
def Deed.given (crew : Crew σ) (settings : DispatchSettings) (s : Shift σ) : Deed → List Nat
  | .openPool => (Dispatch.openPool crew settings s).1.toList
  | _ => []

def given (crew : Crew σ) (settings : DispatchSettings) : List Deed → Shift σ → List Nat :=
  gather crew settings (Deed.given crew settings)

/-- A pool is open after some deeds: they were given it, and it is not shut down. -/
def IsOpen (crew : Crew σ) (settings : DispatchSettings) (deeds : List Deed) (s : Shift σ)
    (pool : Nat) : Prop :=
  pool ∈ given crew settings deeds s ∧
    ∀ wait, .shutdown pool wait ∉ (replay crew settings deeds s).events

/-- Events of which none hands a task to a pool after that is shut down. -/
def IsOrderly (events : List Event) : Prop :=
  events.Pairwise fun earlier later =>
    ∀ pool wait index, earlier = .shutdown pool wait → later ≠ .submit pool index

theorem IsOrderly.append {events more : List Event} (orderly : IsOrderly events)
    (apart : ∀ pool index, .submit pool index ∈ more →
      ∀ wait, .shutdown pool wait ∉ events ++ more) :
    IsOrderly (events ++ more) := by
  have after {earlier later : Event} (before : earlier ∈ events ++ more) (member : later ∈ more) :
      ∀ pool wait index, earlier = .shutdown pool wait → later ≠ .submit pool index := by
    rintro pool wait index rfl rfl
    exact apart pool index member wait before
  exact List.pairwise_append.mpr ⟨orderly,
    List.pairwise_of_forall_mem_list fun _ early _ => after (List.mem_append_right _ early),
    fun _ early _ => after (List.mem_append_left _ early)⟩

/-! ### What is kept of pools -/

/-- A run, some deeds after `first`, that keeps account of its pools. -/
structure IsTidy (crew : Crew σ) (settings : DispatchSettings) (first : Shift σ)
    (past : List Deed) (g : Stage) (s : Shift σ) : Prop where
  here : replay crew settings past first = s
  below : ∀ pool ∈ given crew settings past first, pool < s.pools
  last : ∀ pool, g.pool = some pool → pool ∈ given crew settings past first
  shut : ∀ pool wait, .shutdown pool wait ∈ s.events → pool ∈ given crew settings past first
  opened : g.isOpen = true → ∃ pool, g.pool = some pool ∧ ∀ wait, .shutdown pool wait ∉ s.events
  closed : ∀ pool ∈ given crew settings past first,
    g.isOpen = true ∧ g.pool = some pool ∨ ∃ wait, .shutdown pool wait ∈ s.events
  orderly : IsOrderly s.events

variable {first s : Shift σ} {past : List Deed} {g : Stage}

theorem IsTidy.calm (tidy : IsTidy crew settings first past g s) {deed : Deed} {next : Stage}
    (given_ : deed.given crew settings s = [])
    (records : ∀ e, deed.Records e → ∀ pool, (∀ wait, e ≠ .shutdown pool wait) ∧
      ∀ index, e = .submit pool index → g.isOpen = true ∧ g.pool = some pool)
    (pool : next.pool = g.pool) (isOpen : next.isOpen = g.isOpen) :
    IsTidy crew settings first (past ++ [deed]) next (deed.act crew settings s) := by
  obtain ⟨pools, more, all, kinds⟩ := act_extends crew settings s deed
  have same : given crew settings (past ++ [deed]) first = given crew settings past first := by
    rw [given, gather_append_single, ← given, tidy.here, given_, List.append_nil]
  have shuts {number : Nat} {wait : Bool} :
      .shutdown number wait ∈ (deed.act crew settings s).events ↔
        .shutdown number wait ∈ s.events := by
    rw [all, List.mem_append]
    exact or_iff_left fun member => (records _ (kinds _ member) number).1 wait rfl
  refine ⟨?_, ?_, ?_, ?_, ?_, ?_, ?_⟩
  · rw [replay_append, tidy.here]
    rfl
  · rw [same]
    exact fun number member => (tidy.below number member).trans_le pools
  · rw [same, pool]
    exact tidy.last
  · simp only [same, shuts]
    exact tidy.shut
  · simp only [isOpen, pool, shuts]
    exact tidy.opened
  · simp only [same, isOpen, pool, shuts]
    exact tidy.closed
  · rw [all]
    refine tidy.orderly.append fun number index member wait shut => ?_
    obtain ⟨isOpen, here⟩ := (records _ (kinds _ member) number).2 index rfl
    obtain ⟨opened, same, unshut⟩ := tidy.opened isOpen
    rw [here] at same
    cases same
    rw [← all] at shut
    exact unshut wait (shuts.mp shut)

theorem IsTidy.shutDown (tidy : IsTidy crew settings first past g s) {deed : Deed} {number : Nat}
    (last : g.pool = some number)
    (given_ : deed.given crew settings s = [])
    (records : ∀ e, deed.Records e → (∀ pool index, e ≠ .submit pool index) ∧
      ∀ pool wait, e = .shutdown pool wait → pool = number)
    (shut : ∃ wait, .shutdown number wait ∈ (deed.act crew settings s).events) :
    IsTidy crew settings first (past ++ [deed]) { g with isOpen := false }
      (deed.act crew settings s) := by
  obtain ⟨pools, more, all, kinds⟩ := act_extends crew settings s deed
  have same : given crew settings (past ++ [deed]) first = given crew settings past first := by
    rw [given, gather_append_single, ← given, tidy.here, given_, List.append_nil]
  refine ⟨?_, ?_, ?_, ?_, ?_, ?_, ?_⟩
  · rw [replay_append, tidy.here]
    rfl
  · rw [same]
    exact fun number member => (tidy.below number member).trans_le pools
  · rw [same]
    exact tidy.last
  · rw [same, all]
    intro pool wait member
    rcases List.mem_append.mp member with before | new
    · exact tidy.shut pool wait before
    · rw [(records _ (kinds _ new)).2 pool wait rfl]
      exact tidy.last number last
  · rintro ⟨⟩
  · rw [same]
    intro pool member
    rcases tidy.closed pool member with ⟨-, here⟩ | ⟨wait, before⟩
    · rw [last] at here
      cases here
      exact .inr shut
    · rw [all]
      exact .inr ⟨wait, List.mem_append_left _ before⟩
  · rw [all]
    exact tidy.orderly.append fun pool index member =>
      absurd rfl ((records _ (kinds _ member)).1 pool index)

theorem IsTidy.openPool (tidy : IsTidy crew settings first past g s) (closed : g.isOpen = false) :
    IsTidy crew settings first (past ++ [.openPool])
      { g with
        pool := (Dispatch.openPool crew settings s).1
        isOpen := (Dispatch.openPool crew settings s).1.isSome }
      (Dispatch.openPool crew settings s).2 := by
  obtain ⟨pools, events, next⟩ := openPool_pools crew settings s
  have new : given crew settings (past ++ [.openPool]) first =
      given crew settings past first ++ (Dispatch.openPool crew settings s).1.toList := by
    rw [given, gather_append_single, ← given, tidy.here]
    rfl
  have shuts {number : Nat} {wait : Bool} :
      .shutdown number wait ∈ (Dispatch.openPool crew settings s).2.events ↔
        .shutdown number wait ∈ s.events := by
    rw [events, List.mem_append]
    exact or_iff_left (by simp)
  -- The number of the new pool is new, so no pool of that number was shut down.
  have unshut (wait : Bool) : .shutdown s.pools wait ∉ s.events := fun member =>
    (tidy.below _ (tidy.shut _ _ member)).false
  refine ⟨?_, ?_, ?_, ?_, ?_, ?_, ?_⟩
  · rw [replay_append, tidy.here]
    rfl
  · rw [new, pools]
    intro number member
    rcases List.mem_append.mp member with before | now
    · exact (tidy.below number before).trans (Nat.lt_succ_self _)
    · rw [next number (Option.mem_toList.mp now)]
      exact Nat.lt_succ_self _
  · rw [new]
    exact fun number here => List.mem_append_right _ (Option.mem_toList.mpr here)
  · rw [new]
    exact fun number wait member =>
      List.mem_append_left _ (tidy.shut number wait (shuts.mp member))
  · intro isOpen
    obtain ⟨number, here⟩ := Option.isSome_iff_exists.mp isOpen
    refine ⟨number, here, fun wait member => ?_⟩
    rw [next number here] at member
    exact unshut wait (shuts.mp member)
  · rw [new]
    intro number member
    rcases List.mem_append.mp member with before | now
    · obtain ⟨isOpen, -⟩ | ⟨wait, shut⟩ := tidy.closed number before
      · rw [closed] at isOpen
        cases isOpen
      · exact .inr ⟨wait, shuts.mpr shut⟩
    · have here := Option.mem_toList.mp now
      exact .inl ⟨Option.isSome_iff_exists.mpr ⟨number, here⟩, here⟩
  · rw [events]
    exact tidy.orderly.append (by simp)

theorem IsTidy.step (tidy : IsTidy crew settings first past g s) {deed : Deed} {next : Stage}
    (allowed : Allows crew settings s g deed next) :
    IsTidy crew settings first (past ++ [deed]) next (deed.act crew settings s) := by
  cases allowed with
  | openPool closed => exact tidy.openPool closed
  | submit pool index task slack last open_ =>
    refine tidy.calm rfl (fun e records => ?_) rfl rfl
    cases e <;> simp_all [Deed.Records]
  | stop pool last =>
    refine tidy.shutDown last rfl (fun e records => ?_)
      ⟨false, List.mem_append_right _ (List.mem_singleton_self _)⟩
    cases e <;> simp_all [Deed.Records]
  | close pool last =>
    refine tidy.shutDown last rfl (fun e records => ?_)
      ⟨true, List.mem_append_right _ (List.mem_singleton_self _)⟩
    cases e <;> simp_all [Deed.Records]
  | _ =>
    refine tidy.calm rfl (fun e records => ?_) rfl rfl
    cases e <;> simp_all [Deed.Records]

theorem IsTidy.isOpen_iff (tidy : IsTidy crew settings first past g s) (pool : Nat) :
    IsOpen crew settings past first pool ↔ g.isOpen = true ∧ g.pool = some pool := by
  unfold IsOpen
  rw [tidy.here]
  constructor
  · rintro ⟨member, unshut⟩
    exact (tidy.closed pool member).resolve_right fun ⟨wait, shut⟩ => unshut wait shut
  · rintro ⟨isOpen, here⟩
    obtain ⟨other, same, unshut⟩ := tidy.opened isOpen
    rw [here] at same
    cases same
    exact ⟨tidy.last pool here, unshut⟩

/-- Pools are neither leaked nor used after they are shut down: at any moment at most one is open,
tasks are handed to an open one only, and all are shut down at the end. -/
theorem pools_are_shut_down (crew : Crew σ) (settings : DispatchSettings)
    (arranges : ∀ taken, (crew.arrange taken).Perm taken)
    (batch : 0 < settings.batchSize) (workers : 0 < settings.maxWorkers) (tasks : List Task)
    (pools : Nat) (world : σ) :
    let course := Course.process crew settings tasks pools world
    let first := start settings pools world
    let ended := (process crew settings tasks pools world).2
    replay crew settings course first = ended ∧
      (∀ before rest, course = before ++ rest →
        (∀ pool other, IsOpen crew settings before first pool →
          IsOpen crew settings before first other → pool = other) ∧
        ∀ pool index task later, rest = .submit pool index task :: later →
          IsOpen crew settings before first pool) ∧
      (∀ pool ∈ given crew settings course first, ∃ wait, .shutdown pool wait ∈ ended.events) ∧
      IsOrderly ended.events := by
  intro course first ended
  obtain ⟨last, goes, closed, -⟩ := process_goes arranges batch workers tasks pools world
  have opens : IsTidy crew settings first [] (.opening settings tasks) first :=
    ⟨rfl, by simp [given, gather], by simp [Stage.opening], by simp [first, start],
      by simp [Stage.opening], by simp [given, gather], List.Pairwise.nil⟩
  have keeps {deeds : List Deed} {g : Stage} {s : Shift σ}
      (goes : Goes crew settings (.opening settings tasks) first deeds g s) :
      IsTidy crew settings first deeds g s :=
    goes.keeps_past (fun _ _ _ _ _ tidy => tidy.step) opens
  have tidy := keeps goes
  refine ⟨goes.replay, fun before rest split => ?_, fun pool member => ?_, tidy.orderly⟩
  · rw [show Course.process crew settings tasks pools world = before ++ rest from split] at goes
    obtain ⟨between, past, goesOn⟩ := goes.split
    have tidy := keeps past
    refine ⟨fun pool other here there => ?_, ?_⟩
    · have one := ((tidy.isOpen_iff pool).mp here).2
      rw [((tidy.isOpen_iff other).mp there).2] at one
      exact (Option.some.inj one).symm
    · rintro pool index task later rfl
      cases goesOn with
      | deed allowed _ =>
        cases allowed with
        | submit _ _ _ _ here isOpen => exact (tidy.isOpen_iff pool).mpr ⟨isOpen, here⟩
  · refine (tidy.closed pool member).resolve_left fun still => ?_
    rw [closed] at still
    exact absurd still.1 (by simp)

/-- Two silent workers, one after the other: each time the pool is stopped and replaced, and the
third pool is shut down unused. -/
theorem pools_are_shut_down_replaced :
    let settings : DispatchSettings := { concurrent := true }
    let tasks : List Task := [⟨"a", "", some "", false, none⟩, ⟨"b", "", some "", false, none⟩]
    let course := Course.process (silentCrew .zero) settings tasks 0 ()
    let ended := (process (silentCrew .zero) settings tasks 0 ()).2
    given (silentCrew .zero) settings course (start settings 0 ()) = [0, 1, 2] ∧
      (∀ pool < 3, ∃ wait, .shutdown pool wait ∈ ended.events) ∧ IsOrderly ended.events := by
  intro settings tasks course ended
  obtain ⟨-, -, all, orderly⟩ := pools_are_shut_down (silentCrew .zero) settings
    (fun taken => .refl taken) (by decide) (by decide) tasks 0 ()
  have three : given (silentCrew .zero) settings course (start settings 0 ()) = [0, 1, 2] := by
    decide +kernel
  refine ⟨three, fun pool below => all pool ?_, orderly⟩
  rw [show given _ _ _ _ = _ from three]
  simp
  omega

end SourceIndex.Dispatch
