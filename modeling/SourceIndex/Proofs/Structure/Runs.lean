import SourceIndex.Proofs.Structure.Place
import Mathlib.Data.List.Chain
/-!
# Runs of spans

The spans of a list in order fall into runs: a run goes on as long as the next span is of its kind
and begins at most two lines after the last line that the run has come to. Merging makes one span of
each run, whatever the spans are, and finds nothing more to merge in what it made.
-/

namespace SourceIndex.Span

/-! ### Order -/

theorem startsNoLater_iff {a b : Span} : a.startsNoLater b = true ↔
    a.startLine < b.startLine ∨ a.startLine = b.startLine ∧ a.startByte ≤ b.startByte := by
  simp [startsNoLater]

theorem startsNoLater_trans (a b c : Span) (first : a.startsNoLater b = true)
    (second : b.startsNoLater c = true) : a.startsNoLater c = true := by
  rw [startsNoLater_iff] at first second ⊢
  omega

theorem startsNoLater_total (a b : Span) : (a.startsNoLater b || b.startsNoLater a) = true := by
  rw [Bool.or_eq_true, startsNoLater_iff, startsNoLater_iff]
  omega

def startsAt (line byte : Int) (span : Span) : Bool :=
  span.startLine = line && span.startByte = byte

/-- The same spans in the order of their starts; spans that start together are in the order in which
they were given. -/
structure IsStableSort (spans sorted : List Span) : Prop where
  perm : sorted.Perm spans
  ordered : sorted.Pairwise fun a b =>
    a.startLine < b.startLine ∨ a.startLine = b.startLine ∧ a.startByte ≤ b.startByte
  stable : ∀ line byte, sorted.filter (startsAt line byte) = spans.filter (startsAt line byte)

theorem isStableSort_sort (spans : List Span) : IsStableSort spans (sort spans) where
  perm := List.mergeSort_perm ..
  ordered := (List.pairwise_mergeSort startsNoLater_trans startsNoLater_total spans).imp
    startsNoLater_iff.mp
  stable := by
    intro line byte
    -- Spans that start together are in order as they stand, so sorting keeps them as they stand.
    have together : (spans.filter (startsAt line byte)).Pairwise
        fun a b => startsNoLater a b = true := by
      refine List.pairwise_of_forall_mem_list fun a first b second => ?_
      have here := (List.mem_filter.mp first).2
      have there := (List.mem_filter.mp second).2
      simp only [startsAt, Bool.and_eq_true, decide_eq_true_eq] at here there
      rw [startsNoLater_iff]
      omega
    have kept := (List.sublist_mergeSort startsNoLater_trans startsNoLater_total together
      List.filter_sublist).filter (startsAt line byte)
    rw [List.filter_filter] at kept
    simp only [Bool.and_self] at kept
    exact (kept.eq_of_length ((List.mergeSort_perm ..).filter _).length_eq.symm).symm

/-! ### Runs -/

/-- A run goes on with a span: all its spans are of the kind of that one, which starts at most two
lines after the largest of their last lines. -/
structure GoesOn (run : List Span) (next : Span) : Prop where
  kind : ∀ span ∈ run, span.kind = next.kind
  near : ∃ last, (run.map (·.endLine)).max? = some last ∧ next.startLine ≤ last + 2

/-- One span or more, with each of which the ones before it go on. -/
structure IsRun (run : List Span) : Prop where
  filled : run ≠ []
  goesOn : ∀ before next after, run = before ++ next :: after → before ≠ [] → GoesOn before next

/-- Some spans cut into runs, each of which ends only where it does not go on. -/
structure AreRunsOf (sorted : List Span) (runs : List (List Span)) : Prop where
  whole : runs.flatten = sorted
  isRun : ∀ run ∈ runs, IsRun run
  ends : runs.IsChain fun run following => ∀ next ∈ following.head?, ¬ GoesOn run next

def isNamed (span : Span) : Bool := span.name.any (· ≠ "")

/-- The span of a run: from where its first span starts to the largest of their ends, with the first
name that is not empty. If there is none it has the name of the last span. -/
structure IsWhole (run : List Span) (whole : Span) : Prop where
  kind : ∀ span ∈ run, span.kind = whole.kind
  startByte : run.head?.map (·.startByte) = some whole.startByte
  startLine : run.head?.map (·.startLine) = some whole.startLine
  endByte : (run.map (·.endByte)).max? = some whole.endByte
  endLine : (run.map (·.endLine)).max? = some whole.endLine
  name : whole.name = ((run.find? isNamed).or run.getLast?).bind (·.name)

theorem isRun_singleton (span : Span) : IsRun [span] := by
  refine ⟨List.cons_ne_nil _ _, fun before next after whole filled => ?_⟩
  cases before with
  | nil => exact absurd rfl filled
  | cons first rest => simp at whole

theorem IsRun.concat {run : List Span} {next : Span} (isRun : IsRun run)
    (goesOn : GoesOn run next) : IsRun (run ++ [next]) := by
  refine ⟨by simp, fun before other after whole filled => ?_⟩
  rcases List.eq_nil_or_concat after with rfl | ⟨init, last, rfl⟩
  · obtain ⟨rfl, rfl⟩ := List.append_inj' whole rfl |>.imp_right List.singleton_inj.mp
    exact goesOn
  · rw [List.concat_eq_append, ← List.cons_append, ← List.append_assoc] at whole
    exact isRun.goesOn before other init (List.append_inj' whole rfl).1 filled

theorem isWhole_singleton (span : Span) : IsWhole [span] span where
  kind := by simp
  startByte := rfl
  startLine := rfl
  endByte := rfl
  endLine := rfl
  name := by
    cases named : isNamed span <;> simp [named]

/-- The span of a run joins the next span just if the run goes on with it. -/
theorem IsWhole.joins_iff {run : List Span} {whole next : Span} (isWhole : IsWhole run whole)
    (filled : run ≠ []) : joins whole next = true ↔ GoesOn run next := by
  rw [joins, Bool.and_eq_true, decide_eq_true_eq, decide_eq_true_eq]
  constructor
  · rintro ⟨kind, near⟩
    exact ⟨fun span member => (isWhole.kind span member).trans kind.symm, _, isWhole.endLine, near⟩
  · rintro ⟨kind, last, largest, near⟩
    obtain ⟨span, member⟩ := List.exists_mem_of_ne_nil run filled
    obtain rfl := Option.some.inj (largest.symm.trans isWhole.endLine)
    exact ⟨(kind span member).symm.trans (isWhole.kind span member), near⟩

theorem max?_concat {values : List Int} {most next : Int} (largest : values.max? = some most) :
    (values ++ [next]).max? = some (max most next) := by
  rw [List.max?_eq_some_iff] at largest ⊢
  obtain ⟨member, bound⟩ := largest
  constructor
  · rcases Int.le_total most next with le | le
    · simp [Int.max_eq_right le]
    · simp [Int.max_eq_left le, member]
  · intro value among
    rcases List.mem_append.mp among with before | here
    · have := bound value before
      omega
    · have := List.mem_singleton.mp here
      omega

theorem name_join (a b : Span) : (join a b).name = if a.isNamed then a.name else b.name := by
  show firstName a.name b.name = _
  unfold isNamed
  cases a.name with
  | none => rfl
  | some name => by_cases empty : name = "" <;> simp [firstName, empty]

theorem IsWhole.join {run : List Span} {whole next : Span} (isWhole : IsWhole run whole)
    (kind : next.kind = whole.kind) : IsWhole (run ++ [next]) (join whole next) where
  kind := by
    intro span member
    rcases List.mem_append.mp member with before | here
    · exact isWhole.kind span before
    · rw [List.mem_singleton.mp here]
      exact kind
  startByte := by
    have start := isWhole.startByte
    cases run with
    | nil => cases start
    | cons first rest => exact start
  startLine := by
    have start := isWhole.startLine
    cases run with
    | nil => cases start
    | cons first rest => exact start
  endByte := by
    rw [List.map_append]
    exact max?_concat isWhole.endByte
  endLine := by
    rw [List.map_append]
    exact max?_concat isWhole.endLine
  name := by
    have name := isWhole.name
    rw [name_join, List.find?_append]
    cases first : run.find? isNamed with
    | some span =>
      rw [first] at name
      have same : whole.name = span.name := name
      have named : whole.isNamed = true := by
        have found : span.isNamed = true := List.find?_some first
        rwa [isNamed, same]
      simp [named, same]
    | none =>
      rw [first, Option.none_or] at name
      have unnamed : whole.isNamed = false := by
        rw [isNamed, name]
        cases last : run.getLast? with
        | none => rfl
        | some span =>
          exact Bool.eq_false_iff.mpr (List.find?_eq_none.mp first span (List.mem_of_getLast? last))
      cases named : next.isNamed <;> simp [unnamed, named]

/-! ### Merging -/

/-- What is merged from the span of a run on are the spans of that run, as far as it goes on, and of
the runs that follow. -/
theorem exists_runs_mergeFrom (rest : List Span) {run : List Span} {whole : Span}
    (isRun : IsRun run) (isWhole : IsWhole run whole) : ∃ longer runs, run <+: longer ∧
      AreRunsOf (run ++ rest) (longer :: runs) ∧
      List.Forall₂ IsWhole (longer :: runs) (mergeFrom [] whole rest) := by
  induction rest generalizing run whole with
  | nil =>
    refine ⟨run, [], List.prefix_refl run, ⟨by simp, ?_, List.isChain_singleton run⟩, ?_⟩
    · intro other member
      rw [List.mem_singleton.mp member]
      exact isRun
    · exact .cons isWhole .nil
  | cons next rest ih =>
    rw [mergeFrom_cons]
    split
    · rename_i joined
      have goesOn := (isWhole.joins_iff isRun.filled).mp joined
      have kind : next.kind = whole.kind := by
        rw [joins, Bool.and_eq_true, decide_eq_true_eq] at joined
        exact joined.1
      obtain ⟨longer, runs, within, runsOf, wholes⟩ := ih (isRun.concat goesOn) (isWhole.join kind)
      rw [List.append_assoc, List.singleton_append] at runsOf
      exact ⟨longer, runs, (List.prefix_append run [next]).trans within, runsOf, wholes⟩
    · rename_i apart
      obtain ⟨longer, runs, within, ⟨parts, areRuns, ends⟩, wholes⟩ :=
        ih (isRun_singleton next) (isWhole_singleton next)
      refine ⟨run, longer :: runs, List.prefix_refl run, ⟨?_, ?_, ?_⟩, .cons isWhole wholes⟩
      · rw [List.flatten_cons, parts, List.singleton_append]
      · intro other member
        rcases List.mem_cons.mp member with rfl | later
        · exact isRun
        · exact areRuns other later
      · refine List.IsChain.cons_cons (fun first starts => ?_) ends
        obtain ⟨more, rfl⟩ := within
        obtain rfl := Option.some.inj starts
        rwa [← isWhole.joins_iff isRun.filled]

theorem exists_runs_merge (spans : List Span) :
    ∃ runs, AreRunsOf (sort spans) runs ∧ List.Forall₂ IsWhole runs (merge spans) := by
  unfold merge
  split
  · rename_i nothing
    rw [nothing]
    exact ⟨[], ⟨rfl, by simp, List.isChain_nil⟩, .nil⟩
  · rename_i first rest shape
    obtain ⟨longer, runs, -, runsOf, wholes⟩ :=
      exists_runs_mergeFrom rest (isRun_singleton first) (isWhole_singleton first)
    rw [shape]
    exact ⟨longer :: runs, runsOf, wholes⟩

/-! ### There is one way to cut spans into runs -/

variable {sorted run : List Span} {runs : List (List Span)}

theorem AreRunsOf.tail (areRuns : AreRunsOf sorted (run :: runs)) :
    AreRunsOf runs.flatten runs where
  whole := rfl
  isRun := fun other member => areRuns.isRun other (List.mem_cons_of_mem _ member)
  ends := areRuns.ends.of_cons

theorem AreRunsOf.not_goesOn (areRuns : AreRunsOf sorted (run :: runs)) {next : Span}
    {after : List Span} (follows : runs.flatten = next :: after) : ¬ GoesOn run next := by
  cases runs with
  | nil => cases follows
  | cons following others =>
    obtain ⟨first, rest, rfl⟩ := List.exists_cons_of_ne_nil
      (areRuns.isRun following (by simp)).filled
    obtain rfl : first = next := by
      rw [List.flatten_cons, List.cons_append] at follows
      exact (List.cons.inj follows).1
    exact (List.isChain_cons_cons.mp areRuns.ends).1 first rfl

/-- A run that starts where another one does ends there, too. -/
theorem AreRunsOf.eq_nil_of_longer {other mid : List Span}
    (areRuns : AreRunsOf sorted (run :: runs)) (isRun : IsRun (run ++ mid))
    (follows : runs.flatten = mid ++ other) : mid = [] := by
  cases mid with
  | nil => rfl
  | cons next after =>
    exact absurd (isRun.goesOn run next after rfl (areRuns.isRun run (by simp)).filled)
      (areRuns.not_goesOn follows)

theorem AreRunsOf.unique {others : List (List Span)} (areRuns : AreRunsOf sorted runs)
    (areOthers : AreRunsOf sorted others) : others = runs := by
  induction runs generalizing sorted others with
  | nil =>
    cases others with
    | nil => rfl
    | cons other rest =>
      have nothing := areOthers.whole.trans areRuns.whole.symm
      rw [List.flatten_cons, List.flatten_nil, List.append_eq_nil_iff] at nothing
      exact absurd nothing.1 (areOthers.isRun other (by simp)).filled
  | cons run runs ih =>
    have same := areOthers.whole.trans areRuns.whole.symm
    cases others with
    | nil =>
      rw [List.flatten_cons, List.flatten_nil, eq_comm, List.append_eq_nil_iff] at same
      exact absurd same.1 (areRuns.isRun run (by simp)).filled
    | cons other rest =>
      rw [List.flatten_cons, List.flatten_cons] at same
      have first : other = run := by
        have isOther := areOthers.isRun other (by simp)
        have isRun := areRuns.isRun run (by simp)
        rcases List.append_eq_append_iff.mp same with ⟨mid, rfl, follows⟩ | ⟨mid, rfl, follows⟩
        · rw [areOthers.eq_nil_of_longer isRun follows, List.append_nil]
        · rw [areRuns.eq_nil_of_longer isOther follows, List.append_nil]
      subst first
      have tails := areOthers.tail
      rw [List.append_cancel_left same] at tails
      rw [ih areRuns.tail tails]

/-! ### Merging again -/

theorem starts_mergeFrom (rest : List Span) (current : Span) :
    ((mergeFrom [] current rest).map fun span => (span.startLine, span.startByte)).Sublist
      ((current :: rest).map fun span => (span.startLine, span.startByte)) := by
  induction rest generalizing current with
  | nil => exact List.Sublist.refl _
  | cons next rest ih =>
    rw [mergeFrom_cons]
    split
    · exact (ih (join current next)).trans
        (List.Sublist.cons_cons _ (List.sublist_cons_self _ _))
    · exact (ih next).cons_cons _

theorem pairwise_merge_starts (spans : List Span) :
    (merge spans).Pairwise fun a b => a.startsNoLater b = true := by
  have ordered := List.pairwise_mergeSort startsNoLater_trans startsNoLater_total spans
  unfold merge
  split
  · exact List.Pairwise.nil
  · rename_i first rest shape
    rw [← sort, shape] at ordered
    have starts : ((first :: rest).map fun span => (span.startLine, span.startByte)).Pairwise
        fun a b => a.1 < b.1 ∨ a.1 = b.1 ∧ a.2 ≤ b.2 :=
      List.pairwise_map.mpr (ordered.imp startsNoLater_iff.mp)
    exact (List.pairwise_map.mp (starts.sublist (starts_mergeFrom rest first))).imp
      startsNoLater_iff.mpr

theorem isChain_of_forall₂ {wholes : List Span} (areRuns : AreRunsOf sorted runs)
    (isWhole : List.Forall₂ IsWhole runs wholes) :
    wholes.IsChain fun whole next => joins whole next = false := by
  induction isWhole generalizing sorted with
  | nil => exact List.isChain_nil
  | @cons run whole runs wholes here later ih =>
    have chain := ih areRuns.tail
    cases later with
    | nil => exact List.isChain_singleton whole
    | @cons following next _ _ there _ =>
      refine List.IsChain.cons_cons ?_ chain
      have filled := (areRuns.isRun run (by simp)).filled
      obtain ⟨first, rest, rfl⟩ := List.exists_cons_of_ne_nil
        (areRuns.isRun following (by simp)).filled
      have apart := (List.isChain_cons_cons.mp areRuns.ends).1 first rfl
      have kind : first.kind = next.kind := there.kind first (by simp)
      have line : first.startLine = next.startLine := Option.some.inj there.startLine
      rw [← here.joins_iff filled, joins, kind, line, ← joins, Bool.not_eq_true] at apart
      exact apart

theorem mergeFrom_of_isChain {rest : List Span} {current : Span}
    (apart : (current :: rest).IsChain fun whole next => joins whole next = false) :
    mergeFrom [] current rest = current :: rest := by
  induction rest generalizing current with
  | nil => rfl
  | cons next rest ih =>
    obtain ⟨here, later⟩ := List.isChain_cons_cons.mp apart
    rw [mergeFrom_cons, here, if_neg Bool.false_ne_true, ih later]

theorem merge_of_isChain {spans : List Span}
    (ordered : spans.Pairwise fun a b => a.startsNoLater b = true)
    (apart : spans.IsChain fun whole next => joins whole next = false) : merge spans = spans := by
  rw [merge, sort, List.mergeSort_of_pairwise ordered]
  cases spans with
  | nil => rfl
  | cons first rest => exact mergeFrom_of_isChain apart

/-- Merging compresses runs: the spans in order of their starts fall into runs in just one way, the
merged spans are those of the runs, one for each and in their order, and merging them again changes
nothing. -/
theorem merge_compresses_runs (spans : List Span) :
    ∃ sorted runs, IsStableSort spans sorted ∧ AreRunsOf sorted runs ∧
      (∀ others, AreRunsOf sorted others → others = runs) ∧
      List.Forall₂ IsWhole runs (merge spans) ∧ merge (merge spans) = merge spans := by
  obtain ⟨runs, areRuns, isWhole⟩ := exists_runs_merge spans
  refine ⟨sort spans, runs, isStableSort_sort spans, areRuns, fun others => areRuns.unique,
    isWhole, ?_⟩
  exact merge_of_isChain (pairwise_merge_starts spans) (isChain_of_forall₂ areRuns isWhole)

/-- A span inside another one does not bring the run back: the third one joins the first. -/
example :
    merge [⟨.functions, 5, 20, 2, 3, some "f"⟩, ⟨.functions, 0, 90, 1, 10, none⟩,
      ⟨.functions, 95, 99, 12, 12, some "g"⟩] = [⟨.functions, 0, 99, 1, 12, some "f"⟩] := by
  cbv

end SourceIndex.Span
