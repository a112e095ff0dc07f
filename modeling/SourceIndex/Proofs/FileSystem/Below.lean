import SourceIndex.Proofs.Except
import SourceIndex.Proofs.FileSystem.Agree
import SourceIndex.Proofs.FileSystem.Links
import SourceIndex.Proofs.FileSystem.Listing
/-!
# What lies below a directory

Where a path does not lead below a directory, it does not matter what is there: the path leads to
the same on a disk that has something below the directory as on one that has nothing there. For
that, the links on the way count as well, even those that lead nowhere as long as the directory is
empty.
-/

namespace SourceIndex.Disk
variable {d other : Disk} {data place goal : Place} {name target : String}
  {names pieces rest : List String} {follow : Bool}

/-! ### Places below -/

def IsBelow (data place : Place) : Prop := data <+: place ∧ place ≠ data

instance (data place : Place) : Decidable (IsBelow data place) :=
  inferInstanceAs (Decidable (data <+: place ∧ place ≠ data))

theorem not_isBelow_nil (data : Place) : ¬ IsBelow data [] := by
  rintro ⟨within, differs⟩
  exact differs (List.prefix_nil.mp within).symm

theorem isBelow_of_dropLast (below : IsBelow data place.dropLast) : IsBelow data place := by
  refine ⟨below.1.trans (List.dropLast_prefix place), ?_⟩
  rintro rfl
  exact below.2 (below.1.eq_of_length_le (List.dropLast_prefix place).length_le).symm

/-- What lies in a directory is below another one if the directory is that one or below it. -/
theorem isBelow_concat : IsBelow data (place ++ [name]) ↔ data <+: place := by
  constructor
  · rintro ⟨within, differs⟩
    exact (List.prefix_concat_iff.mp within).resolve_left fun same => differs same.symm
  · intro within
    refine ⟨within.trans (List.prefix_append ..), fun same => ?_⟩
    have longer := congrArg List.length same
    have shorter := within.length_le
    simp at longer
    omega

/-- The other disk has something below a directory where the first one has nothing. Elsewhere they
hold the same. -/
structure Fills (data : Place) (d other : Disk) : Prop where
  here : other.here = d.here
  defects : other.defects = d.defects
  item : ∀ place, ¬ IsBelow data place → other.item? place = d.item? place
  empty : ∀ place, IsBelow data place → d.item? place = none

theorem Fills.not_isBelow (fills : Fills data d other) (there : d.item? place ≠ none) :
    ¬ IsBelow data place := fun below => there (fills.empty place below)

/-- A disk with nothing below a directory is filled by putting more items there. -/
theorem fills_append {more : List (Place × Item)}
    (before : ∀ entry ∈ d.items, ¬ IsBelow data entry.1)
    (added : ∀ entry ∈ more, IsBelow data entry.1) :
    Fills data d { d with items := d.items ++ more } := by
  refine ⟨rfl, rfl, fun place outside => ?_, fun place below => ?_⟩
  · have absent : (more.find? fun entry => entry.1 == place) = none := by
      rw [List.find?_eq_none]
      intro entry member same
      rw [beq_iff_eq] at same
      exact outside (same ▸ added entry member)
    unfold item?
    rw [List.find?_append, absent, Option.or_none]
  · by_contra there
    have inside : place ≠ [] := by
      rintro rfl
      exact not_isBelow_nil data below
    obtain ⟨entry, member, rfl⟩ := (item?_ne_none_iff inside).mp there
    exact before entry member below

/-! ### Leading below -/

/-- Going on from a place by the pieces of a path comes below a directory. -/
inductive LeadsBelow (d : Disk) (data : Place) : Place → List String → Prop
  | here {place : Place} {pieces : List String} (below : IsBelow data place) :
    LeadsBelow d data place pieces
  | stay {place : Place} {name : String} {rest : List String} (silent : name = "" ∨ name = ".")
    (later : LeadsBelow d data place rest) : LeadsBelow d data place (name :: rest)
  | up {place : Place} {rest : List String} (later : LeadsBelow d data place.dropLast rest) :
    LeadsBelow d data place (".." :: rest)
  | down {place : Place} {name : String} {rest : List String} (filled : name ≠ "")
    (notDot : name ≠ ".") (notDots : name ≠ "..")
    (noLink : ∀ target, d.item? (place ++ [name]) ≠ some (.link target))
    (later : LeadsBelow d data (place ++ [name]) rest) : LeadsBelow d data place (name :: rest)
  | through {place : Place} {name target : String} {rest : List String} (filled : name ≠ "")
    (notDot : name ≠ ".") (notDots : name ≠ "..")
    (isLink : d.item? (place ++ [name]) = some (.link target))
    (later : LeadsBelow d data (targetPieces target place).1
      ((targetPieces target place).2 ++ rest)) : LeadsBelow d data place (name :: rest)

theorem LeadsBelow.append (leads : LeadsBelow d data place pieces) (more : List String) :
    LeadsBelow d data place (pieces ++ more) := by
  induction leads with
  | here below => exact .here below
  | stay silent _ ih => exact .stay silent ih
  | up _ ih => exact .up ih
  | down filled notDot notDots noLink _ ih => exact .down filled notDot notDots noLink ih
  | through filled notDot notDots isLink _ ih =>
    rw [List.append_assoc] at ih
    exact .through filled notDot notDots isLink ih

/-! ### Pieces that lead nowhere else -/

def loud (pieces : List String) : List String := pieces.filter fun name => name ≠ "" ∧ name ≠ "."

theorem loud_append (first second : List String) :
    loud (first ++ second) = loud first ++ loud second := List.filter_append ..

theorem LeadsBelow.skip {quiet : List String} (silent : ∀ name ∈ quiet, name = "" ∨ name = ".")
    (leads : LeadsBelow d data place pieces) : LeadsBelow d data place (quiet ++ pieces) := by
  induction quiet with
  | nil => exact leads
  | cons name others ih =>
    exact .stay (silent name (List.mem_cons_self ..))
      (ih fun piece member => silent piece (List.mem_cons_of_mem _ member))

theorem exists_of_loud_eq_cons (cut : loud pieces = name :: rest) :
    ∃ quiet more, pieces = quiet ++ name :: more ∧
      (∀ piece ∈ quiet, piece = "" ∨ piece = ".") ∧ loud more = rest := by
  obtain ⟨quiet, more, shape, silent, -, later⟩ := List.filter_eq_cons_iff.mp cut
  refine ⟨quiet, more, shape, fun piece member => ?_, later⟩
  have isSilent := silent piece member
  simp only [decide_eq_true_eq, not_and_or, not_not] at isSilent
  exact isSilent

/-- Pieces that lead nowhere else do not matter. -/
theorem LeadsBelow.of_loud (leads : LeadsBelow d data place pieces) {others : List String}
    (same : loud others = loud pieces) : LeadsBelow d data place others := by
  induction leads generalizing others with
  | here below => exact .here below
  | @stay place name rest silent _ ih =>
    refine ih (same.trans ?_)
    rcases silent with rfl | rfl
    · simp [loud]
    · simp [loud]
  | up _ ih =>
    obtain ⟨quiet, more, rfl, silent, later⟩ :=
      exists_of_loud_eq_cons (same.trans (List.filter_cons_of_pos (by decide)))
    exact .skip silent (.up (ih later))
  | @down place name rest filled notDot notDots noLink _ ih =>
    obtain ⟨quiet, more, rfl, silent, later⟩ :=
      exists_of_loud_eq_cons (same.trans (List.filter_cons_of_pos (by simp [filled, notDot])))
    exact .skip silent (.down filled notDot notDots noLink (ih later))
  | @through place name target rest filled notDot notDots isLink _ ih =>
    obtain ⟨quiet, more, rfl, silent, later⟩ :=
      exists_of_loud_eq_cons (same.trans (List.filter_cons_of_pos (by simp [filled, notDot])))
    refine .skip silent (.through filled notDot notDots isLink (ih ?_))
    rw [loud_append, loud_append, later]
    rfl

theorem loud_targetNames (target : String) (place : Place) :
    loud (targetNames target place).2 = loud (targetPieces target place).2 := by
  have split := (targetPieces_eq target place).2
  have names (pieces : List String) : loud pieces = loud (namesOf pieces) := by
    rw [loud, loud, namesOf, List.filter_filter]
    refine List.filter_congr fun piece _ => ?_
    by_cases empty : piece = ""
    · simp [empty]
    · simp [empty]
  rw [names (targetPieces target place).2, split]
  unfold targetNames
  simp only
  split
  · simp [loud]
  · rfl

theorem leadsBelow_target :
    LeadsBelow d data (targetNames target place).1 ((targetNames target place).2 ++ rest) ↔
      LeadsBelow d data (targetPieces target place).1
        ((targetPieces target place).2 ++ rest) := by
  have same : loud ((targetNames target place).2 ++ rest) =
      loud ((targetPieces target place).2 ++ rest) := by
    rw [loud_append, loud_append, loud_targetNames]
  rw [(targetPieces_eq target place).1]
  exact ⟨fun leads => leads.of_loud same.symm, fun leads => leads.of_loud same⟩

/-! ### What does not lead below -/

theorem leadsBelow_nil : LeadsBelow d data place [] ↔ IsBelow data place := by
  constructor
  · rintro ⟨below⟩
    exact below
  · exact .here

theorem leadsBelow_silent (silent : name = "" ∨ name = ".") :
    LeadsBelow d data place (name :: rest) ↔ LeadsBelow d data place rest := by
  refine ⟨fun leads => leads.of_loud ?_, .stay silent⟩
  rcases silent with rfl | rfl
  · simp [loud]
  · simp [loud]

theorem leadsBelow_up (start : ¬ IsBelow data place) :
    LeadsBelow d data place (".." :: rest) ↔ LeadsBelow d data place.dropLast rest := by
  refine ⟨fun leads => ?_, .up⟩
  generalize dots : ".." = name at leads
  cases leads with
  | here below => exact absurd below start
  | stay silent => simp [← dots] at silent
  | up later => exact later
  | down _ _ notDots => exact absurd dots.symm notDots
  | through _ _ notDots => exact absurd dots.symm notDots

section
variable (filled : name ≠ "") (notDot : name ≠ ".") (notDots : name ≠ "..")
include filled notDot notDots

theorem leadsBelow_down (start : ¬ IsBelow data place)
    (noLink : ∀ target, d.item? (place ++ [name]) ≠ some (.link target)) :
    LeadsBelow d data place (name :: rest) ↔ LeadsBelow d data (place ++ [name]) rest := by
  refine ⟨fun leads => ?_, .down filled notDot notDots noLink⟩
  cases leads with
  | here below => exact absurd below start
  | stay silent => exact (silent.elim filled notDot).elim
  | up => exact absurd rfl notDots
  | down _ _ _ _ later => exact later
  | through _ _ _ isLink => exact absurd isLink (noLink _)

theorem leadsBelow_through (start : ¬ IsBelow data place)
    (isLink : d.item? (place ++ [name]) = some (.link target)) :
    LeadsBelow d data place (name :: rest) ↔
      LeadsBelow d data (targetPieces target place).1
        ((targetPieces target place).2 ++ rest) := by
  refine ⟨fun leads => ?_, .through filled notDot notDots isLink⟩
  cases leads with
  | here below => exact absurd below start
  | stay silent => exact (silent.elim filled notDot).elim
  | up => exact absurd rfl notDots
  | down _ _ _ noLink => exact absurd isLink (noLink _)
  | through _ _ _ isLink' later =>
    rw [isLink, Option.some.injEq, Item.link.injEq] at isLink'
    rw [isLink']
    exact later

end

theorem not_isBelow_targetNames (start : ¬ IsBelow data place) (target : String) :
    ¬ IsBelow data (targetNames target place).1 := by
  unfold targetNames
  simp only
  split
  · exact not_isBelow_nil data
  · exact start

theorem Walks.not_leadsBelow (fills : Fills data d other) (proper : d.IsProper) {links : Nat}
    {item : Option Item} (walks : Walks d true links place names goal item)
    (isDirectory : item = some .directory) (start : ¬ IsBelow data place)
    (clear : ¬ LeadsBelow d data goal rest) : ¬ LeadsBelow d data place (names ++ rest) := by
  induction walks with
  | done => exact clear
  | stay _ ih =>
    rw [List.cons_append, leadsBelow_silent (.inr rfl)]
    exact ih isDirectory start clear
  | up _ ih =>
    rw [List.cons_append, leadsBelow_up start]
    exact ih isDirectory (fun below => start (isBelow_of_dropLast below)) clear
  | @down _ place _ name _ _ isName there _ ih =>
    have something : d.item? (place ++ [name]) ≠ none := by simp [there]
    rw [List.cons_append, leadsBelow_down (proper.named place name something).filled isName.notDot
      isName.notDots start (by simp [there])]
    exact ih isDirectory (fills.not_isBelow something) clear
  | @through _ place _ name target _ _ isName there _ _ ih =>
    have something : d.item? (place ++ [name]) ≠ none := by simp [there]
    rw [List.cons_append, leadsBelow_through (proper.named place name something).filled
      isName.notDot isName.notDots start there, ← leadsBelow_target, ← List.append_assoc]
    exact ih isDirectory (not_isBelow_targetNames start target) clear
  | last _ noDirectory => exact absurd isDirectory noDirectory

theorem not_leadsBelow_place (fills : Fills data d other) (proper : d.IsProper)
    (solid : d.IsSolid (place ++ names)) : ¬ LeadsBelow d data place names := by
  induction names generalizing place with
  | nil =>
    rw [leadsBelow_nil]
    rw [List.append_nil] at solid
    exact fills.not_isBelow solid.there
  | cons name rest ih =>
    have shape : place ++ name :: rest = place ++ [name] ++ rest := by simp
    rw [shape] at solid
    have here : d.IsSolid (place ++ [name]) := by
      by_cases last : rest = []
      · rwa [last, List.append_nil] at solid
      · exact isSolid_of_directory (proper.tree.above last solid.there)
    have isName := proper.named place name here.there
    have start : ¬ IsBelow data place := fun below =>
      fills.not_isBelow here.there (isBelow_concat.mpr below.1)
    rw [leadsBelow_down isName.filled isName.notDot isName.notDots start here.noLink]
    exact ih solid

/-! ### Looking up -/

theorem Fills.not_isBelow_step (fills : Fills data d other) (filled : name ≠ "")
    (notDot : name ≠ ".") (notDots : name ≠ "..")
    (clear : ¬ LeadsBelow d data place (name :: rest)) : ¬ IsBelow data (place ++ [name]) := by
  intro below
  have noLink : ∀ target, d.item? (place ++ [name]) ≠ some (.link target) := by
    simp [fills.empty _ below]
  exact clear (.down filled notDot notDots noLink (.here below))

theorem descend_eq_of_fills (fills : Fills data d other) (proper : d.IsProper)
    (proper' : other.IsProper) {onLink onLink' : Place → List String → Found}
    (links : ∀ start names, ¬ LeadsBelow d data start names →
      onLink' start names = onLink start names)
    (names : List String) (place : Place) (clear : ¬ LeadsBelow d data place names) :
    other.descend follow onLink' place names = d.descend follow onLink place names := by
  induction names generalizing place with
  | nil => rw [descend, descend, fills.item place fun below => clear (.here below)]
  | cons name rest ih =>
    unfold descend
    split
    · rename_i dot
      exact ih place fun leads => clear (.stay (.inr dot) leads)
    rename_i notDot
    split
    · rename_i dots
      subst dots
      exact ih _ fun leads => clear (.up leads)
    rename_i notDots
    split
    · rfl
    -- Nothing has an empty name.
    by_cases empty : name = ""
    · have nothing {d : Disk} (proper : d.IsProper) : d.item? (place ++ [name]) = none := by
        by_contra there
        exact (proper.named place name there).filled empty
      simp only [nothing proper, nothing proper']
    simp only [fills.item _ (fills.not_isBelow_step empty notDot notDots clear)]
    cases there : d.item? (place ++ [name]) with
    | none => rfl
    | some item =>
      cases item with
      | file => rfl
      | special => rfl
      | directory =>
        have noLink : ∀ target, d.item? (place ++ [name]) ≠ some (.link target) := by simp [there]
        exact ih _ fun leads => clear (.down empty notDot notDots noLink leads)
      | link target =>
        simp only
        split
        · rfl
        · exact links _ _ fun leads =>
            clear (.through empty notDot notDots there (leadsBelow_target.mp leads))

theorem walk_eq_of_fills (fills : Fills data d other) (proper : d.IsProper)
    (proper' : other.IsProper) (links : Nat) (place : Place) (names : List String)
    (clear : ¬ LeadsBelow d data place names) :
    other.walk follow links place names = d.walk follow links place names := by
  induction links generalizing place names with
  | zero => exact descend_eq_of_fills fills proper proper' (fun _ _ _ => rfl) names place clear
  | succ links ih => exact descend_eq_of_fills fills proper proper' ih names place clear

def Misleads (d : Disk) (data : Place) (p : Path) : Prop :=
  LeadsBelow d data (d.startOf p) p.segments

theorem not_misleads_pathTo (fills : Fills data d other) (proper : d.IsProper)
    (solid : d.IsSolid place) : ¬ d.Misleads data (pathTo place) := by
  have clear : ¬ LeadsBelow d data [] place := not_leadsBelow_place fills proper solid
  exact clear

section
variable {p : Path} (fills : Fills data d other) (proper : d.IsProper) (proper' : other.IsProper)
  (clear : ¬ d.Misleads data p)
include fills proper proper' clear

theorem find_eq_of_fills (follow : Bool) : other.find follow p = d.find follow p := by
  unfold find
  rw [startOf_eq fills.here, walk_eq_of_fills fills proper proper' _ _ _ clear]

theorem lookUp_eq_of_fills : other.lookUp p = d.lookUp p := by
  unfold lookUp
  rw [find_eq_of_fills fills proper proper' clear]

theorem stat_eq_of_fills : other.stat p = d.stat p := by
  unfold stat
  rw [fills.defects, lookUp_eq_of_fills fills proper proper' clear]

theorem readBounded_eq_of_fills (still : d.IsStill) (limit : Int) :
    d.readBounded p limit = ((d.readBounded p limit).1, d) ∧
      other.readBounded p limit = ((d.readBounded p limit).1, other) :=
  readBounded_eq_of_lookUp fills.defects (lookUp_eq_of_fills fills proper proper' clear) still limit

end

/-! ### Resolving -/

def Resolved.goal? : Resolved → Option (Place × List (Place × Option Place))
  | .at goal met => some (goal, met)
  | _ => none

/-- Pieces that lead below wherever going on does from the place that they lead to. -/
abbrev SpreadsBelow (d : Disk) (data place : Place) (pieces : List String) (goal : Place) : Prop :=
  ∀ rest, LeadsBelow d data goal rest → LeadsBelow d data place (pieces ++ rest)

theorem isWay_spreadsBelow (d : Disk) (data : Place) : d.IsWay (SpreadsBelow d data) where
  nil _ _ leads := leads
  append one more rest leads := by
    rw [List.append_assoc]
    exact one _ (more rest leads)
  silent _ _ silent _ leads := .stay silent leads
  up _ _ leads := .up leads
  down filled notDot notDots noLink _ leads := .down filled notDot notDots noLink leads
  through filled notDot notDots isLink later rest leads :=
    .through filled notDot notDots isLink (later rest leads)

theorem toOption_linkAt_of_fills (fills : Fills data d other) (outside : ¬ IsBelow data place) :
    (other.linkAt place).toOption = (d.linkAt place).toOption := by
  unfold linkAt
  rw [fills.item place outside]
  split
  · rfl
  · split <;> rfl

theorem Resolved.goal?_onward (followed : Resolved) (rest : List String)
    (onward : Place → List (Place × Option Place) → Resolved) :
    Resolved.goal? (match followed with
      | .at goal met => onward goal met
      | .stuck text => stuckAt text rest
      | .failed e => .failed e) =
      followed.goal?.bind fun found => (onward found.1 found.2).goal? := by
  cases followed <;> rfl

theorem goal?_resolveFrom_of_fills (fills : Fills data d other)
    {onLink onLink' : List (Place × Option Place) → Place → List String → Resolved}
    (right : ∀ met start pieces, AreKnown (SpreadsBelow d data) met →
      Resolved.IsRight (SpreadsBelow d data) start pieces (onLink met start pieces))
    (links : ∀ met start pieces, AreKnown (SpreadsBelow d data) met →
      ¬ LeadsBelow d data start pieces →
        (onLink' met start pieces).goal? = (onLink met start pieces).goal?)
    (pieces : List String) (met : List (Place × Option Place)) (place : Place)
    (known : AreKnown (SpreadsBelow d data) met) (clear : ¬ LeadsBelow d data place pieces) :
    (other.resolveFrom true onLink' met place pieces).goal? =
      (d.resolveFrom true onLink met place pieces).goal? := by
  induction pieces generalizing met place with
  | nil => rfl
  | cons name rest ih =>
    unfold resolveFrom
    split
    · rename_i silent
      simp only [Bool.or_eq_true, decide_eq_true_eq] at silent
      exact ih met place known fun leads => clear (.stay silent leads)
    rename_i isLoud
    simp only [Bool.or_eq_true, decide_eq_true_eq, not_or] at isLoud
    split
    · rename_i dots
      subst dots
      exact ih met _ known fun leads => clear (.up leads)
    rename_i notDots
    have looks := toOption_linkAt_of_fills fills
      (fills.not_isBelow_step isLoud.1 isLoud.2 notDots clear)
    simp only
    cases looked : d.linkAt (place ++ [name]) with
    | error code =>
      obtain ⟨code', looked'⟩ := toOption_eq_none_iff.mp
        (looks.trans (toOption_eq_none_iff.mpr ⟨code, looked⟩))
      rw [looked']
      rfl
    | ok link =>
      rw [toOption_eq_some_iff.mp (looks.trans (toOption_eq_some_iff.mpr looked))]
      cases link with
      | none =>
        have noLink := (linkAt_eq_ok looked).2 rfl
        exact ih met _ known fun leads => clear (.down isLoud.1 isLoud.2 notDots noLink leads)
      | some target =>
        have isLink := (linkAt_eq_ok looked).1 target rfl
        simp only
        split
        · rename_i origin goal found
          exact ih met goal known fun leads => clear (known.of_find? found rest leads)
        · rfl
        -- The target leads below only if the link does, and it ends alike on both disks.
        · have away : ¬ LeadsBelow d data (targetPieces target place).1
              (targetPieces target place).2 := fun leads =>
            clear (.through isLoud.1 isLoud.2 notDots isLink (leads.append rest))
          have followed := right ((place ++ [name], none) :: met) (targetPieces target place).1
            (targetPieces target place).2 (known.open _)
          refine (Resolved.goal?_onward _ rest _).trans
            (Eq.trans ?_ (Resolved.goal?_onward _ rest _).symm)
          rw [links _ _ _ (known.open _) away]
          cases ends : onLink ((place ++ [name], none) :: met) (targetPieces target place).1
              (targetPieces target place).2 with
          | stuck text => rfl
          | failed e => rfl
          | «at» goal met' =>
            rw [ends] at followed
            have leads : SpreadsBelow d data place [name] goal :=
              fun more below => .through isLoud.1 isLoud.2 notDots isLink (followed.2 more below)
            exact ih _ goal (followed.1.cons leads) fun below => clear (leads rest below)

theorem goal?_resolvePieces_of_fills (fills : Fills data d other) (depth : Nat)
    (met : List (Place × Option Place)) (place : Place) (pieces : List String)
    (known : AreKnown (SpreadsBelow d data) met) (clear : ¬ LeadsBelow d data place pieces) :
    (other.resolvePieces true depth met place pieces).goal? =
      (d.resolvePieces true depth met place pieces).goal? := by
  have isWay := isWay_spreadsBelow d data
  induction depth generalizing met place pieces with
  | zero =>
    have nowhere : ∀ (met : List (Place × Option Place)) (start : Place) (pieces : List String),
        AreKnown (SpreadsBelow d data) met →
          Resolved.IsRight (SpreadsBelow d data) start pieces (.failed .tooDeep) :=
      fun _ _ _ _ => trivial
    exact goal?_resolveFrom_of_fills fills nowhere (fun _ _ _ _ _ => rfl) pieces met place known
      clear
  | succ depth ih =>
    exact goal?_resolveFrom_of_fills fills
      (fun met start pieces known => isRight_resolvePieces isWay depth met start pieces known)
      (fun met start pieces known clear => ih met start pieces known clear) pieces met place known
      clear

theorem toOption_resolve (d : Disk) (p : Path) :
    (d.resolve true p).toOption =
      if (defect? p d.defects.resolve).isSome || hasZero p then none
      else ((d.resolvePieces true maxNestedLinks [] (d.startOf p) p.segments).goal?).map
        fun found => pathTo found.1 := by
  have right := isRight_resolvePieces d.isWay_onward maxNestedLinks [] (d.startOf p) p.segments
    areKnown_nil
  unfold resolve
  cases defect? p d.defects.resolve with
  | some code => rfl
  | none =>
    simp only [Option.isSome_none, Bool.false_or]
    split
    · rfl
    unfold realPath
    generalize d.resolvePieces true maxNestedLinks [] (d.startOf p) p.segments = resolved at right ⊢
    cases resolved with
    | «at» goal met => rfl
    | stuck text => exact right.elim
    | failed e => rfl

theorem toOption_resolve_of_fills (fills : Fills data d other) {p : Path}
    (clear : ¬ d.Misleads data p) :
    (other.resolve true p).toOption = (d.resolve true p).toOption := by
  rw [toOption_resolve, toOption_resolve, fills.defects, startOf_eq fills.here,
    goal?_resolvePieces_of_fills fills _ _ _ _ areKnown_nil clear]

theorem resolve_ok_of_fills (fills : Fills data d other) {p real : Path}
    (clear : ¬ d.Misleads data p) (resolved : d.resolve true p = .ok real) :
    other.resolve true p = .ok real :=
  toOption_eq_some_iff.mp
    ((toOption_resolve_of_fills fills clear).trans (toOption_eq_some_iff.mpr resolved))

/-- Paths that end at one place have the same real path, if this can be asked for alike. -/
theorem resolve_eq_of_at {p : Path} {met met' : List (Place × Option Place)}
    (defects : other.defects = d.defects)
    (ends : d.resolvePieces false maxNestedLinks [] (d.startOf p) p.segments = .at goal met)
    (ends' : other.resolvePieces false maxNestedLinks [] (other.startOf p) p.segments =
      .at goal met')
    (told : other.stat (pathTo goal) = d.stat (pathTo goal)) :
    other.resolve false p = d.resolve false p := by
  unfold resolve realPath
  simp only [defects, ends, ends', told]

/-! ### Directories -/

theorem list_eq_of_fills (fills : Fills data d other) (proper : d.IsProper)
    (proper' : other.IsProper) {p : Path} (clear : ¬ d.Misleads data p)
    (elsewhere : ∀ place, d.find true p = .ok (place, some .directory) → place ≠ data) :
    other.list p = d.list p := by
  unfold list
  rw [fills.defects, find_eq_of_fills fills proper proper' clear]
  split
  · rfl
  split
  · rfl
  split
  · rfl
  · rfl
  · rename_i place found
    have there : d.item? place = some .directory :=
      ((walks_of_walk (find_eq_ok found)).item_eq).symm
    have apart : ¬ IsBelow data place := fills.not_isBelow (by simp [there])
    have outside (name : String) :
        other.item? (place ++ [name]) = d.item? (place ++ [name]) :=
      fills.item _ fun below => apart ⟨isBelow_concat.mp below, elsewhere place found⟩
    simp only [names_eq_of_item? outside, outside]
  · rfl

end SourceIndex.Disk
