import SourceIndex.Proofs.FileSystem.Bare
import SourceIndex.Proofs.FileSystem.Listing
import SourceIndex.Proofs.Path.Text
/-!
# Links on the way

What a path leads to is the same as what its names lead to one after the other, where some of the
names are links. The real path of a path is that of a place that holds something other than a link.
-/

namespace SourceIndex

def Path.under (root : Path) (names : List String) : Path :=
  { root with segments := root.segments ++ names }

namespace Disk
variable {d : Disk}

/-! ### One name after the other -/

section
variable {follow : Bool} {links : Nat} {place goal : Place} {name target : String}
  {names tail : List String} {item : Option Item}

theorem Walks.of_dot (walks : Walks d follow links place ("." :: tail) goal item) :
    Walks d follow links place tail goal item := by
  generalize dot : "." = name at walks
  cases walks with
  | stay later => exact later
  | up => exact absurd dot (by decide)
  | down isName => exact absurd dot.symm isName.notDot
  | through isName => exact absurd dot.symm isName.notDot
  | last isName => exact absurd dot.symm isName.notDot

theorem Walks.of_dots (walks : Walks d follow links place (".." :: tail) goal item) :
    Walks d follow links place.dropLast tail goal item := by
  generalize dots : ".." = name at walks
  cases walks with
  | stay => exact absurd dots (by decide)
  | up later => exact later
  | down isName => exact absurd dots.symm isName.notDots
  | through isName => exact absurd dots.symm isName.notDots
  | last isName => exact absurd dots.symm isName.notDots

theorem Walks.of_directory (isName : IsEntryName name)
    (isDirectory : d.item? (place ++ [name]) = some .directory)
    (walks : Walks d follow links place (name :: tail) goal item) :
    Walks d follow links (place ++ [name]) tail goal item := by
  cases walks with
  | stay => exact absurd rfl isName.notDot
  | up => exact absurd rfl isName.notDots
  | down _ _ later => exact later
  | through _ isLink =>
    rw [isDirectory] at isLink
    cases isLink
  | last _ noDirectory => exact absurd isDirectory noDirectory

theorem Walks.of_link (isName : IsEntryName name)
    (isLink : d.item? (place ++ [name]) = some (.link target)) (goesOn : tail ≠ [])
    (walks : Walks d follow links place (name :: tail) goal item) :
    ∃ links, Walks d follow links (targetNames target place).1
      ((targetNames target place).2 ++ tail) goal item := by
  cases walks with
  | stay => exact absurd rfl isName.notDot
  | up => exact absurd rfl isName.notDots
  | down _ isDirectory =>
    rw [isLink] at isDirectory
    cases isDirectory
  | through _ isLink' _ later =>
    rw [isLink, Option.some.injEq, Item.link.injEq] at isLink'
    subst isLink'
    exact ⟨_, later⟩
  | last => exact absurd rfl goesOn

theorem Walks.rest {first : Nat} {middle : Place}
    (opens : Walks d true first place names middle item) (isDirectory : item = some .directory)
    (goesOn : tail ≠ []) {there : Option Item}
    (walks : Walks d follow links place (names ++ tail) goal there) :
    ∃ links, Walks d follow links middle tail goal there := by
  induction opens generalizing links with
  | done => exact ⟨links, walks⟩
  | stay _ ih => exact ih isDirectory walks.of_dot
  | up _ ih => exact ih isDirectory walks.of_dots
  | down isName there _ ih => exact ih isDirectory (walks.of_directory isName there)
  | through isName isLink _ _ ih =>
    obtain ⟨_, later⟩ := walks.of_link isName isLink (by simp [goesOn])
    apply ih isDirectory
    rw [List.append_assoc]
    exact later
  | last _ noDirectory => exact absurd isDirectory noDirectory

theorem Walks.eq_child (isName : IsName name)
    (noLink : ∀ target, d.item? (place ++ [name]) ≠ some (.link target))
    (walks : Walks d follow links place [name] goal item) : goal = place ++ [name] := by
  cases walks with
  | stay => exact absurd rfl isName.notDot
  | up => exact absurd rfl isName.notDots
  | down _ _ later =>
    cases later with
    | done => rfl
  | through _ isLink => exact absurd isLink (noLink _)
  | last => rfl

end

theorem walks_of_under {follow : Bool} {root : Path} {names : List String} {name : String}
    {place goal : Place} {item : Option Item}
    (opened : d.find true (root.under names) = .ok (place, some .directory))
    (found : d.find follow (root.under (names ++ [name])) = .ok (goal, item)) :
    ∃ links, Walks d follow links place [name] goal item := by
  have opens := walks_of_walk (find_eq_ok opened)
  have walks := walks_of_walk (find_eq_ok found)
  have shape : (root.under (names ++ [name])).segments = (root.under names).segments ++ [name] := by
    simp [Path.under]
  rw [shape] at walks
  exact opens.rest rfl (by simp) walks

/-! ### Counting links -/

def isLink (d : Disk) (p : Path) : Bool :=
  match d.find false p with
  | .ok (_, some (.link _)) => true
  | _ => false

def linksAlong (d : Disk) (root : Path) (names : List String) : Nat :=
  (List.range names.length).countP fun i => d.isLink (root.under (names.take (i + 1)))

theorem linksAlong_concat (root : Path) (names : List String) (name : String) :
    d.linksAlong root (names ++ [name]) =
      d.linksAlong root names + if d.isLink (root.under (names ++ [name])) then 1 else 0 := by
  have before : (List.range names.length).countP
      (fun i => d.isLink (root.under ((names ++ [name]).take (i + 1)))) =
        d.linksAlong root names := by
    refine List.countP_congr fun i member => ?_
    rw [List.mem_range] at member
    rw [List.take_append_of_le_length (by omega)]
  have whole : (names ++ [name]).take (names.length + 1) = names ++ [name] :=
    List.take_of_length_le (by simp)
  rw [linksAlong, List.length_append, List.length_singleton, List.range_succ, List.countP_append,
    before, List.countP_singleton, whole]

theorem isLink_under_eq_false {root : Path} {names : List String} {name : String} {place : Place}
    (isName : IsName name) (opened : d.find true (root.under names) = .ok (place, some .directory))
    (noLink : ∀ target, d.item? (place ++ [name]) ≠ some (.link target)) :
    d.isLink (root.under (names ++ [name])) = false := by
  unfold isLink
  split
  · rename_i goal target found
    obtain ⟨links, walks⟩ := walks_of_under opened found
    have here := walks.item_eq
    rw [walks.eq_child isName noLink] at here
    exact absurd here.symm (noLink target)
  · rfl

/-! ### Places on the way -/

/-- What holds of all places that resolving comes to, if it holds of the first one and the names
that are taken there fit. -/
structure Spreads (d : Disk) (strict : Bool) (fits : String → Prop) (holds : Place → Prop) :
    Prop where
  top : holds []
  up : ∀ place, holds place → holds place.dropLast
  down : ∀ place name, holds place → fits name → name ≠ "" → name ≠ "." →
    (d.linkAt (place ++ [name]) = .ok none ∨ strict = false) → holds (place ++ [name])
  target : ∀ target, ∀ piece ∈ Text.splitOn '/' target, fits piece

/-- Something holds of all places that links are known to lead to. -/
def AreAll (holds : Place → Prop) (met : List (Place × Option Place)) : Prop :=
  ∀ entry ∈ met, ∀ known, entry.2 = some known → holds known

/-- Something holds of where resolving ends, and of everything that it met links to. -/
def Resolved.EndsAt (holds : Place → Prop) : Resolved → Prop
  | .at goal met => holds goal ∧ AreAll holds met
  | _ => True

section
variable {strict : Bool} {fits : String → Prop} {holds : Place → Prop}
  {met : List (Place × Option Place)}

theorem AreAll.open (all : AreAll holds met) (place : Place) :
    AreAll holds ((place, none) :: met) := by
  intro entry member known same
  rcases List.mem_cons.mp member with here | before
  · rw [here] at same
    cases same
  · exact all entry before known same

theorem AreAll.cons (all : AreAll holds met) (place : Place) {goal : Place} (here : holds goal) :
    AreAll holds ((place, some goal) :: met) := by
  intro entry member known same
  rcases List.mem_cons.mp member with first | before
  · rw [first, Option.some.injEq] at same
    exact same ▸ here
  · exact all entry before known same

theorem Spreads.start (spreads : d.Spreads strict fits holds) {place : Place} (here : holds place)
    (target : String) : holds (targetPieces target place).1 ∧
      ∀ piece ∈ (targetPieces target place).2, fits piece := by
  unfold targetPieces
  split
  · exact ⟨spreads.top, spreads.target _⟩
  · exact ⟨here, spreads.target _⟩

theorem Spreads.resolveFrom (spreads : d.Spreads strict fits holds)
    {onLink : List (Place × Option Place) → Place → List String → Resolved}
    (links : ∀ met start pieces, AreAll holds met → holds start → (∀ piece ∈ pieces, fits piece) →
      Resolved.EndsAt holds (onLink met start pieces))
    (pieces : List String) (met : List (Place × Option Place)) (place : Place)
    (all : AreAll holds met) (here : holds place) (fit : ∀ piece ∈ pieces, fits piece) :
    Resolved.EndsAt holds (d.resolveFrom strict onLink met place pieces) := by
  -- A name is taken, or a link is followed: to where it is known to lead, or by its target.
  induction pieces generalizing met place with
  | nil => exact ⟨here, all⟩
  | cons name rest ih =>
    have first := fit name (List.mem_cons_self ..)
    have ih := fun met place all here => ih met place all here
      fun piece member => fit piece (List.mem_cons_of_mem _ member)
    unfold Disk.resolveFrom
    split
    · exact ih met place all here
    rename_i loud
    simp only [Bool.or_eq_true, decide_eq_true_eq, not_or] at loud
    split
    · exact ih met _ all (spreads.up place here)
    simp only
    split
    · split
      · exact trivial
      · rename_i lenient
        exact ih met _ all
          (spreads.down place name here first loud.1 loud.2 (.inr (by simpa using lenient)))
    · rename_i looked
      exact ih met _ all (spreads.down place name here first loud.1 loud.2 (.inl looked))
    · rename_i target looked
      split
      · rename_i origin goal found
        exact ih met goal all (all _ (List.mem_of_find?_eq_some found) goal rfl)
      · split
        · exact trivial
        · exact trivial
      · have start := spreads.start here target
        have followed := links ((place ++ [name], none) :: met) _ _ (all.open _) start.1 start.2
        split
        · rename_i goal met' ends
          rw [ends] at followed
          exact ih _ goal (followed.2.cons _ followed.1) followed.1
        · exact trivial
        · exact trivial

theorem Spreads.resolvePieces (spreads : d.Spreads strict fits holds) (depth : Nat)
    (met : List (Place × Option Place)) (place : Place) (pieces : List String)
    (all : AreAll holds met) (here : holds place) (fit : ∀ piece ∈ pieces, fits piece) :
    Resolved.EndsAt holds (d.resolvePieces strict depth met place pieces) := by
  induction depth generalizing met place pieces with
  | zero =>
    have nowhere : ∀ (met : List (Place × Option Place)) (start : Place) (pieces : List String),
        AreAll holds met → holds start → (∀ piece ∈ pieces, fits piece) →
        Resolved.EndsAt holds (.failed .tooDeep) := fun _ _ _ _ _ _ => trivial
    exact spreads.resolveFrom nowhere pieces met place all here fit
  | succ depth ih =>
    have links := fun met start pieces all here fit => ih met start pieces all here fit
    exact spreads.resolveFrom links pieces met place all here fit

end

/-! ### Places behind links -/

/-- A place holds something other than a link. -/
structure IsSolid (d : Disk) (place : Place) : Prop where
  there : d.item? place ≠ none
  noLink : ∀ target, d.item? place ≠ some (.link target)

theorem isSolid_of_directory {place : Place} (directory : d.item? place = some .directory) :
    d.IsSolid place :=
  ⟨by simp [directory], by simp [directory]⟩

theorem IsSolid.dropLast {place : Place} (solid : d.IsSolid place) (tree : d.IsTree) :
    d.item? place.dropLast = some .directory := by
  rcases List.eq_nil_or_concat place with rfl | ⟨above, name, rfl⟩
  · rfl
  · rw [List.concat_eq_append] at solid ⊢
    rw [List.dropLast_concat]
    exact tree.under above name solid.there

theorem linkAt_ne_none {place : Place} {link : Option String}
    (looked : d.linkAt place = .ok link) : d.item? place ≠ none := by
  unfold linkAt at looked
  split at looked
  · cases looked
  split at looked
  · rename_i there
    simp [there]
  · rename_i there
    simp [there]
  · cases looked

theorem spreads_isSolid (tree : d.IsTree) : d.Spreads true (fun _ => True) d.IsSolid where
  top := isSolid_of_directory rfl
  up _ solid := isSolid_of_directory (solid.dropLast tree)
  down _ _ _ _ _ _ looked := by
    have looked := looked.resolve_right (by decide)
    exact ⟨linkAt_ne_none looked, (linkAt_eq_ok looked).2 rfl⟩
  target _ _ _ := trivial

/-- The real path of a path is that of a solid place, to which the path leads as well. -/
theorem solid_of_resolve (proper : d.IsProper) {p real : Path}
    (resolved : d.resolve true p = .ok real) :
    ∃ goal, real = pathTo goal ∧ d.IsSolid goal ∧
      ∀ place item, d.find true p = .ok (place, some item) → place = goal := by
  obtain ⟨goal, met, shape, same, onward⟩ := resolve_eq_ok resolved
  have solid := (spreads_isSolid proper.tree).resolvePieces maxNestedLinks [] (d.startOf p)
    p.segments (fun entry member => by cases member) (isSolid_of_directory (proper.tree.startOf p))
    (fun _ _ => trivial)
  rw [shape] at solid
  refine ⟨goal, same, solid.1, fun place item found => ?_⟩
  have walks := walks_of_walk (find_eq_ok found)
  have names : namesOf p.segments = p.segments := by
    rw [namesOf, List.filter_eq_self]
    intro name member
    refine decide_eq_true fun empty => walks.filled proper (by simp) ?_
    rwa [← empty]
  rw [names] at onward
  obtain ⟨links, last⟩ := onward [] place (some item) ⟨_, by rwa [List.append_nil]⟩
  exact last.eq_of_nil

theorem spreads_isSegment (strict : Bool) : d.Spreads strict (fun piece => '/' ∉ piece.toList)
    fun place => ∀ name ∈ place, IsSegment name where
  top := by simp
  up _ are name member := are name (List.mem_of_mem_dropLast member)
  down _ _ are noSlash filled notDot _ other member := by
    rcases List.mem_append.mp member with before | last
    · exact are other before
    · rw [List.mem_singleton.mp last]
      exact ⟨filled, notDot, noSlash⟩
  target _ _ member := Text.not_mem_of_mem_splitOn member

theorem IsProper.isName (proper : d.IsProper) {place : Place} (there : d.item? place ≠ none) :
    ∀ name ∈ place, IsName name := by
  induction place using List.reverseRecOn with
  | nil => simp
  | append_singleton above last ih =>
    intro name member
    rcases List.mem_append.mp member with before | here
    · exact ih (by simp [proper.tree.under above last there]) name before
    · rw [List.mem_singleton.mp here]
      exact proper.named above last there

theorem isPlain_of_resolve (proper : d.IsProper) {strict : Bool} {p real : Path}
    (plain : p.IsPlain) (resolved : d.resolve strict p = .ok real) : real.IsPlain := by
  have start : ∀ name ∈ d.startOf p, IsSegment name := fun name member =>
    (proper.isName (by simp [proper.tree.startOf p]) name member).isSegment
  have ends := (spreads_isSegment strict).resolvePieces (d := d) maxNestedLinks [] (d.startOf p)
    p.segments (fun entry member => by cases member) start
    (fun piece member => (plain.segments piece member).noSlash)
  have same : d.realPath strict p = .ok real := by
    unfold resolve at resolved
    split at resolved
    · cases resolved
    split at resolved
    · cases resolved
    split at resolved
    · cases resolved
    rename_i other found
    rw [found]
    split at resolved
    · exact resolved
    split at resolved
    · split at resolved
      · cases resolved
      · exact resolved
    · exact resolved
  unfold realPath at same
  split at same
  · rename_i place met shape
    rw [shape] at ends
    rw [← Except.ok.inj same]
    exact ⟨Nat.le_succ 1, ends.1⟩
  · rw [← Except.ok.inj same]
    exact Path.isPlain_ofText _
  · cases same

theorem eq_pathTo_of_at {p real : Path} {goal : Place} {met : List (Place × Option Place)}
    (ends : d.resolvePieces false maxNestedLinks [] (d.startOf p) p.segments = .at goal met)
    (resolved : d.resolve false p = .ok real) : real = pathTo goal := by
  unfold resolve at resolved
  split at resolved
  · cases resolved
  split at resolved
  · cases resolved
  simp only [realPath, ends, Bool.false_eq_true, if_false] at resolved
  split at resolved
  · split at resolved
    · cases resolved
    · exact (Except.ok.inj resolved).symm
  · exact (Except.ok.inj resolved).symm

/-- A path has one real path, whether everything has to be there or not. -/
theorem resolve_unique {p real other : Path} (resolved : d.resolve true p = .ok real)
    (lenient : d.resolve false p = .ok other) : other = real := by
  obtain ⟨goal, met, ends, rfl, -⟩ := resolve_eq_ok resolved
  exact eq_pathTo_of_at (resolvePieces_of_strict ends) lenient

theorem IsSolid.find_pathTo (proper : d.IsProper) {place goal : Place} (solid : d.IsSolid place)
    {item : Option Item} (found : d.find true (pathTo place) = .ok (goal, item)) :
    goal = place := by
  have walks : Walks d true maxLinks [] place goal item := walks_of_walk (find_eq_ok found)
  exact walks.eq_place proper (by simpa using solid.there) (by simpa using solid.noLink)

/-! ### Places in directories -/

section
variable {onLink : List (Place × Option Place) → Place → List String → Resolved}
  {met after : List (Place × Option Place)} {place goal : Place}

/-- Resolving goes on from where the first pieces end. -/
theorem resolveFrom_append {strict : Bool} {first : List String} (more : List String)
    (ends : d.resolveFrom strict onLink met place first = .at goal after) :
    d.resolveFrom strict onLink met place (first ++ more) =
      d.resolveFrom strict onLink after goal more := by
  induction first generalizing met place with
  | nil =>
    cases ends
    rfl
  | cons name rest ih =>
    generalize d.resolveFrom strict onLink after goal more = last at ih ⊢
    rw [List.cons_append]
    unfold resolveFrom at ends ⊢
    split at ends
    · rename_i silent
      rw [if_pos silent]
      exact ih ends
    rename_i loud
    rw [if_neg loud]
    split at ends
    · rename_i dots
      rw [if_pos dots]
      exact ih ends
    rename_i notDots
    rw [if_neg notDots]
    simp only at ends ⊢
    split at ends
    · rename_i code looked
      split at ends
      · cases ends
      · rename_i lenient
        rw [if_neg lenient]
        exact ih ends
    · exact ih ends
    · split at ends
      · exact ih ends
      · split at ends
        · cases ends
        · cases ends
      · split at ends
        · exact ih ends
        · cases ends
        · cases ends

theorem resolveFrom_name {name : String} (isName : IsName name)
    (noLink : ∀ target, d.item? (place ++ [name]) ≠ some (.link target)) :
    d.resolveFrom false onLink met place [name] = .at (place ++ [name]) met := by
  unfold resolveFrom
  rw [if_neg (by simp [isName.filled, isName.notDot]), if_neg isName.notDots]
  simp only
  split
  · rfl
  · rfl
  · rename_i target looked
    exact absurd ((linkAt_eq_ok looked).1 target rfl) (noLink target)

theorem resolveFrom_directory (proper : d.IsProper) {names : List String}
    (directory : d.item? (place ++ names) = some .directory) :
    d.resolveFrom false onLink met place names = .at (place ++ names) met := by
  induction names using List.reverseRecOn with
  | nil => rw [List.append_nil, resolveFrom]
  | append_singleton names name ih =>
    rw [← List.append_assoc] at directory ⊢
    have there : d.item? (place ++ names ++ [name]) ≠ none := by
      rw [directory]
      simp
    rw [resolveFrom_append _ (ih (proper.tree.under _ name there))]
    refine resolveFrom_name (proper.named _ name there) fun target => ?_
    rw [directory]
    simp

end

theorem exists_resolveFrom (d : Disk) (strict : Bool) (depth : Nat) :
    ∃ onLink, d.resolvePieces strict depth = d.resolveFrom strict onLink := by
  cases depth with
  | zero => exact ⟨_, rfl⟩
  | succ depth => exact ⟨_, rfl⟩

end Disk
end SourceIndex
