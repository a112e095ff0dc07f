import SourceIndex.FileSystem.Resolve
import SourceIndex.Proofs.FileSystem.Directory
import SourceIndex.Proofs.Path.Text
/-!
# Real paths lead to the same

Where everything has to be there, resolving a path goes over the same directories and links as
looking it up, so that its real path leads to the same item.
-/

namespace SourceIndex.Disk

variable {d : Disk}

/-! ### Lookups -/

def Onward (d : Disk) (place : Place) (names : List String) (goal : Place) : Prop :=
  ∀ rest last item, (∃ links, Walks d true links place (names ++ rest) last item) →
    ∃ links, Walks d true links goal rest last item

theorem Onward.trans {place middle goal : Place} {first second : List String}
    (one : d.Onward place first middle) (other : d.Onward middle second goal) :
    d.Onward place (first ++ second) goal := by
  intro rest last item walks
  rw [List.append_assoc] at walks
  exact other rest last item (one _ last item walks)

theorem onward_dot (place : Place) : d.Onward place ["."] place := by
  rintro rest last item ⟨links, walks⟩
  rw [List.singleton_append] at walks
  generalize dot : "." = name at walks
  cases walks with
  | stay later => exact ⟨links, later⟩
  | up => exact absurd dot (by decide)
  | down isName => exact absurd dot.symm isName.notDot
  | through isName => exact absurd dot.symm isName.notDot
  | last isName => exact absurd dot.symm isName.notDot

theorem onward_dots (place : Place) : d.Onward place [".."] place.dropLast := by
  rintro rest last item ⟨links, walks⟩
  rw [List.singleton_append] at walks
  generalize dots : ".." = name at walks
  cases walks with
  | stay => exact absurd dots (by decide)
  | up later => exact ⟨links, later⟩
  | down isName => exact absurd dots.symm isName.notDots
  | through isName => exact absurd dots.symm isName.notDots
  | last isName => exact absurd dots.symm isName.notDots

theorem onward_name {place : Place} {name : String} (notDot : name ≠ ".") (notDots : name ≠ "..")
    (noLink : ∀ target, d.item? (place ++ [name]) ≠ some (.link target)) :
    d.Onward place [name] (place ++ [name]) := by
  rintro rest last item ⟨links, walks⟩
  cases walks with
  | stay => exact absurd rfl notDot
  | up => exact absurd rfl notDots
  | down _ _ later => exact ⟨links, later⟩
  | through _ there => exact absurd there (noLink _)
  | last => exact ⟨links, .done links _⟩

theorem onward_link {place goal : Place} {name target : String} (notDot : name ≠ ".")
    (notDots : name ≠ "..") (isLink : d.item? (place ++ [name]) = some (.link target))
    (onward : d.Onward (targetNames target place).1 (targetNames target place).2 goal) :
    d.Onward place [name] goal := by
  rintro rest last item ⟨links, walks⟩
  cases walks with
  | stay => exact absurd rfl notDot
  | up => exact absurd rfl notDots
  | down _ there =>
    rw [isLink] at there
    cases there
  | through _ there _ later =>
    rw [isLink, Option.some.injEq, Item.link.injEq] at there
    subst there
    exact onward rest last item ⟨_, later⟩
  | last _ _ noLink => cases noLink target isLink

def namesOf (pieces : List String) : List String := pieces.filter (· ≠ "")

theorem targetPieces_eq (target : String) (place : Place) :
    (targetPieces target place).1 = (targetNames target place).1 ∧
      namesOf (targetPieces target place).2 = (Text.splitOn '/' target).filter (· ≠ "") := by
  unfold targetPieces targetNames
  simp only
  split
  · rename_i rest shape
    rw [shape]
    refine ⟨by simp, ?_⟩
    have cut : Text.splitOn '/' target = "" :: Text.splitOn '/' (String.ofList rest) := by
      rw [Text.splitOn, Text.splitOn, shape, String.toList_ofList]
      simp [Text.pieces]
    rw [cut]
    simp [namesOf]
  · rename_i noSlash
    have relative : target.toList.head? ≠ some '/' := by
      intro head
      obtain ⟨rest, shape⟩ := List.head?_eq_some_iff.mp head
      exact noSlash rest shape
    rw [if_neg relative]
    exact ⟨rfl, rfl⟩

theorem onward_target {target : String} {place goal : Place}
    (onward : d.Onward (targetPieces target place).1 (namesOf (targetPieces target place).2) goal) :
    d.Onward (targetNames target place).1 (targetNames target place).2 goal := by
  obtain ⟨start, names⟩ := targetPieces_eq target place
  rw [start, names] at onward
  have whole : (targetNames target place).2 = (Text.splitOn '/' target).filter (· ≠ "") ∨
      (targetNames target place).2 = (Text.splitOn '/' target).filter (· ≠ "") ++ ["."] := by
    unfold targetNames
    simp only
    split
    · exact .inr rfl
    · exact .inl rfl
  rcases whole with same | more
  · rw [same]
    exact onward
  · rw [more]
    exact onward.trans (onward_dot goal)

/-! ### Resolving -/

/-- A relation between a place, pieces of a path and the place that they lead to, which goes along
with names, upwards and over links. -/
structure IsWay (d : Disk) (way : Place → List String → Place → Prop) : Prop where
  nil : ∀ place, way place [] place
  append : ∀ {place middle goal first second}, way place first middle → way middle second goal →
    way place (first ++ second) goal
  silent : ∀ place name, name = "" ∨ name = "." → way place [name] place
  up : ∀ place, way place [".."] place.dropLast
  down : ∀ {place name}, name ≠ "" → name ≠ "." → name ≠ ".." →
    (∀ target, d.item? (place ++ [name]) ≠ some (.link target)) →
    way place [name] (place ++ [name])
  through : ∀ {place name target goal}, name ≠ "" → name ≠ "." → name ≠ ".." →
    d.item? (place ++ [name]) = some (.link target) →
    way (targetPieces target place).1 (targetPieces target place).2 goal → way place [name] goal

theorem isWay_onward (d : Disk) :
    d.IsWay fun place pieces goal => d.Onward place (namesOf pieces) goal where
  nil _ _ _ _ walks := walks
  append one other := by
    rw [namesOf, List.filter_append]
    exact one.trans other
  silent place name quiet := by
    rcases quiet with rfl | rfl
    · exact fun _ _ _ walks => walks
    · exact onward_dot place
  up place := onward_dots place
  down filled notDot notDots noLink := by
    simp only [namesOf, ne_eq, filled, not_false_eq_true, decide_true, List.filter_cons_of_pos,
      List.filter_nil]
    exact onward_name notDot notDots noLink
  through filled notDot notDots isLink later := by
    simp only [namesOf, ne_eq, filled, not_false_eq_true, decide_true, List.filter_cons_of_pos,
      List.filter_nil]
    exact onward_link notDot notDots isLink (onward_target later)

section
variable {way : Place → List String → Place → Prop} {met : List (Place × Option Place)}
  {place goal : Place} {name : String}

/-- The links that are known lead where they are known to lead. -/
def AreKnown (way : Place → List String → Place → Prop) (met : List (Place × Option Place)) :
    Prop :=
  ∀ entry ∈ met, ∀ place name goal, entry = (place ++ [name], some goal) → way place [name] goal

theorem areKnown_nil : AreKnown way [] := fun _ member => by cases member

theorem AreKnown.cons (known : AreKnown way met) (leads : way place [name] goal) :
    AreKnown way ((place ++ [name], some goal) :: met) := by
  intro entry member above last known' same
  rcases List.mem_cons.mp member with here | before
  · rw [same, Prod.mk.injEq, Option.some.injEq] at here
    obtain ⟨rfl, rest⟩ := List.append_inj' here.1 rfl
    cases rest
    rw [here.2]
    exact leads
  · exact known entry before above last known' same

theorem AreKnown.open (known : AreKnown way met) (place : Place) :
    AreKnown way ((place, none) :: met) := by
  intro entry member above last goal same
  rcases List.mem_cons.mp member with here | before
  · rw [same] at here
    cases here
  · exact known entry before above last goal same

theorem AreKnown.of_find? (known : AreKnown way met) {origin : Place}
    (found : (met.find? fun entry => entry.1 == place ++ [name]) = some (origin, some goal)) :
    way place [name] goal := by
  have same : origin = place ++ [name] := by simpa using List.find?_some found
  exact known _ (List.mem_of_find?_eq_some found) place name goal (by rw [same])

/-- Resolving pieces from a place on is right: they lead to where it ends. -/
def Resolved.IsRight (way : Place → List String → Place → Prop) (place : Place)
    (pieces : List String) : Resolved → Prop
  | .at goal met => AreKnown way met ∧ way place pieces goal
  | .stuck _ => False
  | .failed _ => True

theorem Resolved.IsRight.step (isWay : d.IsWay way) {middle : Place} {pieces : List String}
    {resolved : Resolved} (first : way place [name] middle)
    (right : Resolved.IsRight way middle pieces resolved) :
    Resolved.IsRight way place (name :: pieces) resolved := by
  cases resolved with
  | «at» goal met => exact ⟨right.1, isWay.append first right.2⟩
  | stuck text => exact right
  | failed e => exact trivial

theorem linkAt_eq_ok {place : Place} {link : Option String} (looked : d.linkAt place = .ok link) :
    (∀ target, link = some target → d.item? place = some (.link target)) ∧
      (link = none → ∀ target, d.item? place ≠ some (.link target)) := by
  unfold linkAt at looked
  split at looked
  · cases looked
  split at looked
  · rename_i target there
    rw [Except.ok.injEq] at looked
    subst looked
    refine ⟨fun other same => ?_, fun none => by cases none⟩
    rw [there, Option.some.inj same]
  · rename_i item noLink there
    rw [Except.ok.injEq] at looked
    subst looked
    refine ⟨fun other same => (by cases same), fun _ target isLink => ?_⟩
    rw [there] at isLink
    exact noLink target (Option.some.inj isLink)
  · cases looked

theorem isRight_resolveFrom (isWay : d.IsWay way)
    {onLink : List (Place × Option Place) → Place → List String → Resolved}
    (links : ∀ met start pieces, AreKnown way met →
      Resolved.IsRight way start pieces (onLink met start pieces))
    (pieces : List String) (met : List (Place × Option Place)) (place : Place)
    (known : AreKnown way met) :
    Resolved.IsRight way place pieces (d.resolveFrom true onLink met place pieces) := by
  induction pieces generalizing met place with
  | nil => exact ⟨known, isWay.nil place⟩
  | cons name rest ih =>
    unfold resolveFrom
    split
    · rename_i silent
      simp only [Bool.or_eq_true, decide_eq_true_eq] at silent
      exact (ih met place known).step isWay (isWay.silent place name silent)
    rename_i loud
    simp only [Bool.or_eq_true, decide_eq_true_eq, not_or] at loud
    split
    · rename_i dots
      subst dots
      exact (ih met place.dropLast known).step isWay (isWay.up place)
    rename_i notDots
    simp only
    split
    · exact trivial
    · rename_i looked
      exact (ih met _ known).step isWay
        (isWay.down loud.1 loud.2 notDots ((linkAt_eq_ok looked).2 rfl))
    · rename_i target looked
      have isLink := (linkAt_eq_ok looked).1 target rfl
      split
      · rename_i origin goal found
        exact (ih met goal known).step isWay (known.of_find? found)
      · exact trivial
      · have followed := links ((place ++ [name], none) :: met) (targetPieces target place).1
          (targetPieces target place).2 (known.open _)
        split
        · rename_i goal met' ends
          rw [ends] at followed
          have leads := isWay.through loud.1 loud.2 notDots isLink followed.2
          exact (ih _ goal (followed.1.cons leads)).step isWay leads
        · rename_i text ends
          rw [ends] at followed
          exact followed.elim
        · exact trivial

theorem isRight_resolvePieces (isWay : d.IsWay way) (depth : Nat)
    (met : List (Place × Option Place)) (place : Place) (pieces : List String)
    (known : AreKnown way met) :
    Resolved.IsRight way place pieces (d.resolvePieces true depth met place pieces) := by
  induction depth generalizing met place pieces with
  | zero =>
    have nowhere : ∀ (met : List (Place × Option Place)) (start : Place) (pieces : List String),
        AreKnown way met → Resolved.IsRight way start pieces (.failed .tooDeep) :=
      fun _ _ _ _ => trivial
    exact isRight_resolveFrom isWay nowhere pieces met place known
  | succ depth ih =>
    exact isRight_resolveFrom isWay (fun met start pieces known => ih met start pieces known)
      pieces met place known

end

/-! ### Real paths -/

/-- A disk on which everything stands in a directory under a name. -/
structure IsProper (d : Disk) : Prop where
  tree : d.IsTree
  named : ∀ place name, d.item? (place ++ [name]) ≠ none → IsName name

theorem item?_ne_none_iff {d : Disk} {place : Place} (inside : place ≠ []) :
    d.item? place ≠ none ↔ ∃ entry ∈ d.items, entry.1 = place := by
  unfold item?
  rw [if_neg inside, ne_eq, Option.map_eq_none_iff, List.find?_eq_none]
  simp

/-- Whether everything on a disk stands in a directory under a name can be told from its items. -/
theorem isProper_iff {d : Disk} : d.IsProper ↔
    d.item? d.here = some .directory ∧ ∀ entry ∈ d.items, entry.1 = [] ∨
      d.item? entry.1.dropLast = some .directory ∧ IsName (entry.1.getLastD "") := by
  constructor
  · intro proper
    refine ⟨proper.tree.here, fun entry member => ?_⟩
    rcases List.eq_nil_or_concat entry.1 with root | ⟨place, name, same⟩
    · exact .inl root
    · rw [List.concat_eq_append] at same
      have there : d.item? (place ++ [name]) ≠ none :=
        (item?_ne_none_iff (by simp)).mpr ⟨entry, member, same⟩
      rw [same, List.dropLast_concat, List.getLastD_concat]
      exact .inr ⟨proper.tree.under place name there, proper.named place name there⟩
  · rintro ⟨here, all⟩
    have inside (place : Place) (name : String) (there : d.item? (place ++ [name]) ≠ none) :
        d.item? place = some .directory ∧ IsName name := by
      obtain ⟨entry, member, same⟩ := (item?_ne_none_iff (by simp)).mp there
      have found := all entry member
      rw [same, List.dropLast_concat, List.getLastD_concat] at found
      exact found.resolve_left (by simp)
    exact ⟨⟨fun place name there => (inside place name there).1, here⟩,
      fun place name there => (inside place name there).2⟩

instance (d : Disk) : Decidable d.IsProper := decidable_of_iff _ isProper_iff.symm

theorem Walks.eq_of_nil {links : Nat} {place goal : Place} {item : Option Item}
    (walks : Walks d true links place [] goal item) : goal = place := by
  cases walks with
  | done => rfl

theorem Walks.filled {follow : Bool} {links : Nat} {place goal : Place} {names : List String}
    {item : Option Item} (walks : Walks d follow links place names goal item)
    (proper : d.IsProper) (something : item ≠ none) : "" ∉ names := by
  induction walks with
  | done => simp
  | stay _ ih => simpa using ih something
  | up _ ih => simpa using ih something
  | @down _ place _ name _ _ _ there _ ih =>
    have isName := proper.named place name (by simp [there])
    simpa [Ne.symm isName.filled] using ih something
  | @through _ place _ name _ _ _ _ there _ _ ih =>
    have isName := proper.named place name (by simp [there])
    have later := ih something
    rw [List.mem_append, not_or] at later
    simpa [Ne.symm isName.filled] using later.2
  | @last _ place name =>
    simpa [eq_comm] using (proper.named place name something).filled

theorem Walks.not_link {links : Nat} {place goal : Place} {names : List String}
    {item : Option Item} (walks : Walks d true links place names goal item)
    (start : d.item? place = some .directory) (tree : d.IsTree) (target : String) :
    item ≠ some (.link target) := by
  induction walks with
  | done => simp [start]
  | stay _ ih => exact ih start
  | up _ ih => exact ih (tree.dropLast start)
  | down _ there _ ih => exact ih there
  | @through _ place _ _ target _ _ _ _ _ _ ih =>
    refine ih ?_
    unfold targetNames
    simp only
    split
    · rfl
    · exact start
  | last _ _ noLink => exact fun isLink => by cases noLink target isLink

/-- The names of a place lead there. -/
theorem Walks.eq_place {links : Nat} {place goal : Place} {names : List String}
    {item : Option Item} (proper : d.IsProper)
    (there : d.item? (place ++ names) ≠ none)
    (noLink : ∀ target, d.item? (place ++ names) ≠ some (.link target))
    (walks : Walks d true links place names goal item) : goal = place ++ names := by
  induction names generalizing links place with
  | nil =>
    cases walks with
    | done => simp
  | cons name rest ih =>
    have shape : place ++ name :: rest = (place ++ [name]) ++ rest := by simp
    have something : d.item? (place ++ [name]) ≠ none := by
      by_cases last : rest = []
      · rwa [shape, last, List.append_nil] at there
      · rw [shape] at there
        rw [proper.tree.above last there]
        simp
    have isName := proper.named place name something
    cases walks with
    | stay => exact absurd rfl isName.notDot
    | up => exact absurd rfl isName.notDots
    | down _ _ later =>
      rw [shape]
      exact ih (shape ▸ there) (fun target => shape ▸ noLink target) later
    | through _ isLink _ _ =>
      by_cases last : rest = []
      · rw [shape, last, List.append_nil] at noLink
        exact absurd isLink (noLink _)
      · rw [shape] at there
        rw [proper.tree.above last there] at isLink
        cases isLink
    | last => rfl

theorem resolve_eq_ok {p real : Path} (resolved : d.resolve true p = .ok real) :
    ∃ goal met, d.resolvePieces true maxNestedLinks [] (d.startOf p) p.segments = .at goal met ∧
      real = pathTo goal ∧ d.Onward (d.startOf p) (namesOf p.segments) goal := by
  have right := isRight_resolvePieces d.isWay_onward maxNestedLinks [] (d.startOf p) p.segments
    areKnown_nil
  unfold resolve at resolved
  split at resolved
  · cases resolved
  split at resolved
  · cases resolved
  unfold realPath at resolved
  split at resolved
  · cases resolved
  rename_i path step
  simp only [if_true, Except.ok.injEq] at resolved
  subst resolved
  split at step
  · rename_i goal met shape
    rw [shape] at right
    rw [Except.ok.injEq] at step
    exact ⟨goal, met, shape, step.symm, right.2⟩
  · rename_i text shape
    rw [shape] at right
    exact right.elim
  · cases step

theorem stat_resolve (proper : d.IsProper) {p real : Path}
    (resolved : d.resolve true p = .ok real) {item other : Item} (told : d.stat real = .ok item)
    (found : d.stat p = .ok other) : other = item := by
  obtain ⟨-, place, looked⟩ := lookUp_eq_ok (stat_eq_ok found).2
  have walks := walks_of_walk (find_eq_ok looked)
  have names : namesOf p.segments = p.segments := by
    rw [namesOf, List.filter_eq_self]
    intro name member
    refine decide_eq_true fun empty => walks.filled proper (by simp) ?_
    rwa [← empty]
  obtain ⟨goal, -, -, rfl, onward⟩ := resolve_eq_ok resolved
  rw [names] at onward
  have noLink := walks.not_link (proper.tree.startOf p) proper.tree
  obtain ⟨links, last⟩ := onward [] place (some other) ⟨_, by rwa [List.append_nil]⟩
  have same : some other = d.item? goal := by
    rw [← last.eq_of_nil]
    exact last.item_eq
  obtain ⟨-, place', looked'⟩ := lookUp_eq_ok (stat_eq_ok told).2
  have walks' := walks_of_walk (find_eq_ok looked')
  have start : d.startOf (pathTo goal) = [] := rfl
  rw [start] at walks'
  have here : place' = [] ++ goal := walks'.eq_place proper
    (by simp [← same]) (fun target => by simpa [← same] using noLink target)
  have item' := walks'.item_eq
  rw [here, List.nil_append, ← same, Option.some.injEq] at item'
  exact item'.symm

/-! ### Paths to what need not be there -/

theorem resolveFrom_of_strict
    {onLink other : List (Place × Option Place) → Place → List String → Resolved}
    (links : ∀ met start pieces goal after,
      onLink met start pieces = .at goal after → other met start pieces = .at goal after)
    {pieces : List String} {met after : List (Place × Option Place)} {place goal : Place}
    (ends : d.resolveFrom true onLink met place pieces = .at goal after) :
    d.resolveFrom false other met place pieces = .at goal after := by
  -- The two differ only where nothing is found, and there the strict one does not end at a place.
  induction pieces generalizing met place with
  | nil => exact ends
  | cons name rest ih =>
    unfold resolveFrom at ends ⊢
    split at ends
    · rename_i silent
      rw [if_pos silent]
      exact ih ends
    rename_i loud
    rw [if_neg loud]
    split at ends
    · rename_i dots
      rw [if_pos dots]
      exact ih ends
    rename_i notDots
    rw [if_neg notDots]
    simp only at ends ⊢
    split at ends
    · cases ends
    · exact ih ends
    · split at ends
      · exact ih ends
      · cases ends
      · split at ends
        · rename_i known met' followed
          simp only [links _ _ _ _ _ followed]
          exact ih ends
        · cases ends
        · cases ends

theorem resolvePieces_of_strict {depth : Nat} {pieces : List String}
    {met after : List (Place × Option Place)} {place goal : Place}
    (ends : d.resolvePieces true depth met place pieces = .at goal after) :
    d.resolvePieces false depth met place pieces = .at goal after := by
  induction depth generalizing met after place goal pieces with
  | zero => exact resolveFrom_of_strict (fun _ _ _ _ _ fails => by cases fails) ends
  | succ depth ih => exact resolveFrom_of_strict (fun _ _ _ _ _ followed => ih followed) ends

/-- A path to something has the same real path whether everything has to be there or not. -/
theorem resolve_of_strict {p real : Path} (resolved : d.resolve true p = .ok real) {item : Item}
    (told : d.stat real = .ok item) : d.resolve false p = .ok real := by
  obtain ⟨goal, met, ends, same, -⟩ := resolve_eq_ok resolved
  have lenient := resolvePieces_of_strict ends
  unfold resolve at resolved ⊢
  split at resolved
  · cases resolved
  split at resolved
  · cases resolved
  rename_i noZero
  simp only [noZero, realPath, lenient, ← same, told]
  rfl

end SourceIndex.Disk
