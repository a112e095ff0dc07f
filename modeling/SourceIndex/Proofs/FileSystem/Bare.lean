import SourceIndex.Proofs.FileSystem.Real
/-!
# What files hold does not matter for paths

Looking up and resolving tell directories, links and files apart, but do not read files. So they
give the same on a disk where all files are empty, and a file that grows while it is read does not
change where anything is.
-/

namespace SourceIndex

/-! ### Answers seen through a function -/

theorem eq_ok_of_map {ε α β : Type} {f : α → β} {answer : Except ε α} {b : β}
    (seen : answer.map f = .ok b) : ∃ a, answer = .ok a ∧ f a = b := by
  cases answer with
  | error e => cases seen
  | ok a => exact ⟨a, rfl, Except.ok.inj seen⟩

theorem eq_error_of_map {ε α β : Type} {f : α → β} {answer : Except ε α} {e : ε}
    (seen : answer.map f = .error e) : answer = .error e := by
  cases answer with
  | error e' => exact congrArg Except.error (Except.error.inj seen)
  | ok a => cases seen

/-! ### Items without what they hold -/

def Item.bare : Item → Item
  | .file _ modified => .file [] modified
  | item => item

theorem Item.eq_file_of_bare {item : Item} {data : Bytes} {modified : Int}
    (same : item.bare = (Item.file data modified).bare) : ∃ own, item = .file own modified := by
  cases item with
  | file own modified' =>
    cases same
    exact ⟨own, rfl⟩
  | directory => cases same
  | link => cases same
  | special => cases same

theorem Item.eq_directory_of_bare {item : Item} (same : item.bare = Item.directory.bare) :
    item = .directory := by
  cases item with
  | file => cases same
  | directory => rfl
  | link => cases same
  | special => cases same

theorem Item.eq_special_of_bare {item : Item} (same : item.bare = Item.special.bare) :
    item = .special := by
  cases item with
  | file => cases same
  | directory => cases same
  | link => cases same
  | special => rfl

theorem Item.eq_link_of_bare {item : Item} {target : String}
    (same : item.bare = (Item.link target).bare) : item = .link target := by
  cases item with
  | file => cases same
  | directory => cases same
  | link => exact same
  | special => cases same

namespace Disk

def bare (d : Disk) : Disk := { d with items := d.items.map fun entry => (entry.1, entry.2.bare) }

variable {d : Disk}

/-! ### Items -/

theorem item?_bare (d : Disk) (place : Place) :
    d.bare.item? place = (d.item? place).map Item.bare := by
  unfold item?
  split
  · rfl
  · simp only [bare, List.find?_map, Option.map_map]
    rfl

theorem item?_bare_eq_none {place : Place} : d.bare.item? place = none ↔ d.item? place = none := by
  rw [item?_bare, Option.map_eq_none_iff]

theorem item?_bare_eq_directory {place : Place} :
    d.bare.item? place = some .directory ↔ d.item? place = some .directory := by
  rw [item?_bare]
  cases d.item? place with
  | none => simp
  | some item => cases item <;> simp [Item.bare]

theorem isProper_bare : d.bare.IsProper ↔ d.IsProper := by
  have something (place : Place) : d.bare.item? place ≠ none ↔ d.item? place ≠ none :=
    not_congr item?_bare_eq_none
  constructor
  · rintro ⟨⟨under, here⟩, named⟩
    exact ⟨⟨fun place name there =>
        item?_bare_eq_directory.mp (under place name ((something _).mpr there)),
      item?_bare_eq_directory.mp here⟩, fun place name there =>
        named place name ((something _).mpr there)⟩
  · rintro ⟨⟨under, here⟩, named⟩
    exact ⟨⟨fun place name there =>
        item?_bare_eq_directory.mpr (under place name ((something _).mp there)),
      item?_bare_eq_directory.mpr here⟩, fun place name there =>
        named place name ((something _).mp there)⟩

/-! ### Looking up -/

def bareFound (found : Place × Option Item) : Place × Option Item :=
  (found.1, found.2.map Item.bare)

theorem descend_bare {follow : Bool} {onLink other : Place → List String → Found}
    (links : ∀ start names, other start names = (onLink start names).map bareFound)
    (names : List String) (place : Place) :
    d.bare.descend follow other place names =
      (d.descend follow onLink place names).map bareFound := by
  induction names generalizing place with
  | nil =>
    rw [descend, descend, item?_bare]
    rfl
  | cons name rest ih =>
    unfold descend
    split
    · exact ih place
    split
    · exact ih place.dropLast
    split
    · rfl
    simp only [item?_bare]
    cases d.item? (place ++ [name]) with
    | none =>
      simp only [Option.map_none]
      split <;> rfl
    | some item =>
      cases item with
      | file data modified =>
        simp only [Option.map_some, Item.bare]
        split <;> rfl
      | directory => exact ih (place ++ [name])
      | link target =>
        simp only [Option.map_some, Item.bare]
        split
        · rfl
        · exact links _ _
      | special =>
        simp only [Option.map_some, Item.bare]
        split <;> rfl

theorem walk_bare (follow : Bool) (links : Nat) (place : Place) (names : List String) :
    d.bare.walk follow links place names = (d.walk follow links place names).map bareFound := by
  induction links generalizing place names with
  | zero =>
    have nowhere (start : Place) (names : List String) :
        (Except.error FileError.tooManyLinks : Found) =
          (Except.error FileError.tooManyLinks : Found).map bareFound := rfl
    exact descend_bare nowhere names place
  | succ links ih => exact descend_bare ih names place

theorem find_bare (follow : Bool) (p : Path) :
    d.bare.find follow p = (d.find follow p).map bareFound := by
  unfold find
  split
  · rfl
  · exact walk_bare ..

theorem lookUp_bare (p : Path) : d.bare.lookUp p = (d.lookUp p).map Item.bare := by
  unfold lookUp
  split
  · rfl
  · rw [find_bare]
    cases d.find true p with
    | error code => rfl
    | ok found =>
      obtain ⟨place, item⟩ := found
      cases item <;> rfl

theorem stat_bare (p : Path) : d.bare.stat p = (d.stat p).map Item.bare := by
  unfold stat
  simp only [show d.bare.defects = d.defects from rfl]
  split
  · rfl
  · exact lookUp_bare p

/-! ### Resolving -/

theorem linkAt_bare (place : Place) : d.bare.linkAt place = d.linkAt place := by
  have absent : d.bare.absence place = d.absence place := by
    unfold absence
    rw [find_bare]
    cases d.find false (pathTo place) <;> rfl
  unfold linkAt
  split
  · rfl
  rw [item?_bare, absent]
  cases d.item? place with
  | none => rfl
  | some item => cases item <;> rfl

theorem resolveFrom_bare (strict : Bool)
    (onLink : List (Place × Option Place) → Place → List String → Resolved)
    (met : List (Place × Option Place)) (place : Place) (pieces : List String) :
    d.bare.resolveFrom strict onLink met place pieces =
      d.resolveFrom strict onLink met place pieces := by
  induction pieces generalizing met place with
  | nil => rfl
  | cons name rest ih =>
    unfold resolveFrom
    simp only [linkAt_bare, ih]

theorem resolvePieces_bare (strict : Bool) (depth : Nat) :
    d.bare.resolvePieces strict depth = d.resolvePieces strict depth := by
  induction depth with
  | zero =>
    funext met place pieces
    exact resolveFrom_bare ..
  | succ depth ih =>
    funext met place pieces
    rw [resolvePieces, resolvePieces, ih]
    exact resolveFrom_bare ..

theorem resolve_bare (strict : Bool) (p : Path) : d.bare.resolve strict p = d.resolve strict p := by
  have real : d.bare.realPath strict p = d.realPath strict p := by
    unfold realPath
    rw [resolvePieces_bare]
    rfl
  unfold resolve
  simp only [show d.bare.defects = d.defects from rfl]
  split
  · rfl
  split
  · rfl
  rw [real]
  cases d.realPath strict p with
  | error e => rfl
  | ok path =>
    simp only [stat_bare]
    cases d.stat path with
    | error e => rfl
    | ok item => rfl

/-! ### Growing files -/

theorem bare_growItem (count : Nat) (item : Item) : (growItem count item).bare = item.bare := by
  cases item <;> rfl

theorem bare_grow (d : Disk) (p : Path) (count : Nat) : (d.grow p count).bare = d.bare := by
  unfold grow
  split
  · rename_i place item found
    simp only [bare, List.map_map]
    congr 1
    apply List.map_congr_left
    intro entry member
    simp only [Function.comp_apply]
    split
    · rw [bare_growItem]
    · rfl
  · rfl

theorem bare_readBounded (d : Disk) (p : Path) (limit : Int) :
    (d.readBounded p limit).2.bare = d.bare := by
  simp only [readBounded, beforeReading]
  split
  · exact bare_grow ..
  · rfl

/-! ### Disks that differ in what files hold -/

variable {other : Disk}

theorem IsProper.of_bare (proper : d.IsProper) (same : other.bare = d.bare) : other.IsProper := by
  rw [← isProper_bare, same, isProper_bare]
  exact proper

theorem resolve_of_bare (same : other.bare = d.bare) (strict : Bool) (p : Path) :
    other.resolve strict p = d.resolve strict p := by
  rw [← resolve_bare, same, resolve_bare]

theorem item?_of_bare (same : other.bare = d.bare) {place : Place} {item : Item}
    (there : other.item? place = some item) :
    ∃ own, d.item? place = some own ∧ own.bare = item.bare := by
  have shown : (d.item? place).map Item.bare = some item.bare := by
    rw [← item?_bare, ← same, item?_bare, there, Option.map_some]
  exact Option.map_eq_some_iff.mp shown

theorem find_some_of_bare (same : other.bare = d.bare) {follow : Bool} {p : Path} {place : Place}
    {item : Item} (found : other.find follow p = .ok (place, some item)) :
    ∃ own, d.find follow p = .ok (place, some own) ∧ own.bare = item.bare := by
  have shown : (d.find follow p).map bareFound = .ok (place, some item.bare) := by
    rw [← find_bare, ← same, find_bare, found]
    rfl
  obtain ⟨⟨goal, there⟩, own, pair⟩ := eq_ok_of_map shown
  rw [bareFound, Prod.mk.injEq] at pair
  obtain ⟨rfl, here⟩ := pair
  obtain ⟨kind, rfl, bare⟩ := Option.map_eq_some_iff.mp here
  exact ⟨kind, own, bare⟩

theorem find_directory_of_bare (same : other.bare = d.bare) {follow : Bool} {p : Path}
    {place : Place} (found : other.find follow p = .ok (place, some .directory)) :
    d.find follow p = .ok (place, some .directory) := by
  obtain ⟨own, there, bare⟩ := find_some_of_bare same found
  rw [there, Item.eq_directory_of_bare bare]

theorem stat_of_bare (same : other.bare = d.bare) {p : Path} {item : Item}
    (told : other.stat p = .ok item) : ∃ own, d.stat p = .ok own ∧ own.bare = item.bare := by
  have shown : (d.stat p).map Item.bare = .ok item.bare := by
    rw [← stat_bare, ← same, stat_bare, told]
    rfl
  exact eq_ok_of_map shown

theorem find_of_stat {p : Path} {item : Item} (told : d.stat p = .ok item) :
    ∃ goal, d.find true p = .ok (goal, some item) ∧ d.item? goal = some item := by
  obtain ⟨-, goal, found⟩ := lookUp_eq_ok (stat_eq_ok told).2
  exact ⟨goal, found, (walks_of_walk (find_eq_ok found)).item_eq.symm⟩

end Disk

end SourceIndex
