import SourceIndex.FileSystem.Access
import SourceIndex.Proofs.FileSystem.Change
/-!
# Directories in reach

A directory that was made can be reached, and a name in it leads to what stands under it. Writing
and moving files in it changes what stands under these names and nothing else.
-/

namespace SourceIndex

/-! ### Texts of entries -/

namespace Path

/-- What stands before the name of an entry of a directory in its text. -/
def leadChars (p : Path) : List Char :=
  List.replicate p.slashes '/' ++ p.segments.flatMap fun segment => segment.toList ++ ['/']

theorem joinPieces_concat (separator : Char) (parts : List (List Char)) (last : List Char) :
    Text.joinPieces separator (parts ++ [last]) =
      (parts.flatMap fun part => part ++ [separator]) ++ last := by
  induction parts with
  | nil => simp [Text.joinPieces]
  | cons part rest ih =>
    have filled : rest ++ [last] ≠ [] := by simp
    obtain ⟨next, others, shape⟩ := List.exists_cons_of_ne_nil filled
    unfold Text.joinPieces at ih ⊢
    rw [List.cons_append, shape, List.intercalate_cons_cons, ← shape, ih]
    simp

theorem toList_text_child (p : Path) (name : String) :
    (p.child name).text.toList = p.leadChars ++ name.toList := by
  have shape : (p.child name).text =
      String.ofList (List.replicate p.slashes '/') ++
        Text.joinWith '/' (p.segments ++ [name]) := by
    simp [text, child]
  rw [shape, String.toList_append, String.toList_ofList, Text.joinWith, String.toList_ofList,
    List.map_append, List.map_singleton, joinPieces_concat, List.flatMap_map, leadChars,
    List.append_assoc]

@[simp] theorem parent_child (p : Path) (name : String) : (p.child name).parent = p := by
  simp [parent, child]

end Path

namespace Disk

theorem hasZero_child (p : Path) (name : String) :
    hasZero (p.child name) = (p.leadChars.contains '\x00' || name.toList.contains '\x00') := by
  rw [hasZero, Path.toList_text_child, List.contains_append]

/-! ### Reaching a directory -/

def Reaches (d : Disk) (p : Path) (place : Place) : Prop :=
  d.walk true maxLinks (d.startOf p) p.segments = .ok (place, some .directory)

theorem Walks.item_eq {d : Disk} {follow : Bool} {links : Nat} {place goal : Place}
    {names : List String} {item : Option Item}
    (walks : Walks d follow links place names goal item) : item = d.item? goal := by
  induction walks with
  | done => rfl
  | stay _ ih => exact ih
  | up _ ih => exact ih
  | down _ _ _ ih => exact ih
  | through _ _ _ _ ih => exact ih
  | last => rfl

theorem Reaches.directory {d : Disk} {p : Path} {place : Place} (reaches : d.Reaches p place) :
    d.item? place = some .directory :=
  (walks_of_walk reaches).item_eq.symm

theorem startOf_eq {d after : Disk} (here : after.here = d.here) (p : Path) :
    after.startOf p = d.startOf p := by
  rw [startOf, startOf, here]

theorem Reaches.of_keeps {d after : Disk} {p : Path} {place : Place} (reaches : d.Reaches p place)
    (keeps : d.Keeps after) (here : after.here = d.here) : after.Reaches p place := by
  rw [Reaches, startOf_eq here]
  exact walk_of_walks ((walks_of_walk reaches).of_keeps keeps rfl)

theorem find_child (follow : Bool) {d : Disk} {p : Path} {place : Place}
    (reaches : d.Reaches p place) {name : String} (isName : IsEntryName name)
    (noLink : ∀ target, d.item? (place ++ [name]) = some (.link target) → follow = false) :
    d.find follow (p.child name) =
      if maxPathBytes ≤ Text.Utf8.size (p.child name).text then .error FileError.nameTooLong
      else .ok (place ++ [name], d.item? (place ++ [name])) := by
  have walks := (walks_of_walk reaches).entry rfl isName noLink
  have found : d.walk follow maxLinks (d.startOf (p.child name)) (p.child name).segments =
      .ok (place ++ [name], d.item? (place ++ [name])) := walk_of_walks walks
  rw [find, found]

theorem Walks.parent {d : Disk} (tree : d.IsTree) {follow : Bool} {links : Nat}
    {place goal : Place} {names : List String} {item : Option Item}
    (walks : Walks d follow links place names goal item)
    (start : d.item? place = some .directory) :
    d.item? goal = some .directory ∨
      ∃ above name, goal = above ++ [name] ∧ d.item? above = some .directory := by
  induction walks with
  | done => exact .inl start
  | stay _ ih => exact ih start
  | up _ ih => exact ih (tree.dropLast start)
  | down _ there _ ih => exact ih there
  | @through links place goal name target rest item _ _ _ _ ih =>
    refine ih ?_
    unfold targetNames
    simp only
    split
    · rfl
    · exact start
  | @last links place name _ _ _ => exact .inr ⟨place, name, rfl, start⟩

theorem IsTree.startOf {d : Disk} (tree : d.IsTree) (p : Path) :
    d.item? (d.startOf p) = some .directory := by
  unfold Disk.startOf
  split
  · rfl
  · exact tree.here

/-! ### Making directories -/

/-- A lookup that finds something finds it on a disk on which everything stays. -/
theorem Walks.of_stays {d after : Disk}
    (stays : ∀ place, d.item? place ≠ none → after.item? place = d.item? place) {follow : Bool}
    {links : Nat} {place goal : Place} {names : List String} {item : Option Item}
    (walks : Walks d follow links place names goal item) (something : item ≠ none) :
    Walks after follow links place names goal item := by
  induction walks with
  | done links place =>
    rw [← stays place something]
    exact .done links place
  | stay later ih => exact .stay (ih something)
  | up later ih => exact .up (ih something)
  | down isName there later ih =>
    exact .down isName (by rw [stays _ (by simp [there]), there]) (ih something)
  | through isName there goesOn later ih =>
    exact .through isName (by rw [stays _ (by simp [there]), there]) goesOn (ih something)
  | @last links place name isName noDirectory noLink =>
    have same := stays _ something
    rw [← same] at noDirectory noLink ⊢
    exact .last isName noDirectory noLink

theorem find_eq_ok {d : Disk} {follow : Bool} {p : Path} {found : Place × Option Item}
    (looked : d.find follow p = .ok found) :
    d.walk follow maxLinks (d.startOf p) p.segments = .ok found := by
  unfold find at looked
  split at looked
  · cases looked
  · exact looked

theorem find_of_stays {d after : Disk}
    (stays : ∀ place, d.item? place ≠ none → after.item? place = d.item? place)
    (here : after.here = d.here) {p : Path} {follow : Bool} {place : Place} {item : Item}
    (looked : d.find follow p = .ok (place, some item)) :
    after.find follow p = .ok (place, some item) := by
  have walks := (walks_of_walk (find_eq_ok looked)).of_stays stays (by simp)
  unfold find at looked ⊢
  split at looked
  · cases looked
  rename_i short
  rw [if_neg short, startOf_eq here]
  exact walk_of_walks walks

/-- A path that operations can be asked for on every disk. -/
structure IsUsable (p : Path) : Prop where
  noZero : hasZero p = false
  short : ¬ maxPathBytes ≤ Text.Utf8.size p.text
  names : ∀ name ∈ p.segments, Text.Utf8.size name ≤ maxNameBytes

/-- A path that was looked up once can be used. -/
theorem isUsable_of_find {d : Disk} {p : Path} {follow : Bool} {found : Place × Option Item}
    (noZero : hasZero p = false) (looked : d.find follow p = .ok found) : IsUsable p := by
  refine ⟨noZero, fun long => ?_, (walks_of_walk (find_eq_ok looked)).short⟩
  rw [find, if_pos long] at looked
  cases looked

/-- A disk on which a directory is in reach, made from another one. -/
structure Made (d : Disk) (p : Path) (after : Disk) : Prop where
  usable : IsUsable p
  tree : after.IsTree
  here : after.here = d.here
  defects : after.defects = d.defects
  stays : ∀ place, d.item? place ≠ none → after.item? place = d.item? place
  reaches : ∃ place, after.Reaches p place

theorem made_makeOne {d after : Disk} {p : Path} (tree : d.IsTree)
    (made : d.makeOne p = .ok after) : Made d p after := by
  unfold makeOne at made
  split at made
  · cases made
  rename_i noZero
  split at made
  · cases made
  · cases made
  rename_i place looked
  rw [Except.ok.injEq] at made
  subst made
  have usable := isUsable_of_find (by simpa using noZero) looked
  have walks := walks_of_walk (find_eq_ok looked)
  have nothing : d.item? place = none := walks.item_eq.symm
  have parent := walks.parent tree (tree.startOf p)
  rw [nothing] at parent
  rcases parent with impossible | ⟨above, name, rfl, directory⟩
  · cases impossible
  have keeps : d.Keeps (d.put (above ++ [name]) .directory) :=
    keeps_put (by simp) (by simp [nothing]) (by simp [nothing])
  refine ⟨usable, tree.put directory fun _ => rfl, rfl, rfl, ?_, above ++ [name], ?_⟩
  · intro other there
    rw [item?_put d (by simp), if_neg]
    rintro rfl
    exact there nothing
  exact walk_of_walks (walks.made rfl keeps (by rw [item?_put d (by simp), if_pos rfl]))

theorem lookUp_eq_ok {d : Disk} {p : Path} {item : Item} (looked : d.lookUp p = .ok item) :
    hasZero p = false ∧ ∃ place, d.find true p = .ok (place, some item) := by
  unfold lookUp at looked
  split at looked
  · cases looked
  rename_i noZero
  refine ⟨by simpa using noZero, ?_⟩
  split at looked
  · cases looked
  · cases looked
  · rename_i place there found
    rw [Except.ok.injEq] at looked
    subst looked
    exact ⟨place, found⟩

theorem lookUp_of_stays {d after : Disk}
    (stays : ∀ place, d.item? place ≠ none → after.item? place = d.item? place)
    (here : after.here = d.here) {p : Path} {item : Item} (looked : d.lookUp p = .ok item) :
    after.lookUp p = .ok item := by
  obtain ⟨noZero, place, found⟩ := lookUp_eq_ok looked
  unfold lookUp
  rw [noZero, find_of_stays stays here found]
  rfl

theorem stat_eq_ok {d : Disk} {p : Path} {item : Item} (told : d.stat p = .ok item) :
    defect? p d.defects.stat = none ∧ d.lookUp p = .ok item := by
  unfold stat at told
  split at told
  · cases told
  · rename_i fine
    exact ⟨fine, told⟩

theorem lookUp_of_hasDirectory {d : Disk} {p : Path} (is : d.hasDirectory p = .ok true) :
    d.lookUp p = .ok .directory := by
  unfold hasDirectory at is
  split at is
  · cases is
  split at is
  · rename_i item told
    have directory : item = .directory := by simpa using is
    exact directory ▸ (stat_eq_ok told).2
  · rename_i e told
    unfold testFailed at is
    split at is
    · split at is <;> cases is
    · cases is
    · cases is
    · cases is

theorem find_of_hasDirectory {d : Disk} {p : Path} (is : d.hasDirectory p = .ok true) :
    ∃ place, d.find true p = .ok (place, some .directory) :=
  (lookUp_eq_ok (lookUp_of_hasDirectory is)).2

theorem made_whenThere {d after : Disk} {p : Path} {e : FileError} (tree : d.IsTree)
    (made : makeDirectory.whenThere d p e = .ok after) : Made d p after := by
  unfold makeDirectory.whenThere at made
  split at made
  · rename_i is
    rw [Except.ok.injEq] at made
    subst made
    obtain ⟨noZero, place, looked⟩ := lookUp_eq_ok (lookUp_of_hasDirectory is)
    exact ⟨isUsable_of_find noZero looked, tree, rfl, rfl, fun _ _ => rfl, place,
      find_eq_ok looked⟩
  · cases made
  · cases made

theorem made_makeDirectory {d after : Disk} {levels : Nat} {p : Path} (tree : d.IsTree)
    (made : d.makeDirectory levels p = .ok after) : Made d p after := by
  induction levels generalizing p after with
  | zero =>
    unfold makeDirectory at made
    split at made
    · rename_i last step
      rw [Except.ok.injEq] at made
      subst made
      exact made_makeOne tree step
    · split at made
      · split at made
        · cases made
        · cases made
      · exact made_whenThere tree made
    · cases made
  | succ levels ih =>
    unfold makeDirectory at made
    split at made
    · rename_i last step
      rw [Except.ok.injEq] at made
      subst made
      exact made_makeOne tree step
    · split at made
      · split at made
        · cases made
        · simp only at made
          split at made
          · cases made
          · rename_i above step
            have before := ih step
            have last : Made above p after := by
              split at made
              · rename_i last step
                rw [Except.ok.injEq] at made
                subst made
                exact made_makeOne before.tree step
              · exact made_whenThere before.tree made
            refine ⟨last.usable, last.tree, last.here.trans before.here, last.defects.trans before.defects, ?_,
              last.reaches⟩
            intro place there
            have same := before.stays place there
            rw [last.stays place (by rwa [same]), same]
      · exact made_whenThere tree made
    · cases made

/-! ### Files in a directory -/

/-- A directory is in reach on a disk that is a tree. -/
structure Opens (d : Disk) (p : Path) (place : Place) : Prop where
  tree : d.IsTree
  reaches : d.Reaches p place

/-- What stands at a place is a file or a directory, if there is anything. -/
def IsOrdinary (d : Disk) (place : Place) : Prop :=
  ∀ item, d.item? place = some item → item ≠ .special ∧ ∀ target, item ≠ .link target

variable {d after : Disk} {p : Path} {place : Place} {name : String}

theorem IsOrdinary.noLink (ordinary : d.IsOrdinary place) (target : String) :
    d.item? place ≠ some (.link target) :=
  fun there => (ordinary _ there).2 target rfl

structure Wrote (d : Disk) (p : Path) (place : Place) (name : String) (data : Bytes) (now : Int)
    (after : Disk) : Prop where
  opens : after.Opens p place
  here : after.here = d.here
  defects : after.defects = d.defects
  noZero : hasZero (p.child name) = false
  short : ¬ maxPathBytes ≤ Text.Utf8.size (p.child name).text
  file : after.item? (place ++ [name]) = some (.file data now)
  others : ∀ other, other ≠ place ++ [name] → after.item? other = d.item? other
  keeps : d.Keeps after

theorem wrote_writeFile {data : Bytes} {now : Int} (opens : d.Opens p place)
    (isName : IsEntryName name) (ordinary : d.IsOrdinary (place ++ [name]))
    (written : d.writeFile (p.child name) data now = .ok after) :
    Wrote d p place name data now after := by
  have found := find_child true opens.reaches isName
    fun target there => absurd there (ordinary.noLink target)
  unfold writeFile at written
  split at written
  · cases written
  rename_i noZero
  rw [found] at written
  split at written
  · cases written
  · cases written
  · rename_i there looked
    split at looked
    · cases looked
    · rw [Except.ok.injEq, Prod.mk.injEq] at looked
      exact absurd rfl (ordinary _ looked.2).1
  rename_i somewhere item noDirectory notSpecial looked
  split at looked
  · cases looked
  rename_i short
  rw [Except.ok.injEq, Prod.mk.injEq] at looked
  obtain ⟨rfl, rfl⟩ := looked
  rw [Except.ok.injEq] at written
  subst written
  have isFile : d.item? (place ++ [name]) ≠ some .directory := fun same =>
    noDirectory same
  have keeps : d.Keeps (d.put (place ++ [name]) (.file data now)) :=
    keeps_put (by simp) isFile ordinary.noLink
  refine ⟨⟨opens.tree.put opens.reaches.directory fun same => absurd same isFile,
    opens.reaches.of_keeps keeps rfl⟩, rfl, rfl, by simpa using noZero, short, ?_, ?_, keeps⟩
  · rw [item?_put d (by simp), if_pos rfl]
  · intro other differs
    rw [item?_put d (by simp), if_neg differs]

structure Moved (d : Disk) (p : Path) (place : Place) (source target : String) (after : Disk) :
    Prop where
  opens : after.Opens p place
  here : after.here = d.here
  defects : after.defects = d.defects
  short : ¬ maxPathBytes ≤ Text.Utf8.size (p.child target).text
  file : after.item? (place ++ [target]) = d.item? (place ++ [source])
  gone : after.item? (place ++ [source]) = none
  others : ∀ other, other ≠ place ++ [source] → other ≠ place ++ [target] →
    after.item? other = d.item? other
  keeps : (d.withoutLinks [place ++ [target]]).Keeps after

theorem replaceFile_eq_ok {source target : Path} (replaced : d.replaceFile source target = .ok after) :
    ∃ origin item goal stands, d.find false source = .ok (origin, some item) ∧
      d.find false target = .ok (goal, stands) ∧ stands ≠ some .directory ∧
      after = (d.erase origin).put goal item := by
  unfold replaceFile at replaced
  split at replaced
  · cases replaced
  · cases replaced
  rename_i origin item found
  split at replaced
  · cases replaced
  · cases replaced
  rename_i goal stands noDirectory found'
  exact ⟨origin, item, goal, stands, found, found', noDirectory, (Except.ok.inj replaced).symm⟩

theorem IsTree.item?_erase_file (tree : d.IsTree) {file other : Place} {data : Bytes}
    {modified : Int} (there : d.item? file = some (.file data modified)) (differs : other ≠ file) :
    (d.erase file).item? other = d.item? other := by
  by_cases root : other = []
  · rw [root]
    rfl
  rw [item?_erase d _ root]
  split
  · rename_i below
    by_contra something
    exact tree.not_below there (by simp) (Ne.symm something) differs below
  · rfl

theorem IsTree.keeps_move (tree : d.IsTree) {origin goal : Place} {data : Bytes} {modified : Int}
    (file : d.item? origin = some (.file data modified)) (inside : goal ≠ [])
    (noDirectory : d.item? goal ≠ some .directory) :
    (d.withoutLinks [goal]).Keeps ((d.erase origin).put goal (.file data modified)) := by
  have others {other : Place} (notOrigin : other ≠ origin) (notGoal : other ≠ goal) :
      ((d.erase origin).put goal (.file data modified)).item? other = d.item? other := by
    rw [item?_put _ inside, if_neg notGoal, tree.item?_erase_file file notOrigin]
  constructor
  · intro other found
    rw [item?_withoutLinks_eq_directory] at found
    rw [others ?_ ?_, found]
    · rintro rfl
      cases file.symm.trans found
    · rintro rfl
      exact noDirectory found
  · intro other link found
    rw [item?_withoutLinks_eq_link, List.mem_singleton] at found
    rw [others ?_ found.1, found.2]
    rintro rfl
    cases file.symm.trans found.2

/-- A file can be moved over a link as well. The directory stays in reach if it is reached without
that link. -/
theorem moved_replaceFile {source target : String} {data : Bytes} {modified : Int}
    (opens : d.Opens p place) (isSource : IsEntryName source) (isTarget : IsEntryName target)
    (differ : target ≠ source) (file : d.item? (place ++ [source]) = some (.file data modified))
    (around : (d.withoutLinks [place ++ [target]]).Reaches p place)
    (replaced : d.replaceFile (p.child source) (p.child target) = .ok after) :
    Moved d p place source target after := by
  have apart : place ++ [target] ≠ place ++ [source] := by simpa using differ
  obtain ⟨origin, item, goal, stands, found, found', noDirectory, rfl⟩ := replaceFile_eq_ok replaced
  rw [find_child false opens.reaches isSource fun _ _ => rfl] at found
  rw [find_child false opens.reaches isTarget fun _ _ => rfl] at found'
  split at found
  · cases found
  rw [Except.ok.injEq, Prod.mk.injEq, file, Option.some.injEq] at found
  obtain ⟨rfl, rfl⟩ := found
  split at found'
  · cases found'
  rename_i short
  rw [Except.ok.injEq, Prod.mk.injEq] at found'
  obtain ⟨rfl, rfl⟩ := found'
  have keeps := opens.tree.keeps_move file (by simp) noDirectory
  have erased : (d.erase (place ++ [source])).IsTree := opens.tree.erase file (by simp)
  have parent : (d.erase (place ++ [source])).item? place = some .directory := by
    rw [opens.tree.item?_erase_file file (by simp), opens.reaches.directory]
  have free : (d.erase (place ++ [source])).item? (place ++ [target]) ≠ some .directory := by
    rwa [opens.tree.item?_erase_file file apart]
  refine ⟨⟨erased.put parent fun same => absurd same free, around.of_keeps keeps rfl⟩, rfl, rfl,
    short, ?_, ?_, fun other notSource notTarget => ?_, keeps⟩
  · rw [item?_put _ (by simp), if_pos rfl, file]
  · rw [item?_put _ (by simp), if_neg (Ne.symm apart), item?_erase d _ (by simp),
      if_pos (List.prefix_refl _)]
  · rw [item?_put _ (by simp), if_neg notTarget, opens.tree.item?_erase_file file notSource]

end Disk
end SourceIndex
