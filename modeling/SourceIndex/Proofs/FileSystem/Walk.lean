import SourceIndex.FileSystem.Access
/-!
# Looking paths up on changing disks

A lookup is a chain of steps from directory to directory and over links. One that ends at a
directory goes over directories and links only, so that it ends there on every disk that has the
same ones, and one more name leads from there to what stands under it.
-/

namespace SourceIndex.Disk

/-! ### Steps -/

/-- A name that is looked up as itself. -/
structure IsEntryName (name : String) : Prop where
  notDot : name ≠ "."
  notDots : name ≠ ".."
  short : Text.Utf8.size name ≤ maxNameBytes

/-- A lookup that succeeds, from a place by names to a place and what stands there, over at most so
many links. -/
inductive Walks (d : Disk) (follow : Bool) :
    Nat → Place → List String → Place → Option Item → Prop
  | done (links : Nat) (place : Place) : Walks d follow links place [] place (d.item? place)
  | stay {links : Nat} {place goal : Place} {rest : List String} {item : Option Item}
    (later : Walks d follow links place rest goal item) :
    Walks d follow links place ("." :: rest) goal item
  | up {links : Nat} {place goal : Place} {rest : List String} {item : Option Item}
    (later : Walks d follow links place.dropLast rest goal item) :
    Walks d follow links place (".." :: rest) goal item
  | down {links : Nat} {place goal : Place} {name : String} {rest : List String}
    {item : Option Item} (isName : IsEntryName name)
    (there : d.item? (place ++ [name]) = some .directory)
    (later : Walks d follow links (place ++ [name]) rest goal item) :
    Walks d follow links place (name :: rest) goal item
  | through {links : Nat} {place goal : Place} {name target : String} {rest : List String}
    {item : Option Item} (isName : IsEntryName name)
    (there : d.item? (place ++ [name]) = some (.link target))
    (goesOn : rest ≠ [] ∨ follow = true)
    (later : Walks d follow links (targetNames target place).1
      ((targetNames target place).2 ++ rest) goal item) :
    Walks d follow (links + 1) place (name :: rest) goal item
  /-- There is nothing, no directory or a link that is not followed at the last name. -/
  | last {links : Nat} {place : Place} {name : String} (isName : IsEntryName name)
    (noDirectory : d.item? (place ++ [name]) ≠ some .directory)
    (noLink : ∀ target, d.item? (place ++ [name]) = some (.link target) → follow = false) :
    Walks d follow links place [name] (place ++ [name]) (d.item? (place ++ [name]))

theorem Walks.of_isEmpty {d : Disk} {follow : Bool} {links : Nat} {place goal : Place}
    {name : String} {rest : List String} {item : Option Item} (isName : IsEntryName name)
    (empty : rest.isEmpty = true) (noDirectory : d.item? (place ++ [name]) ≠ some .directory)
    (noLink : ∀ target, d.item? (place ++ [name]) = some (.link target) → follow = false)
    (found : (.ok (place ++ [name], d.item? (place ++ [name])) : Found) = .ok (goal, item)) :
    Walks d follow links place (name :: rest) goal item := by
  rw [List.isEmpty_iff.mp empty]
  rw [Except.ok.injEq, Prod.mk.injEq] at found
  obtain ⟨rfl, rfl⟩ := found
  exact .last isName noDirectory noLink

/-- Going down by names succeeds in steps, if going on after links does. -/
theorem walks_of_descend {d : Disk} {follow : Bool} {links : Nat} {goal : Place}
    {item : Option Item} {onLink : Place → List String → Found}
    (onward : ∀ place name target rest, IsEntryName name →
      d.item? (place ++ [name]) = some (.link target) → (rest ≠ [] ∨ follow = true) →
      onLink (targetNames target place).1 ((targetNames target place).2 ++ rest) =
        .ok (goal, item) → Walks d follow links place (name :: rest) goal item)
    {names : List String} {place : Place}
    (found : d.descend follow onLink place names = .ok (goal, item)) :
    Walks d follow links place names goal item := by
  induction names generalizing place with
  | nil =>
    rw [descend, Except.ok.injEq, Prod.mk.injEq] at found
    obtain ⟨rfl, rfl⟩ := found
    exact .done links place
  | cons name rest ih =>
    rw [descend] at found
    split at found
    · rename_i dot
      subst dot
      exact .stay (ih found)
    rename_i notDot
    split at found
    · rename_i dots
      subst dots
      exact .up (ih found)
    rename_i notDots
    split at found
    · cases found
    rename_i short
    have isName : IsEntryName name := ⟨notDot, notDots, by omega⟩
    simp only at found
    split at found
    · rename_i nothing
      split at found
      · rename_i empty
        exact .of_isEmpty isName empty (by simp [nothing]) (by simp [nothing])
          (by rwa [nothing])
      · cases found
    · rename_i target there
      split at found
      · rename_i stays
        rw [Bool.and_eq_true, Bool.not_eq_true'] at stays
        exact .of_isEmpty isName stays.1 (by simp [there]) (fun _ _ => stays.2)
          (by rwa [there])
      · rename_i goesOn
        refine onward place name target rest isName there ?_ found
        cases rest with
        | nil => exact .inr (by simpa using goesOn)
        | cons next rest => exact .inl (by simp)
    · rename_i there
      exact .down isName there (ih found)
    · rename_i other noLink noDirectory there
      split at found
      · rename_i empty
        refine .of_isEmpty isName empty ?_ (fun target same => ?_) (by rwa [there])
        · rw [there]
          exact fun same => noDirectory (Option.some.inj same)
        · rw [there] at same
          exact absurd (Option.some.inj same) (noLink target)
      · cases found

theorem walks_of_walk {d : Disk} {follow : Bool} {links : Nat} {place goal : Place}
    {names : List String} {item : Option Item}
    (found : d.walk follow links place names = .ok (goal, item)) :
    Walks d follow links place names goal item := by
  induction links generalizing place names with
  | zero =>
    exact walks_of_descend (fun _ _ _ _ _ _ _ fails => by cases fails) found
  | succ links ih =>
    exact walks_of_descend
      (fun _ _ _ _ isName there goesOn later => .through isName there goesOn (ih later)) found

/-- What is to be done after a link, by the number of links that may still follow. -/
def onLink (d : Disk) (follow : Bool) : Nat → Place → List String → Found
  | 0 => fun _ _ => .error FileError.tooManyLinks
  | links + 1 => d.walk follow links

theorem walk_eq_descend (d : Disk) (follow : Bool) (links : Nat) :
    d.walk follow links = d.descend follow (d.onLink follow links) := by
  cases links <;> rfl

theorem walk_of_walks {d : Disk} {follow : Bool} {links : Nat} {place goal : Place}
    {names : List String} {item : Option Item}
    (walks : Walks d follow links place names goal item) :
    d.walk follow links place names = .ok (goal, item) := by
  induction walks with
  | done links place => rw [walk_eq_descend, descend]
  | stay later ih =>
    rw [walk_eq_descend] at ih ⊢
    rw [descend, if_pos rfl]
    exact ih
  | up later ih =>
    rw [walk_eq_descend] at ih ⊢
    rw [descend, if_neg (by decide), if_pos rfl]
    exact ih
  | down isName there later ih =>
    rw [walk_eq_descend] at ih ⊢
    rw [descend, if_neg isName.notDot, if_neg isName.notDots, if_neg (by have := isName.short; omega)]
    simp only [there]
    exact ih
  | @through links place goal name target rest item isName there goesOn later ih =>
    rw [walk_eq_descend, descend, if_neg isName.notDot, if_neg isName.notDots,
      if_neg (by have := isName.short; omega)]
    simp only [there]
    rw [if_neg]
    · exact ih
    · rcases goesOn with more | follows
      · simp [more]
      · simp [follows]
  | @last links place name isName noDirectory noLink =>
    rw [walk_eq_descend, descend, if_neg isName.notDot, if_neg isName.notDots,
      if_neg (by have := isName.short; omega)]
    cases there : d.item? (place ++ [name]) with
    | none => simp [there]
    | some item =>
      cases item with
      | directory => exact absurd there noDirectory
      | link target => simp [there, noLink target there]
      | file data modified => simp [there]
      | special => simp [there]

theorem Walks.short {d : Disk} {follow : Bool} {links : Nat} {place goal : Place} {names : List String}
    {item : Option Item} (walks : Walks d follow links place names goal item) :
    ∀ name ∈ names, Text.Utf8.size name ≤ maxNameBytes := by
  induction walks with
  | done => simp
  | stay _ ih =>
    intro name member
    rcases List.mem_cons.mp member with here | later
    · rw [here]
      decide
    · exact ih name later
  | up _ ih =>
    intro name member
    rcases List.mem_cons.mp member with here | later
    · rw [here]
      decide
    · exact ih name later
  | down isName _ _ ih =>
    intro name member
    rcases List.mem_cons.mp member with here | later
    · rw [here]
      exact isName.short
    · exact ih name later
  | through isName _ _ _ ih =>
    intro name member
    rcases List.mem_cons.mp member with here | later
    · rw [here]
      exact isName.short
    · exact ih name (List.mem_append_right _ later)
  | last isName =>
    intro name member
    rw [List.mem_singleton.mp member]
    exact isName.short

/-! ### Disks that agree -/

/-- All directories and links of a disk are on another one, too. -/
structure Keeps (d after : Disk) : Prop where
  directory : ∀ place, d.item? place = some .directory → after.item? place = some .directory
  link : ∀ place target, d.item? place = some (.link target) →
    after.item? place = some (.link target)

theorem Keeps.trans {d next after : Disk} (first : d.Keeps next) (second : next.Keeps after) :
    d.Keeps after :=
  ⟨fun place there => second.directory place (first.directory place there),
    fun place target there => second.link place target (first.link place target there)⟩

/-- A lookup that ends at a directory only depends on directories and links. -/
theorem Walks.of_keeps {d after : Disk} (keeps : d.Keeps after) {links : Nat}
    {place goal : Place} {names : List String} {item : Option Item}
    (walks : Walks d true links place names goal item) (ends : item = some .directory) :
    Walks after true links place names goal item := by
  induction walks with
  | done links place =>
    rw [ends, ← keeps.directory place ends]
    exact .done links place
  | stay later ih => exact .stay (ih ends)
  | up later ih => exact .up (ih ends)
  | down isName there later ih => exact .down isName (keeps.directory _ there) (ih ends)
  | through isName there goesOn later ih =>
    exact .through isName (keeps.link _ _ there) goesOn (ih ends)
  | last isName noDirectory noLink => exact absurd ends noDirectory

theorem Walks.entry {d : Disk} {links : Nat} {place goal : Place} {names : List String}
    {item : Option Item} (walks : Walks d true links place names goal item)
    (ends : item = some .directory) {name : String} (isName : IsEntryName name) {follow : Bool}
    (noLink : ∀ target, d.item? (goal ++ [name]) = some (.link target) → follow = false) :
    Walks d follow links place (names ++ [name]) (goal ++ [name]) (d.item? (goal ++ [name])) := by
  induction walks with
  | done links place =>
    by_cases isDirectory : d.item? (place ++ [name]) = some .directory
    · exact .down isName isDirectory (.done links _)
    · exact .last isName isDirectory noLink
  | stay later ih => exact .stay (ih ends noLink)
  | up later ih => exact .up (ih ends noLink)
  | down isName' there later ih => exact .down isName' there (ih ends noLink)
  | @through links place goal name' target rest item isName' there goesOn later ih =>
    refine .through isName' there (.inl (by simp)) ?_
    have later := ih ends noLink
    rw [List.append_assoc] at later
    exact later
  | last isName' noDirectory _ => exact absurd ends noDirectory

theorem Walks.made {d after : Disk} {follow : Bool} {links : Nat} {place goal : Place}
    {names : List String} {item : Option Item}
    (walks : Walks d follow links place names goal item) (ends : item = none)
    (keeps : d.Keeps after) (made : after.item? goal = some .directory) :
    Walks after true links place names goal (some .directory) := by
  induction walks with
  | done links place =>
    rw [← made]
    exact .done links place
  | stay later ih => exact .stay (ih ends made)
  | up later ih => exact .up (ih ends made)
  | down isName there later ih => exact .down isName (keeps.directory _ there) (ih ends made)
  | through isName there goesOn later ih =>
    exact .through isName (keeps.link _ _ there) (.inr rfl) (ih ends made)
  | @last links place name isName _ _ =>
    refine .down isName made ?_
    rw [← made]
    exact .done links _

end SourceIndex.Disk
