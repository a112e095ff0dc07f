import SourceIndex.Proofs.FileSystem.Links
/-!
# Where writing succeeds

Whether the system takes a path at all depends on its text alone. Such a path leads to every place
that it names and that can be reached, and a file is written or moved there if only a file is in the
way.
-/

namespace SourceIndex.Disk
variable {d : Disk} {p : Path} {place goal : Place} {name : String} {names rest : List String}
  {links : Nat} {follow : Bool} {item : Option Item}

/-! ### Paths of places -/

theorem IsTree.above_directory (tree : d.IsTree)
    (directory : d.item? (place ++ names) = some .directory) :
    d.item? place = some .directory := by
  by_cases last : names = []
  · rwa [last, List.append_nil] at directory
  · apply tree.above last
    rw [directory]
    simp

theorem walks_of_directory (proper : d.IsProper)
    (directory : d.item? (place ++ names) = some .directory)
    (short : ∀ name ∈ names, Text.Utf8.size name ≤ maxNameBytes) :
    Walks d follow links place names (place ++ names) (some .directory) := by
  induction names generalizing place with
  | nil =>
    rw [List.append_nil] at directory ⊢
    rw [← directory]
    exact .done links place
  | cons name rest ih =>
    have shape : place ++ name :: rest = place ++ [name] ++ rest := by simp
    rw [shape] at directory ⊢
    have here := proper.tree.above_directory directory
    have isName := proper.named place name (by simp [here])
    apply Walks.down ⟨isName.notDot, isName.notDots, short name (List.mem_cons_self ..)⟩ here
    exact ih directory fun other member => short other (List.mem_cons_of_mem _ member)

theorem reaches_pathTo (proper : d.IsProper) (directory : d.item? place = some .directory)
    (short : ∀ name ∈ place, Text.Utf8.size name ≤ maxNameBytes) :
    d.Reaches (pathTo place) place := by
  have walks : Walks d true maxLinks [] place place (some .directory) :=
    walks_of_directory proper directory short
  exact walk_of_walks walks

theorem reaches_child (reaches : d.Reaches p place) (isName : IsEntryName name)
    (directory : d.item? (place ++ [name]) = some .directory) :
    d.Reaches (p.child name) (place ++ [name]) := by
  have walks : Walks d true maxLinks (d.startOf p) (p.segments ++ [name]) (place ++ [name])
      (d.item? (place ++ [name])) :=
    (walks_of_walk reaches).entry rfl isName fun target isLink => by
      rw [directory] at isLink
      cases isLink
  rw [directory] at walks
  exact walk_of_walks walks

theorem Walks.of_place (proper : d.IsProper)
    (directory : d.item? (place ++ names) = some .directory)
    (walks : Walks d follow links place (names ++ rest) goal item) :
    Walks d follow links (place ++ names) rest goal item := by
  have short : ∀ name ∈ names, Text.Utf8.size name ≤ maxNameBytes :=
    fun name member => walks.short name (List.mem_append_left _ member)
  induction names generalizing place with
  | nil => simpa using walks
  | cons name more ih =>
    have shape : place ++ name :: more = place ++ [name] ++ more := by simp
    rw [shape] at directory ⊢
    have here := proper.tree.above_directory directory
    have isName := proper.named place name (by simp [here])
    have later := walks.of_directory
      ⟨isName.notDot, isName.notDots, short name (List.mem_cons_self ..)⟩ here
    exact ih directory later fun other member => short other (List.mem_cons_of_mem _ member)

theorem not_walks_through_none (isName : IsName name) (nothing : d.item? (place ++ [name]) = none)
    (more : rest ≠ []) : ¬ Walks d follow links place (name :: rest) goal item := by
  intro walks
  cases walks with
  | stay => exact isName.notDot rfl
  | up => exact isName.notDots rfl
  | down _ there => simp [nothing] at there
  | through _ there => simp [nothing] at there
  | last => exact more rfl

/-! ### Usable paths -/

theorem isUsable_of_writeFile {after : Disk} {data : Bytes} {now : Int}
    (written : d.writeFile p data now = .ok after) : IsUsable p := by
  unfold writeFile at written
  split at written
  · cases written
  rename_i noZero
  split at written
  · cases written
  all_goals
    rename_i looked
    exact isUsable_of_find (by simpa using noZero) looked

theorem isUsable_of_replaceFile {after : Disk} {source target : Path}
    (noZero : hasZero target = false) (replaced : d.replaceFile source target = .ok after) :
    IsUsable target := by
  unfold replaceFile at replaced
  split at replaced
  · cases replaced
  · cases replaced
  split at replaced
  · cases replaced
  all_goals
    rename_i looked
    exact isUsable_of_find noZero looked

theorem find_of_isUsable (usable : IsUsable (p.child name)) (reaches : d.Reaches p place)
    (isName : IsEntryName name)
    (noLink : ∀ target, d.item? (place ++ [name]) ≠ some (.link target)) (follow : Bool) :
    d.find follow (p.child name) = .ok (place ++ [name], d.item? (place ++ [name])) := by
  have found := find_child follow reaches isName fun target isLink => absurd isLink (noLink target)
  rwa [if_neg usable.short] at found

theorem lookUp_of_isUsable (usable : IsUsable (p.child name)) (reaches : d.Reaches p place)
    (isName : IsEntryName name)
    (noLink : ∀ target, d.item? (place ++ [name]) ≠ some (.link target)) :
    d.lookUp (p.child name) =
      match d.item? (place ++ [name]) with
      | some item => .ok item
      | none => .error (.system FileError.noEntry (p.child name).text) := by
  unfold lookUp
  rw [usable.noZero, find_of_isUsable usable reaches isName noLink]
  cases d.item? (place ++ [name]) <;> rfl

theorem stat_of_hasAnything (is : d.hasAnything p = .ok true) : ∃ item, d.stat p = .ok item := by
  unfold hasAnything at is
  split at is
  · rename_i item told
    exact ⟨item, told⟩
  · unfold testFailed at is
    split at is
    · split at is <;> cases is
    · cases is
    · cases is
    · cases is

/-! ### Making a directory -/

theorem makeDirectory_of_none (usable : IsUsable (p.child name)) (reaches : d.Reaches p place)
    (isName : IsEntryName name) (nothing : d.item? (place ++ [name]) = none) (levels : Nat) :
    d.makeDirectory levels (p.child name) = .ok (d.put (place ++ [name]) .directory) := by
  have found := find_of_isUsable usable reaches isName (by simp [nothing]) false
  have made : d.makeOne (p.child name) = .ok (d.put (place ++ [name]) .directory) := by
    unfold makeOne
    rw [usable.noZero, found, nothing]
    rfl
  cases levels with
  | zero => rw [makeDirectory, made]
  | succ levels => rw [makeDirectory, made]

theorem makeDirectory_of_directory (usable : IsUsable (p.child name)) (reaches : d.Reaches p place)
    (isName : IsEntryName name) (directory : d.item? (place ++ [name]) = some .directory)
    (told : defect? (p.child name) d.defects.stat = none)
    (told' : defect? (p.child name) d.defects.isDirectory = none) (levels : Nat) :
    d.makeDirectory levels (p.child name) = .ok d := by
  have found := find_of_isUsable usable reaches isName (by simp [directory]) false
  have looked := lookUp_of_isUsable usable reaches isName (by simp [directory])
  have made : d.makeOne (p.child name) =
      .error (.system FileError.alreadyThere (p.child name).text) := by
    unfold makeOne
    rw [usable.noZero, found, directory]
    rfl
  have is : d.hasDirectory (p.child name) = .ok true := by
    unfold hasDirectory stat
    rw [told', told, looked, directory]
    rfl
  have there : makeDirectory.whenThere d (p.child name)
      (.system FileError.alreadyThere (p.child name).text) = .ok d := by
    unfold makeDirectory.whenThere
    rw [is]
  cases levels with
  | zero =>
    rw [makeDirectory, made]
    exact there
  | succ levels =>
    rw [makeDirectory, made]
    exact there

/-! ### Writing files -/

/-- Nothing but a file is in the way at a place. -/
def IsFree (d : Disk) (place : Place) : Prop :=
  ∀ item, d.item? place = some item → ∃ data modified, item = .file data modified

instance (d : Disk) (place : Place) : Decidable (d.IsFree place) :=
  match there : d.item? place with
  | none => isTrue fun item found => by cases there.symm.trans found
  | some (.file data modified) => isTrue fun item found =>
      ⟨data, modified, (Option.some.inj (there.symm.trans found)).symm⟩
  | some .directory => isFalse fun free => by
      obtain ⟨data, modified, same⟩ := free _ there
      cases same
  | some (.link target) => isFalse fun free => by
      obtain ⟨data, modified, same⟩ := free _ there
      cases same
  | some .special => isFalse fun free => by
      obtain ⟨data, modified, same⟩ := free _ there
      cases same

theorem IsFree.isOrdinary (free : d.IsFree place) : d.IsOrdinary place := by
  intro item there
  obtain ⟨data, modified, rfl⟩ := free item there
  simp

theorem isFree_of_item? {other : Disk} (free : d.IsFree place)
    (same : other.item? place = d.item? place) : other.IsFree place := by
  intro item there
  rw [same] at there
  exact free item there

theorem writeFile_succeeds (usable : IsUsable (p.child name)) (reaches : d.Reaches p place)
    (isName : IsEntryName name) (free : d.IsFree (place ++ [name])) (data : Bytes) (now : Int) :
    ∃ after, d.writeFile (p.child name) data now = .ok after := by
  have found := find_of_isUsable usable reaches isName free.isOrdinary.noLink true
  unfold writeFile
  rw [usable.noZero, found]
  cases there : d.item? (place ++ [name]) with
  | none => exact ⟨_, rfl⟩
  | some item =>
    obtain ⟨before, modified, rfl⟩ := free item there
    exact ⟨_, rfl⟩

theorem replaceFile_succeeds {source target : String} (usable : IsUsable (p.child source))
    (usable' : IsUsable (p.child target)) (reaches : d.Reaches p place)
    (isSource : IsEntryName source) (isTarget : IsEntryName target)
    (there : d.item? (place ++ [source]) ≠ none) (free : d.IsFree (place ++ [source]))
    (free' : d.IsFree (place ++ [target])) :
    ∃ after, d.replaceFile (p.child source) (p.child target) = .ok after := by
  have origin := find_of_isUsable usable reaches isSource free.isOrdinary.noLink false
  have goal := find_of_isUsable usable' reaches isTarget free'.isOrdinary.noLink false
  obtain ⟨item, stands⟩ := Option.ne_none_iff_exists'.mp there
  unfold replaceFile
  rw [origin, goal, stands]
  cases onto : d.item? (place ++ [target]) with
  | none => exact ⟨_, rfl⟩
  | some item =>
    obtain ⟨data, modified, rfl⟩ := free' item onto
    exact ⟨_, rfl⟩

end SourceIndex.Disk
