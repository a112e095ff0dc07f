import SourceIndex.Proofs.FileSystem.Walk
import SourceIndex.Proofs.Text.Lines
import SourceIndex.Proofs.Text.Decode
/-!
# Changing disks

Putting something at a place and taking something away leave all other places as they are. A
directory that can be reached stays in reach while files in it are written and moved, and the names
in it lead to what stands under them.
-/

namespace SourceIndex.Disk

/-! ### Places -/

theorem item?_put (d : Disk) {place : Place} (inside : place ≠ []) (item : Item) (other : Place) :
    (d.put place item).item? other = if other = place then some item else d.item? other := by
  unfold item? put
  by_cases root : other = []
  · have differs : other ≠ place := fun same => inside (same.symm.trans root)
    rw [if_pos root, if_pos root, if_neg differs]
  · rw [if_neg root, if_neg root]
    by_cases same : other = place
    · subst same
      have absent : (d.items.filter fun entry => entry.1 != other).find?
          (fun entry => entry.1 == other) = none := by
        rw [List.find?_eq_none]
        intro entry member
        have differs := (List.mem_filter.mp member).2
        simp_all
      rw [if_pos rfl, List.find?_append, absent]
      simp
    · have kept : (d.items.filter fun entry => entry.1 != place).find?
          (fun entry => entry.1 == other) = d.items.find? fun entry => entry.1 == other := by
        rw [List.find?_filter]
        congr 1
        funext entry
        by_cases here : entry.1 = other
        · simp [here, same]
        · simp [here]
      have last : [(place, item)].find? (fun entry => entry.1 == other) = none := by
        simp [Ne.symm same]
      rw [if_neg same, List.find?_append, kept, last, Option.or_none]

theorem item?_erase (d : Disk) (origin : Place) {other : Place} (inside : other ≠ []) :
    (d.erase origin).item? other = if origin <+: other then none else d.item? other := by
  unfold item? erase
  rw [if_neg inside, if_neg inside, List.find?_filter]
  by_cases below : origin <+: other
  · rw [if_pos below, Option.map_eq_none_iff, List.find?_eq_none]
    intro entry _ found
    rw [decide_eq_true_eq, beq_iff_eq] at found
    obtain ⟨apart, rfl⟩ := found
    rw [List.isPrefixOf_iff_prefix.mpr below] at apart
    cases apart
  · rw [if_neg below]
    have apart : origin.isPrefixOf other = false := by
      rw [← Bool.not_eq_true, List.isPrefixOf_iff_prefix]
      exact below
    congr 2
    funext entry
    by_cases here : entry.1 = other
    · simp [here, apart]
    · simp [here]

/-! ### Trees -/

/-- A disk on which everything stands in a directory, as the starting point of relative paths
does. -/
structure IsTree (d : Disk) : Prop where
  under : ∀ place name, d.item? (place ++ [name]) ≠ none → d.item? place = some .directory
  here : d.item? d.here = some .directory

theorem IsTree.above {d : Disk} (tree : d.IsTree) {place rest : Place} (more : rest ≠ [])
    (there : d.item? (place ++ rest) ≠ none) : d.item? place = some .directory := by
  induction rest using List.reverseRecOn with
  | nil => exact absurd rfl more
  | append_singleton rest name ih =>
    rw [← List.append_assoc] at there
    have parent := tree.under _ _ there
    cases rest with
    | nil => simpa using parent
    | cons first others => exact ih (by simp) (by simp [parent])

theorem IsTree.not_below {d : Disk} (tree : d.IsTree) {origin place : Place} {item : Item}
    (there : d.item? origin = some item) (noDirectory : item ≠ .directory)
    (something : d.item? place ≠ none) (differs : place ≠ origin) : ¬ origin <+: place := by
  rintro ⟨rest, rfl⟩
  have more : rest ≠ [] := fun empty => differs (by simp [empty])
  have directory := tree.above more something
  rw [there, Option.some.injEq] at directory
  exact noDirectory directory

theorem IsTree.dropLast {d : Disk} (tree : d.IsTree) {place : Place}
    (directory : d.item? place = some .directory) : d.item? place.dropLast = some .directory := by
  rcases List.eq_nil_or_concat place with rfl | ⟨above, name, rfl⟩
  · exact directory
  · rw [List.concat_eq_append] at directory ⊢
    rw [List.dropLast_concat]
    exact tree.under above name (by simp [directory])

/-- A disk with something put into a directory is still a tree, if no directory is lost. -/
theorem IsTree.put {d : Disk} (tree : d.IsTree) {place : Place} {name : String} {item : Item}
    (parent : d.item? place = some .directory)
    (keeps : d.item? (place ++ [name]) = some .directory → item = .directory) :
    (d.put (place ++ [name]) item).IsTree := by
  have stays {other : Place} (directory : d.item? other = some .directory) :
      (d.put (place ++ [name]) item).item? other = some .directory := by
    rw [item?_put d (by simp)]
    split
    · rename_i same
      rw [keeps (same ▸ directory)]
    · exact directory
  constructor
  · intro above last there
    rw [item?_put d (by simp)] at there
    split at there
    · rename_i same
      rw [(List.append_inj' same rfl).1]
      exact stays parent
    · exact stays (tree.under above last there)
  · exact stays tree.here

theorem IsTree.erase {d : Disk} (tree : d.IsTree) {origin : Place} {item : Item}
    (there : d.item? origin = some item) (noDirectory : item ≠ .directory) :
    (d.erase origin).IsTree := by
  have stays {other : Place} (directory : d.item? other = some .directory) :
      (d.erase origin).item? other = some .directory := by
    by_cases root : other = []
    · rw [root]
      rfl
    · have differs : other ≠ origin := by
        rintro rfl
        rw [directory, Option.some.injEq] at there
        exact noDirectory there.symm
      rw [item?_erase d origin root,
        if_neg (tree.not_below there noDirectory (by simp [directory]) differs)]
      exact directory
  constructor
  · intro above last something
    rw [item?_erase d origin (by simp)] at something
    split at something
    · exact absurd rfl something
    · exact stays (tree.under above last something)
  · exact stays tree.here

/-! ### What is kept -/

theorem keeps_put {d : Disk} {place : Place} {item : Item} (inside : place ≠ [])
    (noDirectory : d.item? place ≠ some .directory)
    (noLink : ∀ target, d.item? place ≠ some (.link target)) : d.Keeps (d.put place item) := by
  constructor
  · intro other there
    rw [item?_put d inside, if_neg]
    · exact there
    · rintro rfl
      exact noDirectory there
  · intro other target there
    rw [item?_put d inside, if_neg]
    · exact there
    · rintro rfl
      exact noLink target there

/-! ### Links out of the way -/

def isLinkAt (d : Disk) (place : Place) : Bool :=
  match d.item? place with
  | some (.link _) => true
  | _ => false

/-- The disk without the links that stand at some places. -/
def withoutLinks (d : Disk) (places : List Place) : Disk :=
  { d with
    items := d.items.filter fun entry => !(places.contains entry.1 && d.isLinkAt entry.1) }

theorem isLinkAt_iff {d : Disk} {place : Place} :
    d.isLinkAt place = true ↔ ∃ target, d.item? place = some (.link target) := by
  unfold isLinkAt
  split
  · rename_i target there
    exact iff_of_true rfl ⟨target, there⟩
  · rename_i other
    exact iff_of_false Bool.false_ne_true fun ⟨target, there⟩ => other target there

theorem item?_withoutLinks (d : Disk) (places : List Place) (place : Place) :
    (d.withoutLinks places).item? place =
      if places.contains place && d.isLinkAt place then none else d.item? place := by
  by_cases root : place = []
  · subst root
    have noLink : d.isLinkAt [] = false := rfl
    rw [noLink, Bool.and_false]
    rfl
  unfold withoutLinks item?
  simp only [if_neg root]
  rw [List.find?_filter]
  split
  · rename_i gone
    rw [Option.map_eq_none_iff, List.find?_eq_none]
    intro entry _ found
    rw [decide_eq_true_eq, beq_iff_eq] at found
    obtain ⟨stays, rfl⟩ := found
    rw [gone] at stays
    cases stays
  · rename_i stays
    rw [Bool.not_eq_true] at stays
    congr 2
    funext entry
    by_cases here : entry.1 = place
    · rw [here, stays]
      simp
    · simp [here]

section
variable {d after : Disk} {places few many : List Place} {place : Place}

theorem item?_withoutLinks_eq_directory :
    (d.withoutLinks places).item? place = some .directory ↔ d.item? place = some .directory := by
  rw [item?_withoutLinks]
  split
  · rename_i gone
    obtain ⟨target, there⟩ := isLinkAt_iff.mp (Bool.and_eq_true_iff.mp gone).2
    simp [there]
  · exact Iff.rfl

theorem item?_withoutLinks_eq_link {target : String} :
    (d.withoutLinks places).item? place = some (.link target) ↔
      place ∉ places ∧ d.item? place = some (.link target) := by
  rw [item?_withoutLinks]
  by_cases there : d.item? place = some (.link target)
  · have isLink : d.isLinkAt place = true := isLinkAt_iff.mpr ⟨target, there⟩
    simp [isLink, there]
  · refine iff_of_false (fun found => ?_) fun found => there found.2
    split at found
    · cases found
    · exact there found

/-- Directories and other links are kept when links are taken away. -/
theorem keeps_withoutLinks (d : Disk) (places : List Place) : (d.withoutLinks places).Keeps d :=
  ⟨fun _ there => item?_withoutLinks_eq_directory.mp there,
    fun _ _ there => (item?_withoutLinks_eq_link.mp there).2⟩

theorem keeps_withoutLinks_of_subset (d : Disk) (subset : few ⊆ many) :
    (d.withoutLinks many).Keeps (d.withoutLinks few) := by
  constructor
  · intro other there
    rw [item?_withoutLinks_eq_directory] at there ⊢
    exact there
  · intro other target there
    rw [item?_withoutLinks_eq_link] at there ⊢
    exact ⟨fun among => there.1 (subset among), there.2⟩

theorem keeps_withoutLinks_of_noLink
    (noLink : ∀ place ∈ places, ∀ target, d.item? place ≠ some (.link target)) :
    d.Keeps (d.withoutLinks places) :=
  ⟨fun _ there => item?_withoutLinks_eq_directory.mpr there, fun other target there =>
    item?_withoutLinks_eq_link.mpr ⟨fun among => noLink other among target there, there⟩⟩

theorem Keeps.withoutLinks (keeps : (d.withoutLinks few).Keeps after) (subset : few ⊆ many) :
    (d.withoutLinks many).Keeps (after.withoutLinks many) := by
  have stays := (keeps_withoutLinks_of_subset d subset).trans keeps
  constructor
  · intro other there
    exact item?_withoutLinks_eq_directory.mpr (stays.directory other there)
  · intro other target there
    have outside := (item?_withoutLinks_eq_link.mp there).1
    exact item?_withoutLinks_eq_link.mpr ⟨outside, stays.link other target there⟩

end

end SourceIndex.Disk
