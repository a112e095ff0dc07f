import SourceIndex.Proofs.FileSystem.Directory
import SourceIndex.Proofs.FileSystem.Links
import SourceIndex.Proofs.Scan.File
/-!
# Disks without links

On a disk without links a path leads where its names say, and its real path is the path to that
place.
-/

namespace SourceIndex.Disk
variable {d : Disk}

def HasNoLinks (d : Disk) : Prop := ∀ place target, d.item? place ≠ some (.link target)

/-- What stands at a place and below it can be read: directories are listed, files give their bytes,
and the real paths of both are told. -/
structure IsReadable (d : Disk) (base : Place) : Prop where
  lists : ∀ names, d.item? (base ++ names) = some .directory →
    ∃ entries, d.list (pathTo (base ++ names)) = .ok entries
  holds : ∀ names data modified, d.item? (base ++ names) = some (.file data modified) →
    d.HasFile (pathTo (base ++ names)) data modified
  tells : ∀ names item, d.item? (base ++ names) = some item → item ≠ .special →
    ∃ real, d.resolve false (pathTo (base ++ names)) = .ok real

theorem mem_items_of_item? {place : Place} {item : Item} (inside : place ≠ [])
    (there : d.item? place = some item) : (place, item) ∈ d.items := by
  rw [item?, if_neg inside, Option.map_eq_some_iff] at there
  obtain ⟨⟨other, item'⟩, found, rfl⟩ := there
  have same : other = place := by simpa using List.find?_some found
  exact same ▸ List.mem_of_find?_eq_some found

theorem hasNoLinks_of_items (items : ∀ entry ∈ d.items, ∀ target, entry.2 ≠ .link target) :
    d.HasNoLinks := by
  intro place target there
  by_cases top : place = []
  · rw [top] at there
    cases there
  · exact items _ (mem_items_of_item? top there) target rfl

/-! ### Real paths -/

theorem IsSolid.resolve_pathTo (proper : d.IsProper) {place : Place} (solid : d.IsSolid place)
    {real : Path} (told : d.resolve false (pathTo place) = .ok real) : real = pathTo place := by
  obtain ⟨onLink, shape⟩ := exists_resolveFrom d false maxNestedLinks
  have ends : d.resolvePieces false maxNestedLinks [] [] place = .at place [] := by
    rw [shape]
    rcases List.eq_nil_or_concat place with rfl | ⟨above, name, rfl⟩
    · rfl
    · rw [List.concat_eq_append] at solid ⊢
      have directory : d.item? ([] ++ above) = some .directory :=
        proper.tree.under above name solid.there
      exact (resolveFrom_append [name] (resolveFrom_directory proper directory)).trans
        (resolveFrom_name (proper.named above name solid.there) solid.noLink)
  exact eq_pathTo_of_at ends told

theorem Walks.resolveFrom_eq (proper : d.IsProper) (noLinks : d.HasNoLinks)
    {onLink : List (Place × Option Place) → Place → List String → Resolved}
    {met : List (Place × Option Place)} {links : Nat} {place goal : Place} {names : List String}
    {item : Option Item} (walks : Walks d true links place names goal item)
    (ends : item = some .directory) :
    d.resolveFrom false onLink met place names = .at goal met := by
  induction walks with
  | done => rfl
  | stay later ih =>
    rw [resolveFrom, if_pos (by simp)]
    exact ih ends
  | up later ih =>
    rw [resolveFrom, if_neg (by decide), if_pos rfl]
    exact ih ends
  | @down links place goal name rest item isName there later ih =>
    have named := proper.named place name (by simp [there])
    have one : d.resolveFrom false onLink met place [name] = .at (place ++ [name]) met :=
      resolveFrom_name named (noLinks (place ++ [name]))
    exact (resolveFrom_append rest one).trans (ih ends)
  | through _ there => exact absurd there (noLinks _ _)
  | last _ noDirectory => exact absurd ends noDirectory

/-- Without links, the real path of a directory is the path to where the directory is found. -/
theorem resolve_of_find (proper : d.IsProper) (noLinks : d.HasNoLinks) {p real : Path}
    {place : Place} (found : d.find true p = .ok (place, some .directory))
    (told : d.resolve false p = .ok real) : real = pathTo place := by
  obtain ⟨onLink, shape⟩ := exists_resolveFrom d false maxNestedLinks
  have walks := walks_of_walk (find_eq_ok found)
  have ends : d.resolvePieces false maxNestedLinks [] (d.startOf p) p.segments = .at place [] := by
    rw [shape]
    exact walks.resolveFrom_eq proper noLinks rfl
  exact eq_pathTo_of_at ends told

end SourceIndex.Disk
