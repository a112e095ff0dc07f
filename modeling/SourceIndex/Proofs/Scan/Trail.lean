import SourceIndex.Proofs.FileSystem.Links
import SourceIndex.Proofs.Scan.Step
/-!
# Trails

A walk comes upon everything by a trail from the root: it goes into one directory after the other
and takes a name there, which stands for itself or is a link with a target in the workspace. Where
a trail leads, the file system does, too, and it is never outside the directory that the root
leads to.
-/

namespace SourceIndex.Scan

/-- The directory with some names below the root stands at a place, and is not left out. -/
structure Enters (rules : Rules) (d : Disk) (names : List String) (place : Place) : Prop where
  opened : d.find true (rules.root.under names) = .ok (place, some .directory)
  accepted : names ≠ [] →
    ∃ real, d.resolve false (rules.root.under names) = .ok real ∧ real ≠ rules.dataDir

/-- A name in a directory leads to a place, over no link or over one that is followed. -/
inductive Meets (rules : Rules) (d : Disk) (names : List String) (place : Place) (name : String) :
    Place → Nat → Prop
  | entry (there : d.IsSolid (place ++ [name])) : Meets rules d names place name (place ++ [name]) 0
  | link {target : String} {goal : Place} (isLink : d.item? (place ++ [name]) = some (.link target))
    (resolved : d.resolve true (rules.root.under (names ++ [name])) = .ok (Disk.pathTo goal))
    (inside : rules.root.isWithin (Disk.pathTo goal) = true) :
    Meets rules d names place name goal 1

/-- Names below the root lead to a place over so many links. -/
inductive Trail (rules : Rules) (d : Disk) : List String → Place → Nat → Prop
  | root {base : Place} (found : d.find true rules.root = .ok (base, some .directory)) :
    Trail rules d [] base 0
  | step {names : List String} {place goal : Place} {name : String} {links more : Nat}
    (trail : Trail rules d names place links) (enters : Enters rules d names place)
    (meets : Meets rules d names place name goal more) :
    Trail rules d (names ++ [name]) goal (links + more)

variable {rules : Rules} {d : Disk} {names : List String} {name : String} {place goal : Place}
  {links more : Nat}

theorem under_nil (root : Path) : root.under [] = root := by simp [Path.under]

theorem Meets.isName (proper : d.IsProper) (meets : Meets rules d names place name goal more) :
    IsName name := by
  cases meets with
  | entry there => exact proper.named place name there.there
  | link isLink => exact proper.named place name (by simp [isLink])

theorem Meets.solid (proper : d.IsProper) (meets : Meets rules d names place name goal more) :
    d.IsSolid goal := by
  cases meets with
  | entry there => exact there
  | link _ resolved _ =>
    obtain ⟨goal', same, solid, -⟩ := Disk.solid_of_resolve proper resolved
    cases same
    exact solid

theorem Meets.leads (proper : d.IsProper) (enters : Enters rules d names place)
    (meets : Meets rules d names place name goal more) {last : Place} {item : Item}
    (found : d.find true (rules.root.under (names ++ [name])) = .ok (last, some item)) :
    last = goal := by
  have isName := meets.isName proper
  cases meets with
  | entry there =>
    obtain ⟨_, walks⟩ := Disk.walks_of_under enters.opened found
    exact walks.eq_child isName there.noLink
  | link _ resolved _ =>
    obtain ⟨goal', same, -, ends⟩ := Disk.solid_of_resolve proper resolved
    cases same
    exact ends last item found

theorem Trail.leads (proper : d.IsProper) (trail : Trail rules d names place links) {last : Place}
    {item : Item} (found : d.find true (rules.root.under names) = .ok (last, some item)) :
    last = place := by
  cases trail with
  | root there =>
    rw [under_nil, there] at found
    cases found
    rfl
  | step _ enters meets => exact meets.leads proper enters found

theorem eq_root_of_isWithin (proper : d.IsProper) {root : Path} {base : Place} {item : Item}
    (found : d.find true root = .ok (base, some item)) (solid : d.IsSolid goal)
    (inside : root.isWithin (Disk.pathTo goal) = true) :
    root = Disk.pathTo base ∧ base <+: goal := by
  obtain ⟨slashes, segments⟩ := root
  have absolute : slashes = 1 ∧ segments <+: goal := by
    simpa [Path.isWithin, Disk.pathTo] using inside
  obtain ⟨rfl, rest, rfl⟩ := absolute
  have here : d.IsSolid segments := by
    by_cases last : rest = []
    · rwa [last, List.append_nil] at solid
    · exact Disk.isSolid_of_directory (proper.tree.above last solid.there)
  have same : base = segments := here.find_pathTo proper found
  subst same
  exact ⟨rfl, List.prefix_append ..⟩

/-- No trail leaves the directory that the root leads to. -/
theorem Trail.inside (proper : d.IsProper) (trail : Trail rules d names place links) :
    ∃ base, d.find true rules.root = .ok (base, some .directory) ∧ base <+: place := by
  -- Entries lie below their directory; only for links does it take the test of the target.
  induction trail with
  | root found => exact ⟨_, found, List.prefix_refl _⟩
  | step _ _ meets ih =>
    obtain ⟨base, found, below⟩ := ih
    have solid := meets.solid proper
    cases meets with
    | entry => exact ⟨base, found, below.trans (List.prefix_append ..)⟩
    | link _ _ inside => exact ⟨base, found, (eq_root_of_isWithin proper found solid inside).2⟩

theorem Trail.linksAlong_le (proper : d.IsProper) (trail : Trail rules d names place links) :
    d.linksAlong rules.root names ≤ links := by
  induction trail with
  | root => exact Nat.le_refl _
  | step _ enters meets ih =>
    have isName := meets.isName proper
    rw [Disk.linksAlong_concat]
    cases meets with
    | entry there =>
      rw [Disk.isLink_under_eq_false isName enters.opened there.noLink]
      simpa using ih
    | link =>
      split
      · omega
      · omega

end SourceIndex.Scan
