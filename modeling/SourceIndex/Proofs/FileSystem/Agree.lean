import SourceIndex.Proofs.FileSystem.Bare
import SourceIndex.Proofs.FileSystem.Listing
import SourceIndex.Proofs.Scan.File
/-!
# Disks that agree in places

Two disks that differ only in what files hold are the same to everything but reading. Where they
hold the same at the place that a path leads to, reading the path gives the same, too.
-/

namespace SourceIndex.Disk
variable {d other : Disk} {p : Path}

/-! ### What a path leads to -/

theorem readBounded_eq_of_lookUp (defects : other.defects = d.defects)
    (same : other.lookUp p = d.lookUp p) (still : d.IsStill) (limit : Int) :
    d.readBounded p limit = ((d.readBounded p limit).1, d) ∧
      other.readBounded p limit = ((d.readBounded p limit).1, other) := by
  have still' : other.IsStill := by
    rw [IsStill, defects]
    exact still
  refine ⟨Prod.ext rfl (snd_readBounded still p limit),
    Prod.ext ?_ (snd_readBounded still' p limit)⟩
  simp only [readBounded, beforeReading_of_still still, beforeReading_of_still still', readAll,
    defects, same]

theorem find_eq_of_agree (same : other.bare = d.bare) {follow : Bool}
    (agree : ∀ place item, d.find follow p = .ok (place, some item) →
      other.item? place = d.item? place) : other.find follow p = d.find follow p := by
  have shown : (other.find follow p).map bareFound = (d.find follow p).map bareFound := by
    rw [← find_bare, same, find_bare]
  cases own : d.find follow p with
  | error code =>
    rw [own] at shown
    exact eq_error_of_map shown
  | ok here =>
    obtain ⟨place, item⟩ := here
    rw [own] at shown
    obtain ⟨⟨place', item'⟩, found, pair⟩ := eq_ok_of_map shown
    simp only [bareFound, Prod.mk.injEq] at pair
    obtain ⟨rfl, kinds⟩ := pair
    rw [found]
    cases item with
    | none => rw [Option.map_eq_none_iff.mp kinds]
    | some item =>
      have mine := (walks_of_walk (find_eq_ok own)).item_eq
      have theirs := (walks_of_walk (find_eq_ok found)).item_eq
      rw [theirs, agree place' item own, ← mine]

variable (same : other.bare = d.bare)
  (agree : ∀ place item, d.find true p = .ok (place, some item) →
    other.item? place = d.item? place)

include same in
theorem defects_of_bare : other.defects = d.defects := congrArg (·.defects) same

include same agree

theorem lookUp_eq_of_agree : other.lookUp p = d.lookUp p := by
  unfold lookUp
  rw [find_eq_of_agree same agree]

theorem stat_eq_of_agree : other.stat p = d.stat p := by
  unfold stat
  rw [defects_of_bare same, lookUp_eq_of_agree same agree]

theorem readBounded_eq_of_agree (still : d.IsStill) (limit : Int) :
    d.readBounded p limit = ((d.readBounded p limit).1, d) ∧
      other.readBounded p limit = ((d.readBounded p limit).1, other) :=
  readBounded_eq_of_lookUp (defects_of_bare same) (lookUp_eq_of_agree same agree) still limit

omit same agree

/-! ### Directories -/

theorem names_bare (place : Place) : d.bare.names place = d.names place := by
  unfold names
  rw [bare, List.filterMap_map]
  rfl

theorem list_bare (p : Path) :
    d.bare.list p = (d.list p).map fun entries => entries.map fun entry =>
      (entry.1, entry.2.bare) := by
  unfold list
  simp only [show d.bare.defects = d.defects from rfl]
  split
  · rfl
  split
  · rfl
  rw [find_bare]
  cases d.find true p with
  | error code => rfl
  | ok found =>
    obtain ⟨place, item⟩ := found
    cases item with
    | none => rfl
    | some item =>
      cases item with
      | file => rfl
      | directory =>
        simp only [Except.map, bareFound, Option.map_some, Item.bare, names_bare,
          List.map_filterMap, item?_bare, Option.map_map]
        rfl
      | link => rfl
      | special => rfl

theorem list_eq_of_agree (same : other.bare = d.bare)
    (agree : ∀ place name, d.find true p = .ok (place, some .directory) →
      other.item? (place ++ [name]) = d.item? (place ++ [name])) : other.list p = d.list p := by
  have shown : (other.list p).map (List.map fun entry => (entry.1, entry.2.bare)) =
      (d.list p).map (List.map fun entry => (entry.1, entry.2.bare)) := by
    rw [← list_bare, same, list_bare]
  cases own : d.list p with
  | error e =>
    rw [own] at shown
    exact eq_error_of_map shown
  | ok entries =>
    rw [own] at shown
    obtain ⟨entries', listed, -⟩ := eq_ok_of_map shown
    obtain ⟨place, found, rfl⟩ := list_eq_ok own
    obtain ⟨place', found', rfl⟩ := list_eq_ok listed
    have there := find_directory_of_bare same found'
    rw [found] at there
    cases there
    have named : other.names place = d.names place := by
      rw [← names_bare, same, names_bare]
    rw [listed]
    simp only [named, agree place _ found]

/-! ### Roots -/

theorem hasDirectory_bare (p : Path) : d.bare.hasDirectory p = d.hasDirectory p := by
  unfold hasDirectory
  simp only [show d.bare.defects = d.defects from rfl, stat_bare]
  split
  · rfl
  cases d.stat p with
  | error e => rfl
  | ok item => cases item <;> rfl

theorem hasAnything_bare (p : Path) : d.bare.hasAnything p = d.hasAnything p := by
  unfold hasAnything
  rw [stat_bare]
  cases d.stat p <;> rfl

theorem mayRead_bare (p : Path) : d.bare.mayRead p = d.mayRead p := by
  unfold mayRead
  rw [lookUp_bare]
  cases d.lookUp p <;> rfl

/-! ### Making directories -/

theorem bare_put (d : Disk) (place : Place) (item : Item) :
    (d.put place item).bare = d.bare.put place item.bare := by
  simp only [put, bare, List.map_append, List.map_cons, List.map_nil, List.filter_map]
  rfl

theorem makeOne_bare (d : Disk) (p : Path) : d.bare.makeOne p = (d.makeOne p).map bare := by
  unfold makeOne
  split
  · rfl
  rw [find_bare]
  cases d.find false p with
  | error code => rfl
  | ok found =>
    obtain ⟨place, item⟩ := found
    cases item with
    | none => exact congrArg Except.ok (bare_put d place .directory).symm
    | some item => rfl

theorem whenThere_bare (d : Disk) (p : Path) (e : FileError) :
    makeDirectory.whenThere d.bare p e = (makeDirectory.whenThere d p e).map bare := by
  unfold makeDirectory.whenThere
  rw [hasDirectory_bare]
  cases d.hasDirectory p with
  | error other => rfl
  | ok is => cases is <;> rfl

theorem makeDirectory_bare (d : Disk) (levels : Nat) (p : Path) :
    d.bare.makeDirectory levels p = (d.makeDirectory levels p).map bare := by
  induction levels generalizing p with
  | zero =>
    unfold makeDirectory
    rw [makeOne_bare]
    cases d.makeOne p with
    | ok made => rfl
    | error e =>
      cases e with
      | system code path =>
        simp only [Except.map]
        split
        · split <;> rfl
        · exact whenThere_bare ..
      | _ => rfl
  | succ levels ih =>
    unfold makeDirectory
    rw [makeOne_bare]
    cases d.makeOne p with
    | ok made => rfl
    | error e =>
      cases e with
      | system code path =>
        simp only [Except.map]
        split
        · split
          · rfl
          rw [ih]
          cases d.makeDirectory levels p.parent with
          | error e => rfl
          | ok above =>
            simp only [Except.map, makeOne_bare]
            cases above.makeOne p with
            | ok made => rfl
            | error e => exact whenThere_bare ..
        · exact whenThere_bare ..
      | _ => rfl

/-! ### What a directory holds -/

theorem reaches_bare {place : Place} : d.bare.Reaches p place ↔ d.Reaches p place := by
  unfold Reaches
  rw [show d.bare.startOf p = d.startOf p from rfl, walk_bare]
  cases d.walk true maxLinks (d.startOf p) p.segments with
  | error code => simp [Except.map]
  | ok found =>
    obtain ⟨goal, item⟩ := found
    cases item with
    | none => simp [Except.map, bareFound]
    | some item => cases item <;> simp [Except.map, bareFound, Item.bare]

theorem isOrdinary_bare {place : Place} : d.bare.IsOrdinary place ↔ d.IsOrdinary place := by
  unfold IsOrdinary
  rw [item?_bare]
  cases d.item? place with
  | none => simp
  | some item => cases item <;> simp [Item.bare]

theorem bare_withoutLinks (d : Disk) (places : List Place) :
    (d.withoutLinks places).bare = d.bare.withoutLinks places := by
  have same (place : Place) : d.bare.isLinkAt place = d.isLinkAt place := by
    unfold isLinkAt
    rw [item?_bare]
    cases d.item? place with
    | none => rfl
    | some item => cases item <;> rfl
  simp only [withoutLinks, same]
  simp only [bare, List.filter_map]
  rfl

end SourceIndex.Disk
