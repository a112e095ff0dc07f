import SourceIndex.FileSystem.Document
import SourceIndex.Proofs.FileSystem.Agree
/-!
# Files that grow while they are read

Reading changes a disk in one way only: where bytes are added to a file before each reading, the
file is longer afterwards. All else is as before, so what a path to another place leads to is still
the same.
-/

namespace SourceIndex.Disk
variable {d later : Disk} {p : Path} {place : Place}

theorem keptByReading_bare (d : Disk) : KeptByReading fun later => later.bare = d.bare :=
  fun later p limit same => (bare_readBounded later p limit).trans same

/-! ### Where files grow -/

/-- Bytes are added to what stands at a place when some path that leads there is read. -/
def GrowsAt (d : Disk) (place : Place) : Prop :=
  ∃ p count item, defect? p d.defects.growth = some count ∧
    d.find true p = .ok (place, some item)

/-- Nothing is added to what a path leads to, whether a link at its end is followed or not. -/
def IsFixed (d : Disk) (p : Path) : Prop :=
  ∀ follow place item, d.find follow p = .ok (place, some item) → ¬ d.GrowsAt place

theorem isFixed_of_isStill (still : d.IsStill) (p : Path) : d.IsFixed p := by
  rintro follow place item - ⟨q, count, found, grows, -⟩
  rw [show d.defects.growth = [] from still] at grows
  cases grows

theorem growsAt_of_bare (same : later.bare = d.bare) (grows : later.GrowsAt place) :
    d.GrowsAt place := by
  obtain ⟨q, count, item, listed, found⟩ := grows
  obtain ⟨own, there, -⟩ := find_some_of_bare same found
  rw [defects_of_bare same] at listed
  exact ⟨q, count, own, listed, there⟩

theorem item?_grow (d : Disk) (p : Path) (count : Nat) (place : Place) :
    (d.grow p count).item? place = d.item? place ∨
      (∃ item, d.find true p = .ok (place, some item)) ∧
        (d.grow p count).item? place = (d.item? place).map (growItem count) := by
  unfold grow
  split
  · rename_i goal item found
    by_cases root : place = []
    · left
      rw [item?, item?, if_pos root, if_pos root]
    have places (entry : Place × Item) :
        (if entry.1 == goal then (entry.1, growItem count entry.2) else entry).1 = entry.1 := by
      split <;> rfl
    simp only [item?, if_neg root, List.find?_map, Function.comp_def, places, Option.map_map]
    cases there : d.items.find? fun entry => entry.1 == place with
    | none => exact .inl rfl
    | some entry =>
      have here : entry.1 = place := by simpa using List.find?_some there
      by_cases goes : place = goal
      · subst goes
        refine .inr ⟨⟨item, found⟩, ?_⟩
        simp [here]
      · left
        simp [here, goes]
  · exact .inl rfl

/-! ### Disks on which files have grown -/

/-- Files have grown at most where they do so, and nothing else has happened. -/
structure IsGrownFrom (later d : Disk) : Prop where
  /-- Nothing came, went or took another's place. -/
  bare : later.bare = d.bare
  /-- What a file held still stands at its beginning. -/
  longer : ∀ place data modified, d.item? place = some (.file data modified) →
    ∃ more, later.item? place = some (.file (data ++ more) modified)
  others : ∀ place, ¬ d.GrowsAt place → later.item? place = d.item? place
  /-- Where no file grows, nothing has happened at all. -/
  same : d.IsStill → later = d

namespace IsGrownFrom

protected theorem refl (d : Disk) : d.IsGrownFrom d :=
  ⟨rfl, fun _ data modified there => ⟨[], by rw [List.append_nil, there]⟩, fun _ _ => rfl,
    fun _ => rfl⟩

theorem grow (grown : later.IsGrownFrom d) {count : Nat}
    (listed : defect? p d.defects.growth = some count) : (later.grow p count).IsGrownFrom d where
  bare := (bare_grow later p count).trans grown.bare
  longer place data modified there := by
    obtain ⟨more, now⟩ := grown.longer place data modified there
    rcases item?_grow later p count place with same | ⟨-, added⟩
    · exact ⟨more, same.trans now⟩
    · exact ⟨more ++ List.replicate count 0x78, by
        rw [added, now, Option.map_some, growItem, List.append_assoc]⟩
  others place apart := by
    rcases item?_grow later p count place with same | ⟨⟨item, found⟩, -⟩
    · exact same.trans (grown.others place apart)
    · exact absurd (growsAt_of_bare grown.bare
        ⟨p, count, item, (defects_of_bare grown.bare).symm ▸ listed, found⟩) apart
  same still := by
    rw [show d.defects.growth = [] from still] at listed
    cases listed

theorem readBounded (grown : later.IsGrownFrom d) (p : Path) (limit : Int) :
    (later.readBounded p limit).2.IsGrownFrom d := by
  simp only [Disk.readBounded, beforeReading]
  split
  · rename_i count listed
    rw [defects_of_bare grown.bare] at listed
    exact grown.grow listed
  · exact grown

theorem find_eq (grown : later.IsGrownFrom d) (fixed : d.IsFixed p) (follow : Bool) :
    later.find follow p = d.find follow p :=
  find_eq_of_agree grown.bare fun place item found =>
    grown.others place (fixed follow place item found)

end IsGrownFrom

theorem keptByReading_isGrownFrom (d : Disk) : KeptByReading (·.IsGrownFrom d) :=
  fun _ p limit grown => grown.readBounded p limit

/-! ### What is told and read -/

/-- Two disks tell and hold the same at a path. -/
structure AnswersAs (other d : Disk) (p : Path) : Prop where
  stat : other.stat p = d.stat p
  lookUp : other.lookUp p = d.lookUp p

theorem IsGrownFrom.answersAs (grown : later.IsGrownFrom d) (fixed : d.IsFixed p) :
    later.AnswersAs d p := by
  have agree (place : Place) (item : Item) (found : d.find true p = .ok (place, some item)) :
      later.item? place = d.item? place := grown.others place (fixed true place item found)
  exact ⟨stat_eq_of_agree grown.bare agree, lookUp_eq_of_agree grown.bare agree⟩

namespace AnswersAs
variable {other : Disk}

theorem hasAnything (same : other.AnswersAs d p) : other.hasAnything p = d.hasAnything p := by
  unfold Disk.hasAnything
  rw [same.stat]

theorem readAll (same : other.AnswersAs d p) : other.readAll p = d.readAll p := by
  unfold Disk.readAll
  rw [same.lookUp]

theorem readDocument (same : other.AnswersAs d p) : other.readDocument p = d.readDocument p := by
  unfold Disk.readDocument
  rw [same.readAll]

end AnswersAs

end SourceIndex.Disk
