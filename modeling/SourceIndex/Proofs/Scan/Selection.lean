import SourceIndex.Proofs.FileSystem.Plain
import SourceIndex.Proofs.Scan.Ahead
/-!
# Which files are to be listed

The conditions on a file of a workspace without links, each by itself: those on the directories above
it, on their number, and on its path, its size and its content. They are compared with the parts of
the walk: the folders that are reached, the files that are wanted there, and what is listed of the
bytes of a file.
-/

namespace SourceIndex.Scan

/-! ### Conditions on files -/

/-- The relative path of what stands under some names below the root. -/
def relativeOf (names : List String) : String := Text.joinWith '/' names

/-- The directory with a name below some others is not left out: its name is not ignored, it is not
the data directory, and no pattern matches its path, with or without a slash after it. -/
structure IsOpen (rules : Rules) (base : Place) (above : List String) (name : String) : Prop where
  named : name ∉ rules.settings.ignoredDirectories
  apart : Disk.pathTo (base ++ (above ++ [name])) ≠ rules.dataDir
  slash : Policy.isExcluded (relativeOf (above ++ [name]) ++ "/") rules.settings.ignorePatterns =
    false
  plain : Policy.isExcluded (relativeOf (above ++ [name])) rules.settings.ignorePatterns = false

/-- Names lead from the root through directories that are not left out, and are not too many. The
root itself may always be gone into. -/
structure AreOpen (rules : Rules) (base : Place) (names : List String) : Prop where
  each : ∀ above name, above ++ [name] <+: names → IsOpen rules base above name
  depth : (names.length : Int) ≤ max rules.settings.maxDepth 0

/-- The content of a file may be listed: it is not too large, can be decoded if it is text, and is
not binary unless such files are listed. -/
structure IsListable (rules : Rules) (relative : String) (data : Bytes) : Prop where
  size : (data.length : Int) ≤ rules.settings.maxFileBytes
  decodes : Content.isBinary data relative = false →
    ∃ content, Content.ofBytes data relative = .ok content
  kept : rules.settings.keepBinary = false → Content.isBinary data relative = false

/-- A file with a name in the directory under some names below the root is to be listed. -/
structure IsSelected (rules : Rules) (d : Disk) (base : Place) (names : List String)
    (name : String) (data : Bytes) : Prop where
  stands : ∃ modified, d.item? (base ++ (names ++ [name])) = some (.file data modified)
  above : AreOpen rules base names
  accepted : acceptsFile rules (relativeOf (names ++ [name])) = true
  listable : IsListable rules (relativeOf (names ++ [name])) data

variable {rules : Rules} {d : Disk} {base place : Place} {names above : List String}
  {name relative : String} {folder : Folder} {data : Bytes} {modified : Int}

/-! ### Folders by their names -/

theorem relativeOf_concat (names : List String) (name : String) :
    relativeOf (names ++ [name]) = leadOf names ++ name := by
  induction names using List.reverseRecOn generalizing name with
  | nil =>
    rw [leadOf, List.nil_append, List.foldl_nil, String.empty_append]
    exact Text.unlines_singleton name
  | append_singleton names last ih =>
    have cut : relativeOf (names ++ [last] ++ [name]) =
        relativeOf (names ++ [last]) ++ "/" ++ name := by
      rw [← String.toList_inj]
      simp only [relativeOf, Text.joinWith, String.toList_append, String.toList_ofList]
      rw [List.map_append, Text.joinPieces_append (by simp) (by simp)]
      simp [Text.joinPieces]
    rw [cut, ih, leadOf_concat]

def Folder.of (base : Place) (names : List String) : Folder :=
  ⟨leadOf names, names.length, base ++ names⟩

theorem Folder.of_nil (base : Place) : Folder.of base [] = .top base := by
  rw [Folder.of, List.append_nil]
  rfl

theorem Folder.of_child (base : Place) (names : List String) (name : String) :
    (Folder.of base names).child name = Folder.of base (names ++ [name]) := by
  simp only [Folder.of, Folder.child, leadOf_concat, List.length_append, List.length_singleton,
    List.append_assoc]

theorem segments_leadOf (are : ∀ name ∈ names, IsName name) :
    (Path.ofText (leadOf names)).segments = names ∧ Path.Opens (leadOf names) := by
  induction names using List.reverseRecOn with
  | nil => exact ⟨Path.segments_ofText_empty, Path.opens_empty⟩
  | append_singleton names name ih =>
    obtain ⟨segments, opens⟩ := ih fun other member => are other (List.mem_append_left _ member)
    rw [leadOf_concat]
    refine ⟨?_, Path.opens_slash _⟩
    rw [Path.segments_ofText_slash, opens name (are name (by simp)), segments]

theorem below_relative (proper : d.IsProper) (there : d.item? (base ++ (names ++ [name])) ≠ none) :
    (Disk.pathTo base).below (leadOf names ++ name) = Disk.pathTo (base ++ (names ++ [name])) := by
  have are := proper.isName there
  have isName := are name (by simp)
  obtain ⟨segments, opens⟩ : (Path.ofText (leadOf names)).segments = names ∧
      Path.Opens (leadOf names) :=
    segments_leadOf fun other member => are other (by simp [member])
  rw [Path.below, opens name isName, segments]
  rfl

theorem acceptsDirectory_iff : acceptsDirectory rules name (leadOf above ++ name)
    (Disk.pathTo (base ++ (above ++ [name]))) = true ↔ IsOpen rules base above name := by
  rw [← relativeOf_concat]
  simp only [acceptsDirectory, Bool.and_eq_true, Bool.not_eq_true', bne_iff_ne]
  constructor
  · rintro ⟨⟨⟨named, apart⟩, slash⟩, plain⟩
    exact ⟨by simpa using named, apart, slash, plain⟩
  · rintro ⟨named, apart, slash, plain⟩
    exact ⟨⟨⟨by simpa using named, apart⟩, slash⟩, plain⟩

theorem areOpen_nil (rules : Rules) (base : Place) : AreOpen rules base [] where
  each above name within := by simp at within
  depth := by
    rw [List.length_nil]
    omega

theorem areOpen_concat_iff : AreOpen rules base (names ++ [name]) ↔
    AreOpen rules base names ∧ IsOpen rules base names name ∧
      ((names.length + 1 : Nat) : Int) ≤ rules.settings.maxDepth := by
  constructor
  · rintro ⟨each, depth⟩
    rw [List.length_append, List.length_singleton] at depth
    refine ⟨⟨fun above last within => ?_, by omega⟩, each names name (List.prefix_refl _), by omega⟩
    exact each above last (within.trans (List.prefix_append ..))
  · rintro ⟨⟨each, depth⟩, last, deep⟩
    refine ⟨fun above other within => ?_, ?_⟩
    · rcases List.prefix_concat_iff.mp within with whole | before
      · obtain ⟨rfl, same⟩ := List.append_inj' whole rfl
        rw [List.singleton_inj] at same
        exact same ▸ last
      · exact each above other before
    · rw [List.length_append, List.length_singleton]
      omega

section
variable (proper : d.IsProper) (root : rules.root = Disk.pathTo base)
  (directory : d.item? base = some .directory) (readable : d.IsReadable base)
include proper root readable

theorem Folder.admits_of_iff : (Folder.of base names).Admits rules d name ↔
    d.item? (base ++ (names ++ [name])) = some .directory ∧ IsOpen rules base names name ∧
      ((names.length + 1 : Nat) : Int) ≤ rules.settings.maxDepth := by
  have place : (Folder.of base names).place ++ [name] = base ++ (names ++ [name]) :=
    List.append_assoc ..
  constructor
  · rintro ⟨stands, ⟨real, told, accepted⟩, shallow⟩
    rw [place] at stands
    have solid := Disk.isSolid_of_directory stands
    have below : (Disk.pathTo base).below (leadOf names ++ name) = Disk.pathTo _ :=
      below_relative proper solid.there
    rw [Folder.of, root, below] at told
    rw [solid.resolve_pathTo proper told] at accepted
    exact ⟨stands, acceptsDirectory_iff.mp accepted, shallow⟩
  · rintro ⟨stands, opens, shallow⟩
    have solid := Disk.isSolid_of_directory stands
    have below : (Disk.pathTo base).below (leadOf names ++ name) = Disk.pathTo _ :=
      below_relative proper solid.there
    obtain ⟨real, told⟩ := readable.tells _ _ stands (by simp)
    have same := solid.resolve_pathTo proper told
    refine ⟨place ▸ stands, ⟨real, ?_, ?_⟩, shallow⟩
    · rw [Folder.of, root, below]
      exact told
    · rw [same]
      exact acceptsDirectory_iff.mpr opens

include directory

theorem find_root : d.find true rules.root = .ok (base, some .directory) := by
  have top : d.item? (base ++ []) = some .directory := by rwa [List.append_nil]
  obtain ⟨entries, listed⟩ := readable.lists [] top
  rw [List.append_nil] at listed
  obtain ⟨place, found, -⟩ := Disk.list_eq_ok listed
  rw [root, found, (Disk.isSolid_of_directory directory).find_pathTo proper found]

theorem Folder.isReached_iff : folder.IsReached rules d ↔
    ∃ names, folder = .of base names ∧ d.item? (base ++ names) = some .directory ∧
      AreOpen rules base names := by
  have opened := find_root proper root directory readable
  constructor
  · rintro ⟨base', found, descends⟩
    rw [opened] at found
    cases found
    induction descends with
    | refl =>
      exact ⟨[], (Folder.of_nil base).symm, by rwa [List.append_nil], areOpen_nil rules base⟩
    | tail _ goes ih =>
      obtain ⟨names, rfl, -, areOpen⟩ := ih
      cases goes with
      | @child name admits =>
        obtain ⟨stands, opens, shallow⟩ :=
          (Folder.admits_of_iff proper root readable).mp admits
        exact ⟨names ++ [name], Folder.of_child .., stands,
          areOpen_concat_iff.mpr ⟨areOpen, opens, shallow⟩⟩
  · rintro ⟨names, rfl, stands, areOpen⟩
    induction names using List.reverseRecOn with
    | nil => exact ⟨base, opened, (Folder.of_nil base) ▸ .refl⟩
    | append_singleton names name ih =>
      obtain ⟨before, opens, shallow⟩ := areOpen_concat_iff.mp areOpen
      have above : d.item? (base ++ names) = some .directory := by
        apply proper.tree.under _ name
        rw [List.append_assoc, stands]
        simp
      rw [← Folder.of_child]
      exact (ih above before).child
        ((Folder.admits_of_iff proper root readable).mpr ⟨stands, opens, shallow⟩)

/-- The files that are reached through directories are those that pass by their paths. -/
theorem isDirect_iff : IsDirect rules d relative place ↔
    ∃ names name, relative = relativeOf (names ++ [name]) ∧ place = base ++ (names ++ [name]) ∧
      (∃ data modified, d.item? (base ++ (names ++ [name])) = some (.file data modified)) ∧
      AreOpen rules base names ∧ acceptsFile rules (relativeOf (names ++ [name])) = true := by
  constructor
  · rintro ⟨reached, stands, accepted⟩
    rename_i folder name
    obtain ⟨names, rfl, -, areOpen⟩ :=
      (Folder.isReached_iff proper root directory readable).mp reached
    rw [Folder.of, List.append_assoc] at stands
    refine ⟨names, name, (relativeOf_concat ..).symm, List.append_assoc .., stands, areOpen, ?_⟩
    rw [relativeOf_concat]
    exact accepted
  · rintro ⟨names, name, rfl, rfl, ⟨data, modified, stands⟩, areOpen, accepted⟩
    have above : d.item? (base ++ names) = some .directory := by
      apply proper.tree.under _ name
      rw [List.append_assoc, stands]
      simp
    have reached : (Folder.of base names).IsReached rules d :=
      (Folder.isReached_iff proper root directory readable).mpr ⟨names, rfl, above, areOpen⟩
    rw [relativeOf_concat] at accepted ⊢
    rw [← List.append_assoc] at stands ⊢
    exact .file reached ⟨⟨data, modified, stands⟩, accepted⟩

end

/-! ### What is listed of a file -/

/-- What is listed for a file with the given bytes, if anything is. -/
def listed? (rules : Rules) (relative : String) (data : Bytes) (modified : Int) :
    Option ScannedFile :=
  if rules.settings.maxFileBytes < (data.length : Int) then none
  else
    match Content.classify data relative with
    | .error _ => none
    | .ok c =>
      (listedContent? rules.settings relative data c.content).map fun content =>
        ⟨recordOf relative modified c, some content⟩

theorem path_of_listed? {found : ScannedFile}
    (listed : listed? rules relative data modified = some found) : found.file.path = relative := by
  unfold listed? at listed
  split at listed
  · cases listed
  split at listed
  · cases listed
  · obtain ⟨content, -, rfl⟩ := Option.map_eq_some_iff.mp listed
    rfl

theorem ofBytes_of_isBinary (binary : Content.isBinary data relative = true) :
    Content.ofBytes data relative = .ok .binary := by
  rw [Content.ofBytes, if_pos binary]

theorem ofBytes_of_not_isBinary (text : Content.isBinary data relative = false) {content : Content}
    (decoded : Content.ofBytes data relative = .ok content) : content ≠ .binary := by
  rw [Content.ofBytes, if_neg (by simp [text])] at decoded
  obtain ⟨s, -, rfl⟩ := eq_ok_of_map decoded
  exact Content.noConfusion

theorem exists_listed?_iff : (∃ found, listed? rules relative data modified = some found) ↔
    IsListable rules relative data := by
  by_cases large : rules.settings.maxFileBytes < (data.length : Int)
  · rw [listed?, if_pos large]
    refine iff_of_false (by simp) fun listable => ?_
    have := listable.size
    omega
  have size : (data.length : Int) ≤ rules.settings.maxFileBytes := by omega
  rw [listed?, if_neg large, Content.classify]
  cases decoded : Content.ofBytes data relative with
  | error e =>
    refine iff_of_false (by simp [Except.map]) fun listable => ?_
    cases binary : Content.isBinary data relative with
    | true =>
      rw [ofBytes_of_isBinary binary] at decoded
      cases decoded
    | false =>
      obtain ⟨content, decoded'⟩ := listable.decodes binary
      rw [decoded] at decoded'
      cases decoded'
  | ok content =>
    have skips : listedContent? rules.settings relative data content = none ↔
        Content.isBinary data relative = true ∧ rules.settings.keepBinary = false := by
      rw [listedContent?_eq_none, Bool.and_eq_true, beq_iff_eq, Bool.not_eq_true']
      refine and_congr_left fun _ => ⟨fun same => ?_, fun binary => ?_⟩
      · by_contra text
        exact ofBytes_of_not_isBinary (by simpa using text) decoded same
      · rw [ofBytes_of_isBinary binary] at decoded
        exact (Except.ok.inj decoded).symm
    have keeps : listedContent? rules.settings relative data content ≠ none ↔
        (rules.settings.keepBinary = false → Content.isBinary data relative = false) := by
      rw [ne_eq, skips]
      cases rules.settings.keepBinary <;> simp
    simp only [Except.map]
    constructor
    · rintro ⟨found, listed⟩
      obtain ⟨content', listed, -⟩ := Option.map_eq_some_iff.mp listed
      exact ⟨size, fun _ => ⟨content, decoded⟩, keeps.mp (by simp [listed])⟩
    · rintro ⟨-, -, kept⟩
      obtain ⟨content', listed⟩ := Option.ne_none_iff_exists'.mp (keeps.mpr kept)
      exact ⟨_, by rw [listed]; rfl⟩

end SourceIndex.Scan
