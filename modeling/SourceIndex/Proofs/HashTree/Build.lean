import SourceIndex.HashTree.Build
import SourceIndex.Proofs.HashTree.Codec
/-!
# Trees that are built

A tree that is built can be stored and read back: no key stands in it twice, and all its lists hold
texts. But for the time that is noted in it, it depends on the records alone.
-/

namespace SourceIndex.HashTree

open Json (AreTexts)

/-! ### Lists -/

/-- Lists under keys that stand there once, with texts only. -/
structure AreLists (entries : Entries (List Json)) : Prop where
  distinct : (Entries.keys entries).Nodup
  texts : ∀ entry ∈ entries, AreTexts entry.2

theorem areLists_nil : AreLists [] := ⟨List.nodup_nil, by simp⟩

theorem areLists_emptyBySize : AreLists emptyBySize := by
  refine ⟨by simp [emptyBySize, Entries.keys], ?_⟩
  intro entry member item among
  simp only [emptyBySize, List.mem_cons, List.not_mem_nil, or_false] at member
  rcases member with rfl | rfl | rfl <;> cases among

theorem areLists_addTo {entries : Entries (List Json)} (lists : AreLists entries)
    (key text : String) : AreLists (addTo key (.text text) entries) := by
  refine ⟨Entries.nodup_keys_put lists.distinct _, ?_⟩
  intro entry member
  rcases Entries.mem_put member with rfl | before
  · intro item among
    rcases List.mem_append.mp among with old | new
    · cases found : Entries.get? key entries with
      | none => simp [found] at old
      | some items =>
        rw [found] at old
        exact lists.texts _ (Entries.mem_of_get?_eq_some found) item old
    · exact ⟨text, List.mem_singleton.mp new⟩
  · exact lists.texts entry before

theorem areLists_foldl_addTo (records : List FileRecord) (label : FileRecord → String)
    {entries : Entries (List Json)} (lists : AreLists entries) :
    AreLists (records.foldl (fun found r => addTo (label r) (.text r.path) found) entries) := by
  induction records generalizing entries with
  | nil => exact lists
  | cons r rest ih => exact ih (areLists_addTo lists _ _)

/-! ### Directories -/

/-- Directories under keys that stand there once, with texts in their lists. -/
structure AreDirectories (entries : Entries DirectoryNode) : Prop where
  distinct : (Entries.keys entries).Nodup
  children : ∀ entry ∈ entries, AreTexts entry.2.children
  files : ∀ entry ∈ entries, AreTexts entry.2.files
  subdirectories : ∀ entry ∈ entries, AreTexts entry.2.subdirectories

theorem areDirectories_add? {files : Entries FileNode} {paths keys : Located} {key : String}
    {nodes next : Nodes} (before : AreDirectories nodes.made)
    (added : nodes.add? files paths keys key = some next) : AreDirectories next.made := by
  unfold Nodes.add? at added
  simp only [Option.map_eq_some_iff] at added
  obtain ⟨node, made, rfl⟩ := added
  unfold directoryNode? at made
  simp only [Option.map_eq_some_iff] at made
  obtain ⟨hash, -, rfl⟩ := made
  refine ⟨Entries.nodup_keys_put before.distinct _, ?_, ?_, ?_⟩
  all_goals
    intro entry member
    rcases Entries.mem_put member with rfl | old
  · exact Json.areTexts_map_text _
  · exact before.children entry old
  · exact Json.areTexts_map_text _
  · exact before.files entry old
  · exact Json.areTexts_map_text _
  · exact before.subdirectories entry old

theorem areDirectories_foldlM {files : Entries FileNode} {paths located : Located}
    {keys : List String} {nodes last : Nodes} (before : AreDirectories nodes.made)
    (made : keys.foldlM (Nodes.add? files paths located) nodes = some last) :
    AreDirectories last.made := by
  induction keys generalizing nodes with
  | nil =>
    cases made
    exact before
  | cons key rest ih =>
    rw [List.foldlM_cons, Option.bind_eq_bind, Option.bind_eq_some_iff] at made
    obtain ⟨next, added, later⟩ := made
    exact ih (areDirectories_add? before added) later

theorem areDirectories_sort {entries : Entries DirectoryNode} (before : AreDirectories entries) :
    AreDirectories (Entries.sort entries) := by
  have same {entry : String × DirectoryNode} (member : entry ∈ Entries.sort entries) :
      entry ∈ entries := (Entries.sort_perm entries).mem_iff.mp member
  exact ⟨Entries.nodup_keys_sort before.distinct,
    fun entry member => before.children entry (same member),
    fun entry member => before.files entry (same member),
    fun entry member => before.subdirectories entry (same member)⟩

/-! ### Trees -/

variable {records : List FileRecord} {workspace : String} {now : Int} {built : Built}

theorem build?_eq_some (made : build? records workspace now = some built) :
    built.tree.files = Entries.ofList ((sortRecords records).map fun r => (r.path, fileNode r)) ∧
      AreDirectories built.tree.directories ∧ AreLists built.tree.bySuffix ∧
        AreLists built.tree.bySize := by
  unfold build? at made
  simp only [Option.bind_eq_bind, Option.bind_eq_some_iff, Option.pure_def, Option.some.injEq]
    at made
  obtain ⟨nodes, directories, hash, -, rfl⟩ := made
  refine ⟨rfl, areDirectories_sort ?_, areLists_foldl_addTo _ _ areLists_nil,
    areLists_foldl_addTo _ _ areLists_emptyBySize⟩
  have start : AreDirectories (⟨[], []⟩ : Nodes).made :=
    ⟨List.nodup_nil, by simp, by simp, by simp⟩
  exact areDirectories_foldlM start directories

theorem isRegular_of_build? (made : build? records workspace now = some built) :
    built.tree.IsRegular := by
  obtain ⟨files, directories, suffixes, sizes⟩ := build?_eq_some made
  refine ⟨?_, directories.distinct, suffixes.distinct, sizes.distinct, directories.children,
    directories.files, directories.subdirectories, suffixes.texts, sizes.texts⟩
  rw [files]
  exact Entries.nodup_keys_ofList _

def Built.at (built : Built) (now : Int) : Built :=
  { built with tree := { built.tree with timestamp := now, createdAt := now } }

theorem build?_at (records : List FileRecord) (workspace : String) (now later : Int) :
    build? records workspace later = (build? records workspace now).map (·.at later) := by
  unfold build?
  simp only
  cases directories? _ (sortRecords records) with
  | none => rfl
  | some nodes => cases rootHash? _ <;> rfl

/-! ### Files -/

theorem sortRecords_perm (records : List FileRecord) : (sortRecords records).Perm records :=
  List.mergeSort_perm ..

theorem pairwise_sortRecords (records : List FileRecord) :
    (sortRecords records).Pairwise fun a b => a.path ≤ b.path := by
  have before (a b : FileRecord) : (!decide (b.path < a.path)) = true ↔ a.path ≤ b.path := by
    rw [Bool.not_eq_true', decide_eq_false_iff_not, String.not_lt]
  have sorted : (sortRecords records).Pairwise fun a b => (!decide (b.path < a.path)) = true :=
    List.pairwise_mergeSort
      (fun a b c first second => (before a c).mpr
        (String.le_trans ((before a b).mp first) ((before b c).mp second)))
      (fun a b => by
        rw [Bool.or_eq_true, before, before]
        exact String.le_total ..) records
  exact sorted.imp (before _ _).mp

theorem ofList_sortRecords (distinct : (records.map (·.path)).Nodup) :
    Entries.ofList ((sortRecords records).map fun r => (r.path, fileNode r)) =
      (sortRecords records).map fun r => (r.path, fileNode r) := by
  refine Entries.ofList_of_nodup ?_
  rw [Entries.keys, List.map_map]
  exact ((sortRecords_perm records).map _).nodup_iff.mpr distinct

theorem files_of_build? (distinct : (records.map (·.path)).Nodup)
    (made : build? records workspace now = some built) :
    built.tree.files = (sortRecords records).map fun r => (r.path, fileNode r) := by
  rw [(build?_eq_some made).1, ofList_sortRecords distinct]

theorem normal_of_build? (distinct : (records.map (·.path)).Nodup)
    (made : build? records workspace now = some built) :
    built.tree.normal.files = built.tree.files ∧
      built.tree.normal.directories = built.tree.directories := by
  constructor
  · have files := files_of_build? distinct made
    refine Entries.sort_of_pairwise ?_
    rw [files, List.pairwise_map]
    exact pairwise_sortRecords records
  · unfold build? at made
    simp only [Option.bind_eq_bind, Option.bind_eq_some_iff, Option.pure_def, Option.some.injEq]
      at made
    obtain ⟨nodes, -, hash, -, rfl⟩ := made
    exact Entries.sort_of_pairwise (Entries.pairwise_sort nodes.made)

theorem get?_files_of_build? (distinct : (records.map (·.path)).Nodup)
    (made : build? records workspace now = some built) {path : String} {node : FileNode} :
    Entries.get? path built.tree.files = some node ↔
      ∃ r ∈ records, r.path = path ∧ fileNode r = node := by
  have files := files_of_build? distinct made
  constructor
  · intro found
    have member := Entries.mem_of_get?_eq_some found
    rw [files] at member
    obtain ⟨r, among, same⟩ := List.mem_map.mp member
    rw [Prod.mk.injEq] at same
    exact ⟨r, (sortRecords_perm records).mem_iff.mp among, same⟩
  · rintro ⟨r, among, rfl, rfl⟩
    refine Entries.get?_of_mem ?_ ?_
    · exact (isRegular_of_build? made).files
    · rw [files]
      exact List.mem_map.mpr ⟨r, (sortRecords_perm records).mem_iff.mpr among, rfl⟩

end SourceIndex.HashTree
