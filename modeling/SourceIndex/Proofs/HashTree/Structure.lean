import SourceIndex.Proofs.HashTree.Directories
/-!
# The structure of trees

The tree of records with different paths has a node for every directory on the way from one of its
files up to the root, and for no other. A node tells what lies in its directory, counts the files
below it, and has the digest of the digests of what it holds. Every file is listed once by its
suffix and once by its size.
-/

namespace SourceIndex.HashTree

open Key (isRoot)

/-! ### What a tree says -/

/-- The records of the files that lie in a directory itself, in the order of their paths. -/
def filesIn (records : List FileRecord) (key : String) : List FileRecord :=
  (sortRecords records).filter fun r => Key.ofFile r.path = key

def directoriesIn (directories : Entries DirectoryNode) (key : String) : Entries DirectoryNode :=
  directories.filter fun entry => Key.parent entry.1 = key

def heldHashes (records : List FileRecord) (directories : Entries DirectoryNode) (key : String) :
    List String :=
  (filesIn records key).map (·.hash) ++ (directoriesIn directories key).map (·.2.hash)

structure Describes (records : List FileRecord) (directories : Entries DirectoryNode) (key : String)
    (node : DirectoryNode) : Prop where
  files : node.files = (filesIn records key).map fun r => .text r.path
  subdirectories :
    node.subdirectories = (directoriesIn directories key).map fun entry => .text entry.1
  children : node.children.Perm (node.files ++ node.subdirectories)
  fileCount : node.fileCount = records.countP fun r => IsAncestor r.path key
  hash : directoryHash? (heldHashes records directories key) = some node.hash

/-- Each path of some records is listed once, and nothing else is, under the label of its record. -/
structure AreListed (records : List FileRecord) (label : FileRecord → String)
    (lists : Entries (List Json)) : Prop where
  once : (lists.flatMap (·.2)).Perm (records.map fun r => .text r.path)
  labelled : ∀ key, (Entries.get? key lists).getD [] =
    ((sortRecords records).filter fun r => label r = key).map fun r => .text r.path

/-- A tree has the digest of the files, the directories above them with what they hold, and lists
the files. -/
structure IsHashTreeOf (records : List FileRecord) (t : HashTree) : Prop where
  rootHash : rootHash? ((sortRecords records).map (·.hash)) = some t.rootHash
  distinct : (Entries.keys t.directories).Nodup
  keys : ∀ key, key ∈ Entries.keys t.directories ↔ ∃ r ∈ records, IsAncestor r.path key
  directories : ∀ key node, Entries.get? key t.directories = some node →
    Describes records t.directories key node
  bySuffix : AreListed records (fun r => suffixLabel r.path) t.bySuffix
  bySize : AreListed records (fun r => sizeClass r.size) t.bySize

/-! ### Listed files -/

section Lists
variable {α : Type}

theorem get?_addTo (key other : String) (item : α) (entries : Entries (List α)) :
    (Entries.get? other (addTo key item entries)).getD [] =
      (Entries.get? other entries).getD [] ++ if key = other then [item] else [] := by
  rw [addTo, Entries.get?_put]
  split
  · rename_i same
    rw [← same]
    rfl
  · rw [List.append_nil]

theorem flatMap_addTo (key : String) (item : α) {entries : Entries (List α)}
    (distinct : (Entries.keys entries).Nodup) :
    ((addTo key item entries).flatMap (·.2)).Perm (item :: entries.flatMap (·.2)) := by
  induction entries with
  | nil => exact .refl _
  | cons entry rest ih =>
    have later := ih (List.nodup_cons.mp distinct).2
    rw [addTo, Entries.get?_cons] at *
    rw [Entries.put_cons distinct]
    by_cases same : entry.1 = key
    · rw [if_pos same, if_pos same, List.flatMap_cons, List.flatMap_cons, Option.getD_some,
        List.append_assoc]
      exact List.perm_middle
    · rw [if_neg same, if_neg same, List.flatMap_cons, List.flatMap_cons]
      exact (later.append_left _).trans List.perm_middle

end Lists

theorem areListed_foldl_addTo (records : List FileRecord) (label : FileRecord → String)
    {start : Entries (List Json)} (lists : AreLists start) :
    ((records.foldl (fun found r => addTo (label r) (.text r.path) found) start).flatMap (·.2)).Perm
        (start.flatMap (·.2) ++ records.map fun r => .text r.path) ∧
      ∀ key, (Entries.get? key
          (records.foldl (fun found r => addTo (label r) (.text r.path) found) start)).getD [] =
        (Entries.get? key start).getD [] ++
          (records.filter fun r => label r = key).map fun r => .text r.path := by
  induction records generalizing start with
  | nil => simp
  | cons r rest ih =>
    obtain ⟨once, labelled⟩ := ih (areLists_addTo lists (label r) r.path)
    constructor
    · refine once.trans ?_
      refine ((flatMap_addTo (label r) (Json.text r.path) lists.distinct).append_right _).trans ?_
      exact List.perm_middle.symm
    · intro key
      rw [List.foldl_cons, labelled key, get?_addTo, List.filter_cons]
      by_cases same : label r = key
      · simp [same]
      · simp [same]

theorem areListed_of_foldl_addTo (records : List FileRecord) (label : FileRecord → String)
    {start : Entries (List Json)} (lists : AreLists start) (empty : ∀ entry ∈ start, entry.2 = []) :
    AreListed records label
      ((sortRecords records).foldl (fun found r => addTo (label r) (.text r.path) found)
        start) := by
  obtain ⟨once, labelled⟩ := areListed_foldl_addTo (sortRecords records) label lists
  have nothing : start.flatMap (·.2) = [] := List.flatMap_eq_nil_iff.mpr empty
  constructor
  · rw [nothing, List.nil_append] at once
    exact once.trans ((sortRecords_perm records).map _)
  · intro key
    have bare : (Entries.get? key start).getD [] = [] := by
      cases found : Entries.get? key start with
      | none => rfl
      | some items => exact empty _ (Entries.mem_of_get?_eq_some found)
    rw [labelled key, bare, List.nil_append]

/-! ### Nodes -/

section Nodes
variable {records : List FileRecord} {files : Entries FileNode} {made : Entries DirectoryNode}
  {key : String} {node : DirectoryNode}

theorem total_map_natCast {α : Type} (count : α → Nat) (items : List α) :
    total (items.map fun item => (count item : Int)) = ((items.map count).sum : Nat) := by
  induction items with
  | nil => rfl
  | cons item rest ih =>
    rw [List.map_cons, List.map_cons, List.sum_cons, Int.natCast_add, ← ih]
    rfl

theorem directoryNode?_eq_some {own below : List String}
    (isNode : directoryNode? files made own below = some node) :
    directoryHash? (childHashes files made own below) = some node.hash ∧
      node.fileCount = own.length +
        total (below.filterMap fun key => (Entries.get? key made).map (·.fileCount)) ∧
      node.children = (sortTexts (own ++ below)).map .text ∧ node.files = own.map .text ∧
      node.subdirectories = below.map .text := by
  unfold directoryNode? at isNode
  obtain ⟨hash, digest, rfl⟩ := Option.map_eq_some_iff.mp isNode
  exact ⟨digest, rfl, rfl, rfl, rfl⟩

theorem AreMade.keys_sort {paths located : Located}
    (are : AreMade files paths located (deepestFirst (directoryKeys records)) made) :
    (Entries.keys (Entries.sort made)).Perm (directoryKeys records) := by
  refine ((Entries.sort_perm made).map Prod.fst).trans ?_
  exact (List.Perm.of_eq are.keys).trans (deepestFirst_perm _)

theorem AreMade.distinct {paths located : Located}
    (are : AreMade files paths located (deepestFirst (directoryKeys records)) made) :
    (Entries.keys made).Nodup := by
  rw [are.keys, (deepestFirst_perm _).nodup_iff]
  exact nodup_directoryKeys records

theorem AreMade.directoriesIn {paths located : Located}
    (are : AreMade files paths located (deepestFirst (directoryKeys records)) made) (key : String) :
    (directoriesIn (Entries.sort made) key).map (·.1) =
      sortTexts ((locateDirectories (directoryKeys records)).lyingIn key) := by
  refine eq_of_perm_of_pairwise_le ?_ (pairwise_sortTexts _) ?_
  · rw [List.pairwise_map]
    exact (Entries.pairwise_sort made).filter _
  · refine List.Perm.trans ?_ (sortTexts_perm _).symm
    rw [lyingIn_locateDirectories]
    have filtered := are.keys_sort.filter fun child => Key.parent child = key
    rwa [Entries.keys, List.filter_map] at filtered

variable (are : AreMade ((sortRecords records).map fun r => (r.path, fileNode r))
  (locateFiles (sortRecords records)) (locateDirectories (directoryKeys (sortRecords records)))
  (deepestFirst (directoryKeys (sortRecords records))) made)
include are

theorem AreMade.childHashes (distinct : (records.map (·.path)).Nodup) (key : String) :
    childHashes ((sortRecords records).map fun r => (r.path, fileNode r)) made
        ((locateFiles (sortRecords records)).lyingIn key)
        (sortTexts ((locateDirectories (directoryKeys (sortRecords records))).lyingIn key)) =
      heldHashes records (Entries.sort made) key := by
  have apart : (Entries.keys ((sortRecords records).map fun r => (r.path, fileNode r))).Nodup := by
    rw [Entries.keys, List.map_map]
    exact ((sortRecords_perm records).map _).nodup_iff.mpr distinct
  have own : ∀ r ∈ filesIn records key, (Entries.get? r.path
      ((sortRecords records).map fun r => (r.path, fileNode r))).map (·.hash) = some r.hash := by
    intro r member
    rw [Entries.get?_of_mem apart (List.mem_map_of_mem (List.mem_filter.mp member).1)]
    rfl
  have below : ∀ entry ∈ HashTree.directoriesIn (Entries.sort made) key,
      ((Entries.get? entry.1 made).map (·.hash)).getD entry.1 = entry.2.hash := by
    intro entry member
    have among := (Entries.sort_perm made).mem_iff.mp (List.mem_filter.mp member).1
    rw [Entries.get?_of_mem are.distinct among]
    rfl
  rw [HashTree.childHashes, ← are.directoriesIn key, lyingIn_locateFiles, List.map_map,
    List.filterMap_map]
  refine congrArg₂ (· ++ ·) ?_ (List.map_congr_left below)
  exact (List.filterMap_congr own).trans (congrFun List.filterMap_eq_map' _)

theorem AreMade.fileCount (inside : isRoot key ≠ true) (found : Entries.get? key made = some node) :
    node.fileCount = records.countP fun r => IsAncestor r.path key := by
  revert node
  refine directoryKeys_induction (sortRecords records)
    (motive := fun key => ∀ {node : DirectoryNode}, Entries.get? key made = some node →
      node.fileCount = records.countP fun r => IsAncestor r.path key)
    (fun key inside below node found => ?_) inside
  generalize shape : sortTexts ((locateDirectories
    (directoryKeys (sortRecords records))).lyingIn key) = children
  have member {child : String} : child ∈ children ↔
      child ∈ directoryKeys (sortRecords records) ∧ Key.parent child = key := by
    rw [← shape, (sortTexts_perm _).mem_iff, mem_lyingIn_locateDirectories]
  have distinct : children.Nodup := by
    rw [← shape, (sortTexts_perm _).nodup_iff, lyingIn_locateDirectories]
    exact (nodup_directoryKeys _).filter _
  obtain ⟨-, count, -⟩ := directoryNode?_eq_some (are.nodes key node found)
  have counted : (children.filterMap fun child => (Entries.get? child made).map (·.fileCount)) =
      children.map fun child =>
        ((records.countP fun r => IsAncestor r.path child : Nat) : Int) := by
    rw [← List.filterMap_eq_map]
    refine List.filterMap_congr fun child among => ?_
    obtain ⟨isKey, parent⟩ := member.mp among
    have there : child ∈ Entries.keys made := by
      rwa [are.keys, (deepestFirst_perm _).mem_iff]
    obtain ⟨childNode, found⟩ := Entries.exists_of_has (Entries.has_eq_true_iff.mpr there)
    rw [found, Option.map_some, below child isKey parent found]
    rfl
  have all : ∀ r ∈ records, ∀ child, IsAncestor r.path child → Key.parent child = key →
      child ∈ children := fun r among child is parent =>
    member.mpr ⟨mem_directoryKeys.mpr ⟨r, (sortRecords_perm records).mem_iff.mpr among, is⟩, parent⟩
  rw [count, shape, counted,
    countP_isAncestor distinct inside (fun child among => (member.mp among).2) all,
    lyingIn_locateFiles, List.length_map, ← List.countP_eq_length_filter,
    (sortRecords_perm records).countP_eq, total_map_natCast, Int.natCast_add]

theorem AreMade.describes (distinct : (records.map (·.path)).Nodup)
    (found : Entries.get? key made = some node) :
    Describes records (Entries.sort made) key node := by
  have inside : isRoot key ≠ true := by
    have there : key ∈ Entries.keys made := List.mem_map_of_mem (Entries.mem_of_get?_eq_some found)
    rw [are.keys, (deepestFirst_perm _).mem_iff] at there
    obtain ⟨r, -, is⟩ := mem_directoryKeys.mp there
    exact is.inside
  obtain ⟨digest, -, children, files, subdirectories⟩ :=
    directoryNode?_eq_some (are.nodes key node found)
  rw [are.childHashes distinct] at digest
  refine ⟨?_, ?_, ?_, are.fileCount inside found, digest⟩
  · rw [files, lyingIn_locateFiles, List.map_map]
    rfl
  · rw [subdirectories, ← are.directoriesIn key, List.map_map]
    rfl
  · rw [children, files, subdirectories, ← List.map_append]
    exact (sortTexts_perm _).map _

end Nodes

/-! ### Trees -/

section Trees
variable {records : List FileRecord} {workspace : String} {now : Int} {built : Built}

theorem files_isAscii_iff : (∀ r ∈ records, Text.IsAscii r.hash.toList) ↔
    ∀ entry ∈ (sortRecords records).map fun r => (r.path, fileNode r),
      Text.IsAscii entry.2.hash.toList := by
  simp [fileNode, (sortRecords_perm records).mem_iff]

/-- There is a tree, if the digests of the files are ASCII. -/
theorem exists_build? (distinct : (records.map (·.path)).Nodup)
    (ascii : ∀ r ∈ records, Text.IsAscii r.hash.toList) (workspace : String) (now : Int) :
    ∃ built, build? records workspace now = some built := by
  have files := ofList_sortRecords distinct
  have ascii' := files_isAscii_iff.mp ascii
  obtain ⟨made, nodes, -⟩ := exists_directories? ascii' (sortRecords records)
  have hash : rootHash? (((sortRecords records).map fun r => (r.path, fileNode r)).map
      (·.2.hash)) = some _ := rootHash?_of_isAscii (by simpa using ascii')
  unfold build?
  simp only [files, nodes, hash, Option.bind_eq_bind, Option.bind_some]
  exact ⟨_, rfl⟩

theorem parts_of_build? (distinct : (records.map (·.path)).Nodup)
    (made : build? records workspace now = some built) :
    ∃ nodes, AreMade ((sortRecords records).map fun r => (r.path, fileNode r))
        (locateFiles (sortRecords records))
        (locateDirectories (directoryKeys (sortRecords records)))
        (deepestFirst (directoryKeys (sortRecords records))) nodes ∧
      built.tree.directories = Entries.sort nodes ∧ built.absent = [] ∧
      rootHash? ((sortRecords records).map (·.hash)) = some built.tree.rootHash ∧
      built.tree.bySuffix = (sortRecords records).foldl
        (fun found r => addTo (suffixLabel r.path) (.text r.path) found) [] ∧
      built.tree.bySize = (sortRecords records).foldl
        (fun found r => addTo (sizeClass r.size) (.text r.path) found) emptyBySize := by
  have files := ofList_sortRecords distinct
  unfold build? at made
  simp only [files, Option.bind_eq_bind, Option.bind_eq_some_iff, Option.pure_def,
    Option.some.injEq] at made
  obtain ⟨nodes, isNodes, hash, isHash, rfl⟩ := made
  rw [List.map_map] at isHash
  have ascii : ∀ r ∈ records, Text.IsAscii r.hash.toList := fun r member =>
    isAscii_of_rootHash? isHash _
      (List.mem_map_of_mem ((sortRecords_perm records).mem_iff.mpr member))
  obtain ⟨all, isAll, are⟩ := exists_directories? (files_isAscii_iff.mp ascii) (sortRecords records)
  rw [isAll, Option.some.injEq] at isNodes
  subst isNodes
  exact ⟨all, are, rfl, rfl, isHash, rfl, rfl⟩

theorem isHashTreeOf_of_build? (distinct : (records.map (·.path)).Nodup)
    (made : build? records workspace now = some built) : IsHashTreeOf records built.tree := by
  obtain ⟨nodes, are, directories, -, rootHash, bySuffix, bySize⟩ := parts_of_build? distinct made
  refine ⟨rootHash, ?_, fun key => ?_, fun key node found => ?_, ?_, ?_⟩
  · rw [directories]
    exact Entries.nodup_keys_sort are.distinct
  · rw [directories, are.keys_sort.mem_iff, mem_directoryKeys]
    simp only [(sortRecords_perm records).mem_iff]
  · rw [directories] at found ⊢
    rw [Entries.get?_sort are.distinct] at found
    exact are.describes distinct found
  · rw [bySuffix]
    exact areListed_of_foldl_addTo records _ areLists_nil (by simp)
  · rw [bySize]
    exact areListed_of_foldl_addTo records _ areLists_emptyBySize (by simp [emptyBySize])

/-- The tree of records with different paths and ASCII digests says what there is of their
directories, none of which is missing when its parent needs it. -/
theorem exists_isHashTreeOf (distinct : (records.map (·.path)).Nodup)
    (ascii : ∀ r ∈ records, Text.IsAscii r.hash.toList) (workspace : String) (now : Int) :
    ∃ built, build? records workspace now = some built ∧ built.absent = [] ∧
      IsHashTreeOf records built.tree := by
  obtain ⟨built, made⟩ := exists_build? distinct ascii workspace now
  obtain ⟨nodes, -, -, absent, -⟩ := parts_of_build? distinct made
  exact ⟨built, made, absent, isHashTreeOf_of_build? distinct made⟩

/-- Files at the root, above it, under one slash and two, and with backslashes in their names. -/
def unusualRecords : List FileRecord :=
  ["top", "/x.py", "//y/z.py", "../up/w.py", "a\\b\\c.py", "a/d"].map fun path =>
    { path, hash := "0f", size := 1, modified := 2 }

theorem exists_isHashTreeOf_unusual :
    (∃ built, build? unusualRecords "/ws" 7 = some built ∧ built.absent = [] ∧
      IsHashTreeOf unusualRecords built.tree) ∧
      directoryKeys unusualRecords = ["/", "//y/", "//", "../up/", "../", "a/b/", "a/"] :=
  ⟨exists_isHashTreeOf (by decide +kernel) (by decide +kernel) "/ws" 7, by decide +kernel⟩

end Trees

end SourceIndex.HashTree
