import SourceIndex.Proofs.Json.Fields
/-!
# Hash trees are read back

A hash tree is read back from its object with everything in it in the order of the keys, if no key
stands in it twice and the lists in it hold texts only.
-/

namespace SourceIndex.HashTree

open Json (AreTexts Storable stored storedObject)

/-! ### Regular trees -/

/-- A tree in which no key stands twice and all lists hold texts. -/
structure IsRegular (t : HashTree) : Prop where
  files : (Entries.keys t.files).Nodup
  directories : (Entries.keys t.directories).Nodup
  suffixes : (Entries.keys t.bySuffix).Nodup
  sizes : (Entries.keys t.bySize).Nodup
  children : ∀ entry ∈ t.directories, AreTexts entry.2.children
  ownFiles : ∀ entry ∈ t.directories, AreTexts entry.2.files
  subdirectories : ∀ entry ∈ t.directories, AreTexts entry.2.subdirectories
  bySuffix : ∀ entry ∈ t.bySuffix, AreTexts entry.2
  bySize : ∀ entry ∈ t.bySize, AreTexts entry.2

def normal (t : HashTree) : HashTree :=
  { t with
    files := Entries.sort t.files
    directories := Entries.sort t.directories
    bySuffix := Entries.sort t.bySuffix
    bySize := Entries.sort t.bySize }

/-! ### Fields -/

def fileFields (n : FileNode) : List (String × Json) :=
  [("hash", .text n.hash), ("size", .int n.size), ("last_modified", .int n.modified),
   ("path", .text n.path), ("parent_path", .text n.parent), ("is_binary", .bool n.isBinary),
   ("encoding", .optionalText n.encoding)]

def directoryFields (n : DirectoryNode) : List (String × Json) :=
  [("hash", .text n.hash), ("file_count", .int n.fileCount), ("children", .list n.children),
   ("files", .list n.files), ("subdirs", .list n.subdirectories)]

def rootFields (t : HashTree) : List (String × Json) :=
  [("hash", .text t.rootHash), ("timestamp", .int t.timestamp), ("file_count", .int t.fileCount)]

def indexFields (t : HashTree) : List (String × Json) :=
  [("by_extension", .object (Entries.mapValues Json.list t.bySuffix)),
   ("by_size", .object (Entries.mapValues Json.list t.bySize))]

def metadataFields (t : HashTree) : List (String × Json) :=
  [("version", .text t.version), ("created_at", .int t.createdAt),
   ("workspace", .text t.workspace), ("total_size", .int t.totalSize), ("tree_depth", .int t.depth)]

def fields (t : HashTree) : List (String × Json) :=
  [("root", .object t.rootFields),
   ("files", .object (Entries.mapValues fileToJson t.files)),
   ("directories", .object (Entries.mapValues directoryToJson t.directories)),
   ("index", .object t.indexFields),
   ("metadata", .object t.metadataFields)]

theorem fileToJson_eq (n : FileNode) : fileToJson n = .object (fileFields n) := rfl

theorem directoryToJson_eq (n : DirectoryNode) :
    directoryToJson n = .object (directoryFields n) := rfl

theorem toJson_eq (t : HashTree) : t.toJson = .object t.fields := rfl

/-! ### Trees can be read back -/

theorem storable_optionalText (depth : Nat) (s : Option String) :
    Storable depth (.optionalText s) := by
  cases s with
  | none => exact .null ..
  | some s => exact .text ..

theorem storable_fileToJson (n : FileNode) : Storable 1 (fileToJson n) := by
  rw [fileToJson_eq]
  refine .object (by simp [fileFields, Entries.keys]) ?_
  intro field member
  simp only [fileFields, List.mem_cons, List.not_mem_nil, or_false] at member
  rcases member with rfl | rfl | rfl | rfl | rfl | rfl | rfl
  all_goals first
    | exact .text ..
    | exact .whole ..
    | exact .bool ..
    | exact storable_optionalText ..

theorem storable_directoryToJson {n : DirectoryNode} (children : AreTexts n.children)
    (files : AreTexts n.files) (subdirectories : AreTexts n.subdirectories) :
    Storable 2 (directoryToJson n) := by
  rw [directoryToJson_eq]
  refine .object (by simp [directoryFields, Entries.keys]) ?_
  intro field member
  simp only [directoryFields, List.mem_cons, List.not_mem_nil, or_false] at member
  rcases member with rfl | rfl | rfl | rfl | rfl
  · exact .text ..
  · exact .whole ..
  · exact Json.storable_list children
  · exact Json.storable_list files
  · exact Json.storable_list subdirectories

theorem storable_toJson {t : HashTree} (regular : t.IsRegular) : Storable 4 t.toJson := by
  rw [toJson_eq]
  refine .object (by simp [fields, Entries.keys]) ?_
  intro field member
  simp only [fields, List.mem_cons, List.not_mem_nil, or_false] at member
  rcases member with rfl | rfl | rfl | rfl | rfl
  · refine .object (by simp [rootFields, Entries.keys]) ?_
    intro field member
    simp only [rootFields, List.mem_cons, List.not_mem_nil, or_false] at member
    rcases member with rfl | rfl | rfl
    · exact .text ..
    · exact .whole ..
    · exact .whole ..
  · exact Json.storable_mapValues regular.files fun entry _ =>
      (storable_fileToJson entry.2).mono (by decide)
  · exact Json.storable_mapValues regular.directories fun entry found =>
      storable_directoryToJson (regular.children entry found) (regular.ownFiles entry found)
        (regular.subdirectories entry found)
  · refine .object (by simp [indexFields, Entries.keys]) ?_
    intro field member
    simp only [indexFields, List.mem_cons, List.not_mem_nil, or_false] at member
    rcases member with rfl | rfl
    · exact Json.storable_mapValues regular.suffixes fun entry found =>
        Json.storable_list (regular.bySuffix entry found)
    · exact Json.storable_mapValues regular.sizes fun entry found =>
        Json.storable_list (regular.bySize entry found)
  · refine .object (by simp [metadataFields, Entries.keys]) ?_
    intro field member
    simp only [metadataFields, List.mem_cons, List.not_mem_nil, or_false] at member
    rcases member with rfl | rfl | rfl | rfl | rfl
    · exact .text ..
    · exact .whole ..
    · exact .text ..
    · exact .whole ..
    · exact .whole ..

/-! ### Reading back -/

theorem fileOfJson_stored (n : FileNode) : fileOfJson (stored (fileToJson n)) = .ok n := by
  have distinct : (Entries.keys (fileFields n)).Nodup := by simp [fileFields, Entries.keys]
  have hash : Json.textField "hash" (storedObject (fileFields n)) = .ok n.hash :=
    Json.textField_storedObject distinct rfl
  have size : Json.intField "size" (storedObject (fileFields n)) = .ok n.size :=
    Json.intField_storedObject distinct rfl
  have modified : Json.intField "last_modified" (storedObject (fileFields n)) = .ok n.modified :=
    Json.intField_storedObject distinct rfl
  have path : Json.textField "path" (storedObject (fileFields n)) = .ok n.path :=
    Json.textField_storedObject distinct rfl
  have parent : Json.textField "parent_path" (storedObject (fileFields n)) = .ok n.parent :=
    Json.textField_storedObject distinct rfl
  have isBinary : Entries.get? "is_binary" (storedObject (fileFields n)) =
      some (.bool n.isBinary) := by
    rw [Json.get?_storedObject distinct]
    rfl
  have encoding : Entries.get? "encoding" (storedObject (fileFields n)) =
      some (.optionalText n.encoding) := by
    rw [Json.get?_storedObject distinct]
    show some (stored (.optionalText n.encoding)) = _
    cases n.encoding <;> rfl
  rw [fileToJson_eq, Json.stored_object]
  unfold fileOfJson
  simp only [recordFields, hash, size, modified, path, parent, isBinary, encoding, bind,
    Except.bind, pure, Except.pure]
  obtain ⟨_, _, _, _, _, _, name⟩ := n
  cases name <;> rfl

theorem directoryOfJson_stored {n : DirectoryNode} (children : AreTexts n.children)
    (files : AreTexts n.files) (subdirectories : AreTexts n.subdirectories) :
    directoryOfJson (stored (directoryToJson n)) = .ok n := by
  have distinct : (Entries.keys (directoryFields n)).Nodup := by
    simp [directoryFields, Entries.keys]
  have hash : Json.textField "hash" (storedObject (directoryFields n)) = .ok n.hash :=
    Json.textField_storedObject distinct rfl
  have count : Json.intField "file_count" (storedObject (directoryFields n)) = .ok n.fileCount :=
    Json.intField_storedObject distinct rfl
  have all : Json.itemsField "children" (storedObject (directoryFields n)) = .ok n.children :=
    Json.itemsField_storedObject distinct rfl children
  have own : Json.itemsField "files" (storedObject (directoryFields n)) = .ok n.files :=
    Json.itemsField_storedObject distinct rfl files
  have below : Json.itemsField "subdirs" (storedObject (directoryFields n)) =
      .ok n.subdirectories :=
    Json.itemsField_storedObject distinct rfl subdirectories
  rw [directoryToJson_eq, Json.stored_object]
  unfold directoryOfJson
  simp only [recordFields, hash, count, all, own, below, bind, Except.bind, pure, Except.pure]

theorem ofFields_storedObject {t : HashTree} (regular : t.IsRegular) :
    ofFields (storedObject t.fields) = .ok t.normal := by
  have distinct : (Entries.keys t.fields).Nodup := by simp [fields, Entries.keys]
  have distinctRoot : (Entries.keys t.rootFields).Nodup := by simp [rootFields, Entries.keys]
  have distinctIndex : (Entries.keys t.indexFields).Nodup := by simp [indexFields, Entries.keys]
  have distinctMetadata : (Entries.keys t.metadataFields).Nodup := by
    simp [metadataFields, Entries.keys]
  have root : partFields "root" (Entries.get? "root" (storedObject t.fields)) =
      .ok (storedObject t.rootFields) := partFields_storedObject _ distinct rfl
  have fileFields : partFields "files" (Entries.get? "files" (storedObject t.fields)) =
      .ok (storedObject (Entries.mapValues fileToJson t.files)) :=
    partFields_storedObject _ distinct rfl
  have directoryFields :
      partFields "directories" (Entries.get? "directories" (storedObject t.fields)) =
        .ok (storedObject (Entries.mapValues directoryToJson t.directories)) :=
    partFields_storedObject _ distinct rfl
  have index : partFields "index"
      ((Entries.get? "index" (storedObject t.fields)).getD (.object [])) =
        .ok (storedObject t.indexFields) := by
    rw [Json.get?_storedObject distinct]
    rfl
  have metadata : partFields "metadata" (Entries.get? "metadata" (storedObject t.fields)) =
      .ok (storedObject t.metadataFields) := partFields_storedObject _ distinct rfl
  have hash : Json.textField "hash" (storedObject t.rootFields) = .ok t.rootHash :=
    Json.textField_storedObject distinctRoot rfl
  have timestamp : Json.intField "timestamp" (storedObject t.rootFields) = .ok t.timestamp :=
    Json.intField_storedObject distinctRoot rfl
  have count : Json.intField "file_count" (storedObject t.rootFields) = .ok t.fileCount :=
    Json.intField_storedObject distinctRoot rfl
  have files : readEntries fileOfJson (storedObject (Entries.mapValues fileToJson t.files)) =
      .ok (Entries.sort t.files) :=
    readEntries_storedObject fun entry _ => fileOfJson_stored entry.2
  have directories : readEntries directoryOfJson
      (storedObject (Entries.mapValues directoryToJson t.directories)) =
        .ok (Entries.sort t.directories) :=
    readEntries_storedObject fun entry member => directoryOfJson_stored
      (regular.children entry member) (regular.ownFiles entry member)
      (regular.subdirectories entry member)
  have suffixes : listsField "by_extension" [] (storedObject t.indexFields) =
      .ok (Entries.sort t.bySuffix) :=
    listsField_storedObject distinctIndex rfl regular.bySuffix _
  have sizes : listsField "by_size" emptyBySize (storedObject t.indexFields) =
      .ok (Entries.sort t.bySize) :=
    listsField_storedObject distinctIndex rfl regular.bySize _
  have version : Json.textField "version" (storedObject t.metadataFields) = .ok t.version :=
    Json.textField_storedObject distinctMetadata rfl
  have created : Json.intField "created_at" (storedObject t.metadataFields) = .ok t.createdAt :=
    Json.intField_storedObject distinctMetadata rfl
  have workspace : Json.textField "workspace" (storedObject t.metadataFields) =
      .ok t.workspace := Json.textField_storedObject distinctMetadata rfl
  have totalSize : countField "total_size" (storedObject t.metadataFields) = .ok t.totalSize :=
    countField_storedObject distinctMetadata rfl
  have depth : countField "tree_depth" (storedObject t.metadataFields) = .ok t.depth :=
    countField_storedObject distinctMetadata rfl
  unfold ofFields
  simp only [root, fileFields, directoryFields, index, metadata, hash, timestamp, count, files,
    directories, suffixes, sizes, version, created, workspace, totalSize, depth, bind, Except.bind,
    pure, Except.pure]
  rfl

theorem stored_toJson_normal (t : HashTree) : stored t.normal.toJson = stored t.toJson := by
  have files : stored (.object (Entries.mapValues fileToJson t.normal.files)) =
      stored (.object (Entries.mapValues fileToJson t.files)) :=
    Json.stored_object_mapValues_sort ..
  have directories : stored (.object (Entries.mapValues directoryToJson t.normal.directories)) =
      stored (.object (Entries.mapValues directoryToJson t.directories)) :=
    Json.stored_object_mapValues_sort ..
  have index : stored (.object t.normal.indexFields) = stored (.object t.indexFields) := by
    refine Json.stored_object_congr ?_
    simp only [indexFields, Json.storedFields, normal, Json.stored_object_mapValues_sort]
  rw [toJson_eq, toJson_eq]
  refine Json.stored_object_congr ?_
  simp only [fields, Json.storedFields, files, directories, index]
  rfl

end SourceIndex.HashTree
