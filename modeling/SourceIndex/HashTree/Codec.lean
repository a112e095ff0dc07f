import SourceIndex.HashTree.Build
import SourceIndex.Json.Decode
/-!
# Stored trees

A hash tree is stored as an object. Reading takes back what writing produced, and is lenient with
the kinds of the values.
-/

namespace SourceIndex.HashTree

open Json (DecodeFault)

/-! ### Writing -/

def fileToJson (n : FileNode) : Json :=
  .object
    [("hash", .text n.hash), ("size", .int n.size), ("last_modified", .int n.modified),
     ("path", .text n.path), ("parent_path", .text n.parent), ("is_binary", .bool n.isBinary),
     ("encoding", .optionalText n.encoding)]

def directoryToJson (n : DirectoryNode) : Json :=
  .object
    [("hash", .text n.hash), ("file_count", .int n.fileCount), ("children", .list n.children),
     ("files", .list n.files), ("subdirs", .list n.subdirectories)]

def listsToJson (lists : Entries (List Json)) : Json :=
  .object (lists.map fun (key, items) => (key, .list items))

def toJson (t : HashTree) : Json :=
  .object
    [("root", .object
       [("hash", .text t.rootHash), ("timestamp", .int t.timestamp),
        ("file_count", .int t.fileCount)]),
     ("files", .object (t.files.map fun (path, node) => (path, fileToJson node))),
     ("directories", .object (t.directories.map fun (key, node) => (key, directoryToJson node))),
     ("index", .object
       [("by_extension", listsToJson t.bySuffix), ("by_size", listsToJson t.bySize)]),
     ("metadata", .object
       [("version", .text t.version), ("created_at", .int t.createdAt),
        ("workspace", .text t.workspace), ("total_size", .int t.totalSize),
        ("tree_depth", .int t.depth)])]

/-! ### Reading -/

def recordFields : Json → Except DecodeFault (Entries Json)
  | .object fields => .ok fields
  | _ => .error .wrongKind

def partFields (name : String) (value : Option Json) : Except DecodeFault (Entries Json) :=
  match value with
  | some (.object fields) => .ok fields
  | _ => .error (.notAnObject name)

def fileOfJson (value : Json) : Except DecodeFault FileNode := do
  let fields ← recordFields value
  let hash ← Json.textField "hash" fields
  let size ← Json.intField "size" fields
  let modified ← Json.intField "last_modified" fields
  let path ← Json.textField "path" fields
  let parent ← Json.textField "parent_path" fields
  let isBinary := ((Entries.get? "is_binary" fields).getD (.bool false)).truth
  let encoding := match Entries.get? "encoding" fields with
    | none | some .null => none
    | some value => some value.plain
  return ⟨hash, size, modified, path, parent, isBinary, encoding⟩

def directoryOfJson (value : Json) : Except DecodeFault DirectoryNode := do
  let fields ← recordFields value
  let hash ← Json.textField "hash" fields
  let fileCount ← Json.intField "file_count" fields
  let children ← Json.itemsField "children" fields
  let files ← Json.itemsField "files" fields
  let subdirectories ← Json.itemsField "subdirs" fields
  return ⟨hash, fileCount, children, files, subdirectories⟩

def readEntries {α : Type} (read : Json → Except DecodeFault α) (fields : Entries Json) :
    Except DecodeFault (Entries α) :=
  fields.mapM fun (key, value) => (read value).map fun item => (key, item)

def listsField (key : String) (absent : Entries (List Json)) (fields : Entries Json) :
    Except DecodeFault (Entries (List Json)) :=
  match Entries.get? key fields with
  | none => .ok absent
  | some (.object lists) => readEntries Json.items lists
  | some _ => .error .noFields

def countField (key : String) (fields : Entries Json) : Except DecodeFault Int :=
  ((Entries.get? key fields).getD (.int 0)).toInt

def ofFields (fields : Entries Json) : Except DecodeFault HashTree := do
  let root ← partFields "root" (Entries.get? "root" fields)
  let fileFields ← partFields "files" (Entries.get? "files" fields)
  let directoryFields ← partFields "directories" (Entries.get? "directories" fields)
  let index ← partFields "index" ((Entries.get? "index" fields).getD (.object []))
  let metadata ← partFields "metadata" (Entries.get? "metadata" fields)
  let rootHash ← Json.textField "hash" root
  let timestamp ← Json.intField "timestamp" root
  let fileCount ← Json.intField "file_count" root
  let files ← readEntries fileOfJson fileFields
  let directories ← readEntries directoryOfJson directoryFields
  let bySuffix ← listsField "by_extension" [] index
  let bySize ← listsField "by_size" emptyBySize index
  let version ← Json.textField "version" metadata
  let createdAt ← Json.intField "created_at" metadata
  let workspace ← Json.textField "workspace" metadata
  let totalSize ← countField "total_size" metadata
  let depth ← countField "tree_depth" metadata
  return { rootHash, timestamp, fileCount, files, directories, bySuffix, bySize, version,
           createdAt, workspace, totalSize, depth }

def ofJson : Json → Except DecodeFault HashTree
  | .object fields => ofFields fields
  | _ => .error .noFields

def faultText? : DecodeFault → Option String
  | .notAnObject part => some ("Merkle tree field '" ++ part ++ "' must be an object.")
  | _ => none

end SourceIndex.HashTree
