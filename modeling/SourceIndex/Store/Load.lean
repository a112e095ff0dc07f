import SourceIndex.Store.Basic
import SourceIndex.Text.Blocks
/-!
# Reading the stored index

Reading is strict with the manifest and the tree, and lenient with the rows of chunks: a row that
holds no chunk is left out.
-/

namespace SourceIndex.Store

/-! ### The manifest -/

/-- The fields of the manifest, if there is one that is an object. -/
def readManifest (s : Store) (d : Disk) : Except IndexError (Option (Entries Json)) :=
  match d.hasAnything s.manifestPath with
  | .error e => .error (.file e)
  | .ok false => .ok none
  | .ok true =>
    match d.readDocument s.manifestPath with
    | .error e => .error (.document e)
    | .ok (.object fields) => .ok (some fields)
    | .ok _ => .ok none

/-- The layout that a manifest names, if it is an integer; a truth value counts as one. -/
def schemaOf (manifest : Entries Json) : Option Int :=
  match Entries.get? "schema_version" manifest with
  | some (.number (.whole n)) => some n
  | some (.bool b) => some (if b then 1 else 0)
  | _ => none

def schemaShown (manifest : Entries Json) : String :=
  match Entries.get? "schema_version" manifest with
  | some (.bool b) => (Json.bool b).plain
  | _ => toString ((schemaOf manifest).getD (-1))

def requireSchema (s : Store) (d : Disk) : Except IndexError Unit :=
  match s.readManifest d with
  | .error e => .error e
  | .ok none => .ok ()
  | .ok (some manifest) =>
    if schemaOf manifest = some currentSchema then .ok ()
    else .error (.schema (schemaShown manifest))

/-! ### Status -/

/-- What is known of an index without reading it. -/
inductive Status
  | notIndexed
  | otherSchema
  /-- The fields of the manifest. A count that is a truth value is kept as it is. -/
  | ready (refreshed : Option String) (fileCount chunkCount : Json) (rootHash : Option String)
  deriving Repr

def textOf (key : String) (manifest : Entries Json) : Option String :=
  match Entries.get? key manifest with
  | some (.text s) => some s
  | _ => none

/-- A field of the manifest that is a count; zero if it is none. -/
def countOf (key : String) (manifest : Entries Json) : Json :=
  match Entries.get? key manifest with
  | some (.number (.whole n)) => .int n
  | some (.bool true) => .bool true
  | _ => .int 0

def statusOf (manifest : Entries Json) : Status :=
  if schemaOf manifest = some currentSchema then
    .ready (textOf "last_refresh_timestamp" manifest) (countOf "indexed_file_count" manifest)
      (countOf "indexed_chunk_count" manifest) (textOf "root_hash" manifest)
  else .otherSchema

def status (s : Store) (d : Disk) : Except IndexError Status :=
  (s.readManifest d).map fun manifest =>
    match manifest with
    | none => .notIndexed
    | some fields => statusOf fields

def Status.toJson : Status → Json
  | notIndexed => of "not_indexed" none (.int 0) (.int 0) none
  | otherSchema => of "schema_mismatch" none (.int 0) (.int 0) none
  | ready refreshed fileCount chunkCount rootHash =>
    of "ready" refreshed fileCount chunkCount rootHash
where
  /-- The object with all its fields. -/
  of (name : String) (refreshed : Option String) (fileCount chunkCount : Json)
      (rootHash : Option String) : Json :=
    .object
      [("index_status", .text name),
       ("last_refresh_timestamp", .optionalText refreshed),
       ("indexed_file_count", fileCount),
       ("indexed_chunk_count", chunkCount),
       ("root_hash", .optionalText rootHash)]

/-! ### The tree -/

def loadTree (s : Store) (d : Disk) : Except IndexError (Option HashTree) :=
  match d.hasAnything s.treePath with
  | .error e => .error (.file e)
  | .ok false => .ok none
  | .ok true => ((HashTree.load d s.treePath).map some).mapError .tree

/-! ### The chunks -/

def rowOf (line : String) : Except Json.ReadFault (Option (Entries Json)) :=
  match Json.read (Text.trim line) with
  | .ok (.object fields) => .ok (some fields)
  | .ok _ | .error .malformed => .ok none
  | .error fault => .error fault

def rowsOf : List String → Except Json.ReadFault (List (Entries Json))
  | [] => .ok []
  | line :: rest =>
    match rowOf line with
    | .error fault => .error fault
    | .ok row => (rowsOf rest).map (row.toList ++ ·)

def readRows (data : Bytes) : Except DocumentError (List (Entries Json)) :=
  let reading := Text.Blocks.read [] data
  match rowsOf reading.lines with
  | .error fault => .error (.content fault)
  | .ok rows =>
    match reading.error with
    | some e => .error (.encoding e)
    | none => .ok rows

def chunksOf : List (Entries Json) → Except IndexError (List Chunk)
  | [] => .ok []
  | row :: rest =>
    match Chunk.ofFields row with
    | .ok chunk => (chunksOf rest).map (chunk :: ·)
    | .error .infinite => .error .infiniteRow
    | .error _ => chunksOf rest

def chunksIn (d : Disk) (p : Path) : Except IndexError (List Chunk) :=
  match d.readAll p with
  | .error e => .error (.file e)
  | .ok data =>
    match readRows data with
    | .error e => .error (.document e)
    | .ok rows => (chunksOf rows).map Chunk.sortByAddress

def loadChunks (s : Store) (d : Disk) : Except IndexError (List Chunk) :=
  match s.requireSchema d with
  | .error e => .error e
  | .ok () =>
    match d.hasAnything s.chunksPath with
    | .error e => .error (.file e)
    | .ok false => .ok []
    | .ok true => chunksIn d s.chunksPath

end SourceIndex.Store
