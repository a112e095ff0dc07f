import SourceIndex.Chunk.Codec
import SourceIndex.Config.Load
import SourceIndex.Dispatch.Basic
import SourceIndex.HashTree.File
import SourceIndex.Scan.Basic
import SourceIndex.Time.Moment
/-!
# The stored index

The index of a workspace is kept in three files: the manifest, which names the layout and is
written last, the hash tree, and the chunks, one on each line.
-/

namespace SourceIndex

/-- The directory that an index is kept in. -/
structure Store where
  directory : Path
  deriving DecidableEq, Repr

namespace Store

/-- Where the index of a workspace is kept. -/
def ofConfig (config : Config) : Store := ⟨config.dataDir.child "index"⟩

def manifestPath (s : Store) : Path := s.directory.child "manifest.json"

def treePath (s : Store) : Path := s.directory.child "merkle.json"

def chunksPath (s : Store) : Path := s.directory.child "chunks.jsonl"

def currentSchema : Int := 1

end Store

/-! ### Errors -/

inductive IndexError
  | file (e : FileError)
  | document (e : DocumentError)
  | tree (e : TreeFileError)
  /-- An infinite number stands for an integer of a stored chunk. -/
  | infiniteRow
  /-- The manifest names another layout than the current one. -/
  | schema (found : String)
  | scan (e : ScanFailure)
  /-- A digest that was taken over from an earlier tree is not ASCII. -/
  | hashNotAscii
  | dispatch (e : Dispatch.DispatchError)
  deriving DecidableEq, Repr

namespace IndexError

def schemaText (found : String) : String :=
  "Index schema " ++ found ++ " is not supported (expected " ++ toString Store.currentSchema ++ ")."

def ground : IndexError → Ground
  | file e => .ofFileError e
  | document e => .ofDocumentError e
  | tree e => e.ground
  | infiniteRow => .severe
  | schema _ => .severe
  | scan (.file e) => .ofFileError e
  | scan _ => .badValue
  | hashNotAscii => .badValue
  | dispatch .emptyGroups => .badValue
  | dispatch .tooLarge => .severe
  | dispatch (.task e) => .ofFileError e

def message : IndexError → String
  | file e => e.message
  | document e => e.message
  | tree e => e.message
  | infiniteRow => "cannot convert float infinity to integer"
  | schema found => schemaText found
  | scan (.config e) => e.message
  | scan (.workspace e) => e.message
  | scan (.file e) => e.message
  | hashNotAscii => "a digest is not ASCII"
  | dispatch e => e.message

end IndexError

/-! ### The manifest -/

/-- What the manifest tells about an index. -/
structure Manifest where
  refreshed : Moment
  fileCount : Nat
  chunkCount : Nat
  rootHash : String
  deriving DecidableEq, Repr

def Manifest.toJson (m : Manifest) : Json :=
  .object
    [("schema_version", .int Store.currentSchema),
     ("last_refresh_timestamp", .text m.refreshed.text),
     ("indexed_file_count", .nat m.fileCount),
     ("indexed_chunk_count", .nat m.chunkCount),
     ("root_hash", .text m.rootHash)]

end SourceIndex
