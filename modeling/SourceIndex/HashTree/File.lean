import SourceIndex.FileSystem.Document
import SourceIndex.HashTree.Codec
/-!
# Trees in files

A hash tree that was written to a file is read back.
-/

namespace SourceIndex

/-- Why there is no tree in a file. -/
inductive TreeFileError
  | document (e : DocumentError)
  | notAnObject (path : String)
  | decode (fault : Json.DecodeFault)
  deriving DecidableEq, Repr

def Ground.ofDecodeFault : Json.DecodeFault → Ground
  | .missing _ => missingField
  | .wrongKind => wrongKind
  | .badValue | .notAnObject _ => badValue
  | .infinite | .noFields => severe

namespace TreeFileError

def ground : TreeFileError → Ground
  | document e => .ofDocumentError e
  | notAnObject _ => .badValue
  | decode fault => .ofDecodeFault fault

def message : TreeFileError → String
  | document e => e.message
  | notAnObject path => "Merkle tree file " ++ path ++ " must contain a JSON object."
  | decode (.missing field) => Text.quoted field
  | decode fault => (HashTree.faultText? fault).getD "a value is not of the wanted kind"

end TreeFileError

def HashTree.load (d : Disk) (p : Path) : Except TreeFileError HashTree :=
  match d.readDocument p with
  | .error e => .error (.document e)
  | .ok (.object fields) => (HashTree.ofFields fields).mapError .decode
  | .ok _ => .error (.notAnObject p.text)

end SourceIndex
