import SourceIndex.FileSystem.Access
import SourceIndex.Json.Reader
/-!
# Documents in files

A document is read from a file that holds it as text in UTF-8.
-/

namespace SourceIndex

/-- Why there is no document in a file. -/
inductive DocumentError
  | file (e : FileError)
  | encoding (e : Text.DecodeError)
  | content (fault : Json.ReadFault)
  deriving DecidableEq, Repr

def Disk.readDocument (d : Disk) (p : Path) : Except DocumentError Json :=
  match d.readAll p with
  | .error e => .error (.file e)
  | .ok data =>
    match Text.Utf8.decode data with
    | .error e => .error (.encoding e)
    | .ok text => (Json.read text).mapError .content

/-- The grounds on which reading stored data fails, as far as they are treated differently. -/
inductive Ground
  /-- The file system refused an operation. -/
  | system
  | missingField
  | wrongKind
  /-- What is there does not hold what is wanted. -/
  | badValue
  /-- The data cannot be made sense of at all. -/
  | severe
  deriving DecidableEq, Repr

namespace Ground

def ofFileError : FileError → Ground
  | .system _ _ => system
  | .zeroInPath => badValue
  | .linkCircle | .tooDeep => severe

def ofReadFault : Json.ReadFault → Ground
  | .malformed | .integerTooLong => badValue
  | .tooDeep => severe

def ofDocumentError : DocumentError → Ground
  | .file e => ofFileError e
  | .encoding _ => badValue
  | .content fault => ofReadFault fault

end Ground

def DocumentError.message : DocumentError → String
  | .file e => e.message
  | .encoding e => e.message
  | .content .malformed => "not a document"
  | .content .integerTooLong => "an integer has too many digits"
  | .content .tooDeep => "values are nested too deeply"

end SourceIndex
