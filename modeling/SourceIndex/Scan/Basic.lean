import SourceIndex.Config.Basic
import SourceIndex.FileSystem.Resolve
import SourceIndex.HashTree.Basic
import SourceIndex.Log
/-!
# Scans

What a scan of a workspace gives: the files that are wanted with what is recorded of them, the
files that failed, and counters.
-/

namespace SourceIndex

/-- A scanned file. Its content is not there if its digest was taken from an earlier scan. -/
structure ScannedFile where
  file : FileRecord
  content : Option String
  deriving DecidableEq, Repr

/-- A file that could not be scanned. -/
structure ScanError where
  path : String
  kind : ErrorKind
  message : String
  deriving DecidableEq, Repr

structure ScanCounts where
  scanned : Nat := 0
  processed : Nat := 0
  skippedFiles : Nat := 0
  failed : Nat := 0
  skippedDirectories : Nat := 0
  skippedLinks : Nat := 0
  deriving DecidableEq, Repr

structure ScanResult where
  root : String
  /-- The files in the order of their paths. -/
  files : List ScannedFile
  errors : List ScanError
  counts : ScanCounts
  deriving DecidableEq, Repr

def ScanResult.records (r : ScanResult) : List FileRecord := r.files.map (·.file)

/-! ### The root -/

/-- Why a directory cannot be scanned at all. -/
inductive WorkspaceError
  | emptyPath
  | denied (root : String)
  | absent (root : String)
  | notDirectory (root : String)
  | unreadable (root : String)
  deriving DecidableEq, Repr

namespace WorkspaceError

def message : WorkspaceError → String
  | emptyPath => "Workspace path is empty."
  | denied root => "Permission denied to access workspace: " ++ root
  | absent root => "Workspace path does not exist: " ++ root
  | notDirectory root => "Path is not a directory: " ++ root
  | unreadable root => "No read permission for workspace: " ++ root

def hint : WorkspaceError → String
  | emptyPath => "Provide the directory to index."
  | denied _ | unreadable _ => "Check directory permissions."
  | absent _ => "Provide an existing directory."
  | notDirectory _ => "Provide a directory, not a file."

end WorkspaceError

/-- Why a scan has no result: it did not start, or it broke off. -/
inductive ScanFailure
  | config (e : ConfigError)
  | workspace (e : WorkspaceError)
  | file (e : FileError)
  deriving DecidableEq, Repr

def ScanFailure.atRoot (root : String) (e : FileError) : ScanFailure :=
  match e with
  | .system code _ =>
    if ErrorKind.ofCode code = .permissionDenied then .workspace (.denied root) else .file e
  | _ => .file e

/-- The real path of a workspace root, which has to be a directory that may be read. -/
def resolveRoot (d : Disk) (root : String) : Except ScanFailure Path :=
  if Text.isBlank root then .error (.workspace .emptyPath)
  else
    let p := Path.ofText root
    match d.hasDirectory p with
    | .error e => .error (.atRoot p.text e)
    | .ok isDirectory =>
      match d.hasAnything p with
      | .error e => .error (.atRoot p.text e)
      | .ok false => .error (.workspace (.absent p.text))
      | .ok true =>
        if !isDirectory then .error (.workspace (.notDirectory p.text))
        else if !d.mayRead p then .error (.workspace (.unreadable p.text))
        else (d.resolve false p).mapError .file

end SourceIndex
