import SourceIndex.CommandLine.Arguments
import SourceIndex.Store.Refresh
/-!
# The command

The command refreshes the index of a workspace, tells the status of the index, or compares two
stored trees. What it has to say goes to its output as a document; what goes wrong becomes a message
and an exit code, unless it is so grave that the command breaks off.
-/

namespace SourceIndex.CommandLine

/-- The exit codes. -/
def success : Nat := 0

def failure : Nat := 1

def usageError : Nat := 2

structure Response where
  exit : Nat
  output : String
  deriving DecidableEq, Repr

/-- Why the command could not do its work. -/
inductive CommandError
  | dataDir (e : FileError)
  | config (e : ConfigFailure)
  | index (e : IndexError)
  | tree (e : TreeFileError)
  deriving DecidableEq, Repr

def CommandError.message : CommandError → String
  | dataDir e => e.message
  | config e => e.message
  | index e => e.message
  | tree e => e.message

def answer (document : Json) : Response := ⟨success, document.indented ++ "\n"⟩

variable {γ : Type}

/-! ### Comparing trees -/

def changesDocument (changes : List FileChange) : Json :=
  .object [("changes", .list (changes.map FileChange.toJson)), ("count", .nat changes.length)]

def diffFiles (d : Disk) (old new : String) : Except TreeFileError (List FileChange) :=
  match HashTree.load d (Path.ofText old) with
  | .error e => .error e
  | .ok before => (HashTree.load d (Path.ofText new)).map fun after => HashTree.diff before after

def isDiffFailure : Ground → Bool
  | .system | .missingField | .badValue => true
  | .wrongKind | .severe => false

def runDiff (old new : String) (w : World γ) : Except CommandError Response × World γ :=
  match diffFiles w.disk old new with
  | .ok changes => (.ok (answer (changesDocument changes)), w)
  | .error e =>
    if isDiffFailure e.ground then
      (.ok ⟨failure, ""⟩, w.note (.failure ("Cannot diff trees: " ++ e.message)))
    else (.error (.tree e), w)

/-! ### Failures -/

def configReport (e : ConfigError) : Nat × String :=
  (usageError, "Invalid configuration: " ++ e.message)

/-- The exit code and the message for an error of some ground; none if it is too grave. -/
def groundReport (ground : Ground) (message : String) : Option (Nat × String) :=
  match ground with
  | .severe => none
  | _ => some (failure, "Cannot refresh index: " ++ message)

def configFailureReport : ConfigFailure → Option (Nat × String)
  | .config e => some (configReport e)
  | .file e => groundReport (.ofFileError e) e.message
  | .encoding e => groundReport .badValue e.message
  | .integerTooLong => groundReport .badValue (ConfigFailure.message .integerTooLong)
  | .integerTooLarge | .tooDeep => none

def indexErrorReport : IndexError → Option (Nat × String)
  | .scan (.config e) => some (configReport e)
  | .scan (.workspace e) => some (usageError, e.message ++ " " ++ e.hint)
  | .schema found =>
    some (usageError,
      IndexError.schemaText found ++ " Run again with --force to rebuild the index.")
  | e => groundReport e.ground e.message

def fail (e : CommandError) (report : Option (Nat × String)) (w : World γ) :
    Except CommandError Response × World γ :=
  match report with
  | some (exit, message) => (.ok ⟨exit, ""⟩, w.note (.failure message))
  | none => (.error e, w)

/-! ### Indexing -/

def Arguments.overrides (a : Arguments) (dataDir : Option Path) : Overrides :=
  { dataDir
    extensions := if a.extensions.isEmpty then none else some a.extensions
    maxFileBytes := a.maxFileBytes
    concurrent := if a.concurrent then some true else none
    maxWorkers := a.maxWorkers }

def runStore (a : Arguments) (config : Config) (grammars : Grammars γ) (now : Moment)
    (w : World γ) : Except CommandError Response × World γ :=
  let store := Store.ofConfig config
  let engine := Engine.ofSettings config.chunking grammars
  let w := w.withEngine engine
  let (result, w) :=
    if a.status then ((store.status w.disk).map Store.Status.toJson, w)
    else
      let (summary, w) := store.refresh engine config a.force now w
      (summary.map Summary.toJson, w)
  match result with
  | .ok document => (.ok (answer document), w)
  | .error e => fail (.index e) (indexErrorReport e) w

def runIndex (a : Arguments) (grammars : Grammars γ) (now : Moment) (w : World γ) :
    Except CommandError Response × World γ :=
  match a.dataDir.mapM fun text => w.disk.resolve false (Path.ofText text) with
  | .error e => (.error (.dataDir e), w)
  | .ok dataDir =>
    match Config.load w.disk (Path.ofText a.root) (a.overrides dataDir) with
    | .error e => fail (.config e) (configFailureReport e) w
    | .ok config => runStore a config grammars now w

def run (a : Arguments) (grammars : Grammars γ) (now : Moment) (w : World γ) :
    Except CommandError Response × World γ :=
  match a.diff with
  | some (old, new) => runDiff old new w
  | none => runIndex a grammars now w

end SourceIndex.CommandLine
