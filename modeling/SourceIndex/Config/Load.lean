import SourceIndex.Config.Merge
import SourceIndex.FileSystem.Access
import SourceIndex.FileSystem.Resolve
import SourceIndex.Toml.Reader
/-!
# Loading a configuration

The configuration of a workspace is the standard one, changed by the settings file in the root of
the workspace and by what is given at the start. All its paths are real paths.
-/

namespace SourceIndex

inductive ConfigFailure
  | config (e : ConfigError)
  | file (e : FileError)
  | encoding (e : Text.DecodeError)
  /-- The settings file holds an integer of too many digits. -/
  | integerTooLong
  /-- An integer is too large for the floating-point number that it stands for. -/
  | integerTooLarge
  /-- The values of the settings file are nested too deeply. -/
  | tooDeep
  deriving DecidableEq, Repr

def ConfigFailure.ofMergeError : MergeError → ConfigFailure
  | .config e => config e
  | .integerTooLarge => integerTooLarge

def ConfigFailure.message : ConfigFailure → String
  | config e => e.message
  | file e => e.message
  | encoding e => e.message
  | integerTooLong => "an integer has too many digits"
  | integerTooLarge => "an integer is too large for a floating-point number"
  | tooDeep => "values are nested too deeply"

namespace Config

def settingsOfText (text : String) : Except ConfigFailure (Entries Setting) :=
  match Toml.read text with
  | .ok settings => .ok settings
  | .error .malformed => .error (.config .fileInvalid)
  | .error .integerTooLong => .error .integerTooLong
  | .error .tooDeep => .error .tooDeep

/-- The settings in the settings file of a workspace; none if there is no file. -/
def readSettings (d : Disk) (root : Path) : Except ConfigFailure (Entries Setting) :=
  let path := root.child fileName
  match d.hasAnything path with
  | .error e => .error (.file e)
  | .ok false => .ok []
  | .ok true =>
    match d.readAll path with
    | .error e => .error (.file e)
    | .ok data =>
      match Text.Utf8.decode data with
      | .error e => .error (.encoding e)
      | .ok text => settingsOfText text

def standardAt (d : Disk) (root : Path) : Except ConfigFailure Config :=
  ((d.resolve false root).map Config.standard).mapError .file

/-- A configuration with settings merged into it and the data directory at its real path. -/
def mergeAt (d : Disk) (base : Config) (settings : Entries Setting) (overrides : Overrides) :
    Except ConfigFailure Config :=
  match base.merge settings overrides with
  | .error e => .error (.ofMergeError e)
  | .ok config =>
    match d.resolve false config.dataDir with
    | .error e => .error (.file e)
    | .ok dataDir => .ok { config with dataDir }

def load (d : Disk) (root : Path) (overrides : Overrides) : Except ConfigFailure Config := do
  let root ← (d.resolve false root).mapError .file
  let base ← standardAt d root
  let settings ← readSettings d root
  mergeAt d base settings overrides

end Config
end SourceIndex
