import SourceIndex.Chunk.Window
import SourceIndex.Entries
import SourceIndex.Number.Basic
import SourceIndex.Path.Basic
import SourceIndex.Text.Blank
/-!
# Configuration

All settings of one workspace: what is scanned, how files are chunked, and how the chunking is
spread over workers.
-/

namespace SourceIndex

/-! ### Scanning -/

structure ScanSettings where
  /-- The suffixes of the files that are wanted. -/
  extensions : List String := []
  /-- Patterns of paths that are left out. -/
  ignorePatterns : List String := ["**/.git/**", "**/__pycache__/**", "**/.venv/**"]
  /-- Names of directories that are left out. -/
  ignoredDirectories : List String :=
    [".git", ".hg", ".svn", "node_modules", "bower_components", "__pycache__", ".pytest_cache",
     ".tox", ".venv", "venv", ".idea", ".vscode", ".repo_chunker"]
  maxFileBytes : Int := 2 * 1024 * 1024
  /-- How many directories may lie above a file. -/
  maxDepth : Int := 100
  followLinks : Bool := true
  /-- How many links may lie on the way to a file. -/
  maxLinkDepth : Int := 10
  /-- Whether files without value are left out. -/
  filterByValue : Bool := true
  /-- Whether binary files are listed. -/
  keepBinary : Bool := true
  /-- Whether a binary file is chunked as a short marker instead of one with all its bytes. -/
  shortMarker : Bool := true
  deriving DecidableEq, Repr

/-! ### Chunking -/

def defaultLanguages : Entries String :=
  [(".py", "python"), (".pyi", "python"),
   (".js", "javascript"), (".jsx", "javascript"), (".mjs", "javascript"), (".cjs", "javascript"),
   (".ts", "typescript"), (".tsx", "typescript"),
   (".java", "java"), (".go", "go"), (".rs", "rust"),
   (".c", "c"), (".h", "c"),
   (".cpp", "cpp"), (".cc", "cpp"), (".cxx", "cpp"), (".hpp", "cpp"),
   (".cs", "csharp"), (".rb", "ruby"), (".php", "php"), (".kt", "kotlin"), (".swift", "swift"),
   (".sh", "shell"), (".sql", "sql")]

structure ChunkSettings where
  maxChunkBytes : Int := Chunk.defaultMaxChunkBytes
  linesPerChunk : Int := Chunk.defaultLinesPerChunk
  /-- How many lines are parsed when the whole of a file cannot be. -/
  retryLines : Int := 100
  /-- The languages of suffixes. -/
  languages : Entries String := defaultLanguages
  /-- The names of the languages that are chunked by their syntax. -/
  structural : List String := ["python", "javascript", "typescript"]
  deriving DecidableEq, Repr

def ChunkSettings.languageFor (settings : ChunkSettings) (path : String) : String :=
  (Entries.get? (Path.lowerSuffix path) settings.languages).getD "unknown"

/-! ### Dispatching -/

structure DispatchSettings where
  concurrent : Bool := false
  maxWorkers : Int := 1
  batchSize : Int := 100
  /-- How many seconds a worker may take. -/
  timeout : Number := .real (.ofDecimal false 30 0)
  /-- How many failures of workers are borne. -/
  maxFailures : Int := 10
  /-- The share of memory above which workers are given up. -/
  memoryThreshold : Number := .real (.ofDecimal false 7 (-1))
  /-- How many seconds pass between batches. -/
  pause : Number := .real .zero
  deriving DecidableEq, Repr

/-! ### All settings -/

structure Config where
  root : Path
  /-- Where the index is kept. -/
  dataDir : Path
  scan : ScanSettings := {}
  chunking : ChunkSettings := {}
  dispatch : DispatchSettings := {}
  deriving DecidableEq, Repr

/-- Settings given at the start, which win over all others. -/
structure Overrides where
  dataDir : Option Path := none
  extensions : Option (List String) := none
  maxFileBytes : Option Int := none
  concurrent : Option Bool := none
  maxWorkers : Option Int := none
  deriving DecidableEq, Repr

def Config.standard (root : Path) : Config := { root, dataDir := root.child ".repo_chunker" }

/-! ### Suffixes -/

/-- A suffix in lower case with a leading dot; nothing if it is blank. -/
def normalExtension? (extension : String) : Option String :=
  let value := Text.lower (Text.trim extension)
  if value = "" then none
  else if value.toList.head? = some '.' then some value
  else some ("." ++ value)

def normalizeExtensions (extensions : List String) : List String :=
  (extensions.filterMap normalExtension?).eraseDups

inductive ConfigError
  | sectionNoTable (key : String)
  | fieldNoTextList (field : String)
  | fieldItemsNoTexts (field : String)
  | languagesNoTable
  | languagesNoTexts
  | fieldNoFlag (field : String)
  | fieldNotPositiveInt (field : String)
  | fieldAboveCap (field : String) (cap : Int)
  | fieldNotPositive (field : String)
  | fieldNegative (field : String)
  | fieldNoRatio (field : String)
  | extensionsMissing
  | fileInvalid
  deriving DecidableEq, Repr

def Config.fileName : String := "repo_chunker.toml"

def ConfigError.message : ConfigError → String
  | sectionNoTable key => "Config section '" ++ key ++ "' must be a table."
  | fieldNoTextList field => "Config field '" ++ field ++ "' must be a list of strings."
  | fieldItemsNoTexts field => "Config field '" ++ field ++ "' must contain only strings."
  | languagesNoTable => "Config field 'chunking.language_mapping' must be a table."
  | languagesNoTexts =>
    "Config field 'chunking.language_mapping' must map extensions to strings."
  | fieldNoFlag field => "Config field '" ++ field ++ "' must be a boolean."
  | fieldNotPositiveInt field => "Config field '" ++ field ++ "' must be a positive integer."
  | fieldAboveCap field cap => "Config field '" ++ field ++ "' must be <= " ++ toString cap ++ "."
  | fieldNotPositive field => "Config field '" ++ field ++ "' must be a positive number."
  | fieldNegative field => "Config field '" ++ field ++ "' must be a non-negative number."
  | fieldNoRatio field => "Config field '" ++ field ++ "' must be a number in (0, 1]."
  | extensionsMissing =>
    "Config field 'scan.include_extensions' is missing or empty; " ++
      "an explicit extension allow-list is required."
  | fileInvalid => Config.fileName ++ " is not valid TOML"

def ScanSettings.requiredExtensions (scan : ScanSettings) : Except ConfigError (List String) :=
  match normalizeExtensions scan.extensions with
  | [] => .error .extensionsMissing
  | found => .ok found

end SourceIndex
