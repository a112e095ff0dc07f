import SourceIndex.Config.Basic
import SourceIndex.Config.Setting
/-!
# Merging settings

The configuration of a workspace is made in three layers: the standard values, the settings file,
and what was given at the start. A later layer wins, field by field, and every value is checked
against the range of its field.
-/

namespace SourceIndex

/-- Why settings cannot be merged: a value is not allowed, or an integer that stands for a
floating-point number is too large for one. -/
inductive MergeError
  | config (e : ConfigError)
  | integerTooLarge
  deriving DecidableEq, Repr

namespace Config

def maxFileBytesCap : Int := 64 * 1024 * 1024

/-! ### Reading single fields -/

def section? (key : String) (payload : Entries Setting) :
    Except MergeError (Entries Setting) :=
  match Entries.get? key payload with
  | none => .ok []
  | some (.table fields) => .ok fields
  | some _ => .error (.config (.sectionNoTable key))

def textItems (field : String) : List Setting → Except MergeError (List String)
  | [] => .ok []
  | .text s :: items => (textItems field items).map (s :: ·)
  | _ :: _ => .error (.config (.fieldItemsNoTexts field))

def textList (field : String) : Setting → Except MergeError (List String)
  | .list items => textItems field items
  | _ => .error (.config (.fieldNoTextList field))

def textsField (scope key : String) (fields : Entries Setting) (before : List String) :
    Except MergeError (List String) :=
  match Entries.get? key fields with
  | none => .ok before
  | some value => textList (scope ++ "." ++ key) value

def extensionsOr (before : List String) : Option Setting → Except MergeError (List String)
  | none => .ok before
  | some value => (textList "scan.include_extensions" value).map normalizeExtensions

def flagOr (field : String) (before : Bool) : Option Setting → Except MergeError Bool
  | none | some .nothing => .ok before
  | some (.flag b) => .ok b
  | some _ => .error (.config (.fieldNoFlag field))

def positiveInt (field : String) (cap : Option Int) (n : Int) : Except MergeError Int :=
  if n < 1 then .error (.config (.fieldNotPositiveInt field))
  else
    match cap with
    | some most => if most < n then .error (.config (.fieldAboveCap field most)) else .ok n
    | none => .ok n

def intOr (field : String) (cap : Option Int) (before : Int) :
    Option Setting → Except MergeError Int
  | none | some .nothing => .ok before
  | some (.number (.whole n)) => positiveInt field cap n
  | some _ => .error (.config (.fieldNotPositiveInt field))

def asReal : Number → Except MergeError Number
  | .whole n =>
    match Binary64.ofInt? n with
    | some x => .ok (.real x)
    | none => .error .integerTooLarge
  | .real x => .ok (.real x)

def realOr (e : ConfigError) (rejects : Number → Bool) (before : Number) :
    Option Setting → Except MergeError Number
  | none | some .nothing => .ok before
  | some (.number n) => if rejects n then .error (.config e) else asReal n
  | some _ => .error (.config e)

def notPositive (n : Number) : Bool := n.le (.whole 0)

def negative (n : Number) : Bool := n.lt (.whole 0)

/-- Whether a number is no share: not above zero, or above one. -/
def noRatio (n : Number) : Bool := !((Number.whole 0).lt n && n.le (.whole 1))

/-- The languages of suffixes in a table. Suffixes are normalized, and the last language of one
wins. -/
def languageItems : Entries Setting → Entries String → Except MergeError (Entries String)
  | [], found => .ok found
  | (key, .text language) :: fields, found =>
    languageItems fields
      (match normalExtension? key with
        | some extension => Entries.put extension (Text.lower (Text.trim language)) found
        | none => found)
  | _ :: _, _ => .error (.config .languagesNoTexts)

def languagesOr (before : Entries String) : Option Setting → Except MergeError (Entries String)
  | none => .ok before
  | some (.table fields) => languageItems fields []
  | some _ => .error (.config .languagesNoTable)

/-! ### Reading sections -/

def mergeScan (before : ScanSettings) (fields : Entries Setting) :
    Except MergeError ScanSettings := do
  let extensions ← extensionsOr before.extensions (Entries.get? "include_extensions" fields)
  let ignorePatterns ← textsField "scan" "ignore_globs" fields before.ignorePatterns
  let ignoredDirectories ←
    textsField "scan" "ignored_directories" fields before.ignoredDirectories
  let value key := Entries.get? key fields
  let maxFileBytes ←
    intOr "scan.max_file_bytes" (some maxFileBytesCap) before.maxFileBytes (value "max_file_bytes")
  let maxDepth ← intOr "scan.max_depth" none before.maxDepth (value "max_depth")
  let followLinks ← flagOr "scan.follow_symlinks" before.followLinks (value "follow_symlinks")
  let maxLinkDepth ←
    intOr "scan.max_symlink_depth" none before.maxLinkDepth (value "max_symlink_depth")
  let filterByValue ←
    flagOr "scan.value_filter_enabled" before.filterByValue (value "value_filter_enabled")
  let keepBinary ←
    flagOr "scan.process_binary_files" before.keepBinary (value "process_binary_files")
  let shortMarker ← flagOr "scan.binary_placeholder" before.shortMarker (value "binary_placeholder")
  return { extensions, ignorePatterns, ignoredDirectories, maxFileBytes, maxDepth, followLinks,
           maxLinkDepth, filterByValue, keepBinary, shortMarker }

def mergeChunking (before : ChunkSettings) (fields : Entries Setting) :
    Except MergeError ChunkSettings := do
  let value key := Entries.get? key fields
  let languages ← languagesOr before.languages (value "language_mapping")
  let structural ← textsField "chunking" "structural_languages" fields before.structural
  let maxChunkBytes ←
    intOr "chunking.max_chunk_bytes" none before.maxChunkBytes (value "max_chunk_bytes")
  let linesPerChunk ←
    intOr "chunking.lines_per_chunk" none before.linesPerChunk (value "lines_per_chunk")
  let retryLines ←
    intOr "chunking.parse_retry_lines" none before.retryLines (value "parse_retry_lines")
  return { maxChunkBytes, linesPerChunk, retryLines, languages, structural }

def mergeDispatch (before : DispatchSettings) (fields : Entries Setting) :
    Except MergeError DispatchSettings := do
  let value key := Entries.get? key fields
  let concurrent ← flagOr "dispatch.concurrent" before.concurrent (value "concurrent")
  let maxWorkers ← intOr "dispatch.max_workers" none before.maxWorkers (value "max_workers")
  let batchSize ← intOr "dispatch.batch_size" none before.batchSize (value "batch_size")
  let timeout ←
    realOr (.fieldNotPositive "dispatch.task_timeout_seconds") notPositive before.timeout
      (value "task_timeout_seconds")
  let maxFailures ←
    intOr "dispatch.max_worker_failures" none before.maxFailures (value "max_worker_failures")
  let memoryThreshold ←
    realOr (.fieldNoRatio "dispatch.memory_threshold") noRatio before.memoryThreshold
      (value "memory_threshold")
  let pause ←
    realOr (.fieldNegative "dispatch.batch_pause_seconds") negative before.pause
      (value "batch_pause_seconds")
  return { concurrent, maxWorkers, batchSize, timeout, maxFailures, memoryThreshold, pause }

/-! ### Layers -/

def overrideInt (field : String) (cap : Option Int) (before : Int) :
    Option Int → Except MergeError Int
  | none => .ok before
  | some n => positiveInt field cap n

/-- A configuration after what was given at the start; the data directory is not resolved yet. -/
def override (config : Config) (overrides : Overrides) : Except MergeError Config := do
  let extensions := match overrides.extensions with
    | some extensions => normalizeExtensions extensions
    | none => config.scan.extensions
  let maxFileBytes ←
    overrideInt "overrides.max_file_bytes" (some maxFileBytesCap) config.scan.maxFileBytes
      overrides.maxFileBytes
  let maxWorkers ←
    overrideInt "overrides.max_workers" none config.dispatch.maxWorkers overrides.maxWorkers
  return {
    root := config.root
    dataDir := overrides.dataDir.getD config.dataDir
    scan := { config.scan with extensions, maxFileBytes }
    chunking := config.chunking
    dispatch := { config.dispatch with
      concurrent := overrides.concurrent.getD config.dispatch.concurrent
      maxWorkers } }

/-- A configuration after the settings of the file and what was given at the start; the data
directory is not resolved yet. -/
def merge (base : Config) (payload : Entries Setting) (overrides : Overrides) :
    Except MergeError Config := do
  let scanFields ← section? "scan" payload
  let chunkFields ← section? "chunking" payload
  let dispatchFields ← section? "dispatch" payload
  let scan ← mergeScan base.scan scanFields
  let chunking ← mergeChunking base.chunking chunkFields
  let dispatch ← mergeDispatch base.dispatch dispatchFields
  override { base with scan, chunking, dispatch } overrides

/-! ### The public form -/

def snapshot (c : Config) : Entries Setting :=
  [("workspace_root", .text c.root.text),
   ("data_dir", .text c.dataDir.text),
   ("scan", .table
     [("include_extensions", .texts c.scan.extensions),
      ("ignore_globs", .texts c.scan.ignorePatterns),
      ("ignored_directories", .texts c.scan.ignoredDirectories),
      ("max_file_bytes", .int c.scan.maxFileBytes),
      ("max_depth", .int c.scan.maxDepth),
      ("follow_symlinks", .flag c.scan.followLinks),
      ("max_symlink_depth", .int c.scan.maxLinkDepth),
      ("value_filter_enabled", .flag c.scan.filterByValue),
      ("process_binary_files", .flag c.scan.keepBinary),
      ("binary_placeholder", .flag c.scan.shortMarker)]),
   ("chunking", .table
     [("max_chunk_bytes", .int c.chunking.maxChunkBytes),
      ("lines_per_chunk", .int c.chunking.linesPerChunk),
      ("parse_retry_lines", .int c.chunking.retryLines),
      ("language_mapping", .table
        ((Entries.sort c.chunking.languages).map fun (key, language) => (key, .text language))),
      ("structural_languages", .texts c.chunking.structural)]),
   ("dispatch", .table
     [("concurrent", .flag c.dispatch.concurrent),
      ("max_workers", .int c.dispatch.maxWorkers),
      ("batch_size", .int c.dispatch.batchSize),
      ("task_timeout_seconds", .number c.dispatch.timeout),
      ("max_worker_failures", .int c.dispatch.maxFailures),
      ("memory_threshold", .number c.dispatch.memoryThreshold),
      ("batch_pause_seconds", .number c.dispatch.pause)])]

end Config
end SourceIndex
