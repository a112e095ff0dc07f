import SourceIndex.Proofs.Config.Range
/-!
# Layers of a configuration

Every field of a merged configuration has one place in the settings file. Its value is the one given
at the start, else the normal form of what stands at its place, else the standard one, and nothing
that stands at another place has a say in it.
-/

namespace SourceIndex

/-! ### Values of fields -/

inductive FieldValue
  | flag (b : Bool)
  | int (n : Int)
  | real (x : Number)
  | texts (items : List String)
  | languages (entries : Entries String)
  deriving DecidableEq, Repr

/-- What a field takes from the settings file. -/
inductive FieldKind
  | flag
  | int
  | real
  | texts
  | extensions
  | languages
  deriving DecidableEq, Repr

def Setting.text? : Setting → Option String
  | .text s => some s
  | _ => none

def Setting.textField? (field : String × Setting) : Option (String × String) :=
  field.2.text?.map fun s => (field.1, s)

/-- The languages of suffixes in their normal form: of the settings for one suffix the last one
stays. -/
def normalLanguages (given : List (String × String)) : Entries String :=
  Entries.ofList (given.filterMap fun (key, language) =>
    (normalExtension? key).map fun extension => (extension, Text.lower (Text.trim language)))

namespace FieldKind

/-- The value that a setting stands for, in its normal form; none if the setting is of another
kind. -/
def normal? : FieldKind → Setting → Option FieldValue
  | flag, .flag b => some (.flag b)
  | int, .number (.whole n) => some (.int n)
  | real, .number (.whole n) => (Binary64.ofInt? n).map fun x => .real (.real x)
  | real, .number (.real x) => some (.real (.real x))
  | texts, .list items => (items.mapM Setting.text?).map .texts
  | extensions, .list items =>
    (items.mapM Setting.text?).map fun found => .texts (normalizeExtensions found)
  | languages, .table fields =>
    (fields.mapM Setting.textField?).map fun found => .languages (normalLanguages found)
  | _, _ => none

/-- The value of a field after the settings file: what is given there, if it is more than none, else
the value before. -/
def after? (kind : FieldKind) (before : FieldValue) : Option Setting → Option FieldValue
  | none | some .nothing => some before
  | some given => kind.normal? given

end FieldKind

/-! ### Fields -/

inductive ScanField
  | extensions
  | ignorePatterns
  | ignoredDirectories
  | maxFileBytes
  | maxDepth
  | followLinks
  | maxLinkDepth
  | filterByValue
  | keepBinary
  | shortMarker
  deriving DecidableEq, Repr

namespace ScanField

def key : ScanField → String
  | extensions => "include_extensions"
  | ignorePatterns => "ignore_globs"
  | ignoredDirectories => "ignored_directories"
  | maxFileBytes => "max_file_bytes"
  | maxDepth => "max_depth"
  | followLinks => "follow_symlinks"
  | maxLinkDepth => "max_symlink_depth"
  | filterByValue => "value_filter_enabled"
  | keepBinary => "process_binary_files"
  | shortMarker => "binary_placeholder"

def kind : ScanField → FieldKind
  | extensions => .extensions
  | ignorePatterns | ignoredDirectories => .texts
  | maxFileBytes | maxDepth | maxLinkDepth => .int
  | followLinks | filterByValue | keepBinary | shortMarker => .flag

def value (settings : ScanSettings) : ScanField → FieldValue
  | extensions => .texts settings.extensions
  | ignorePatterns => .texts settings.ignorePatterns
  | ignoredDirectories => .texts settings.ignoredDirectories
  | maxFileBytes => .int settings.maxFileBytes
  | maxDepth => .int settings.maxDepth
  | followLinks => .flag settings.followLinks
  | maxLinkDepth => .int settings.maxLinkDepth
  | filterByValue => .flag settings.filterByValue
  | keepBinary => .flag settings.keepBinary
  | shortMarker => .flag settings.shortMarker

theorem key_injective : Function.Injective key := by
  intro first second same
  cases first <;> cases second <;> first | rfl | simp [key] at same

end ScanField

inductive ChunkField
  | maxChunkBytes
  | linesPerChunk
  | retryLines
  | languages
  | structural
  deriving DecidableEq, Repr

namespace ChunkField

def key : ChunkField → String
  | maxChunkBytes => "max_chunk_bytes"
  | linesPerChunk => "lines_per_chunk"
  | retryLines => "parse_retry_lines"
  | languages => "language_mapping"
  | structural => "structural_languages"

def kind : ChunkField → FieldKind
  | maxChunkBytes | linesPerChunk | retryLines => .int
  | languages => .languages
  | structural => .texts

def value (settings : ChunkSettings) : ChunkField → FieldValue
  | maxChunkBytes => .int settings.maxChunkBytes
  | linesPerChunk => .int settings.linesPerChunk
  | retryLines => .int settings.retryLines
  | languages => .languages settings.languages
  | structural => .texts settings.structural

theorem key_injective : Function.Injective key := by
  intro first second same
  cases first <;> cases second <;> first | rfl | simp [key] at same

end ChunkField

inductive DispatchField
  | concurrent
  | maxWorkers
  | batchSize
  | timeout
  | maxFailures
  | memoryThreshold
  | pause
  deriving DecidableEq, Repr

namespace DispatchField

def key : DispatchField → String
  | concurrent => "concurrent"
  | maxWorkers => "max_workers"
  | batchSize => "batch_size"
  | timeout => "task_timeout_seconds"
  | maxFailures => "max_worker_failures"
  | memoryThreshold => "memory_threshold"
  | pause => "batch_pause_seconds"

def kind : DispatchField → FieldKind
  | concurrent => .flag
  | maxWorkers | batchSize | maxFailures => .int
  | timeout | memoryThreshold | pause => .real

def value (settings : DispatchSettings) : DispatchField → FieldValue
  | concurrent => .flag settings.concurrent
  | maxWorkers => .int settings.maxWorkers
  | batchSize => .int settings.batchSize
  | timeout => .real settings.timeout
  | maxFailures => .int settings.maxFailures
  | memoryThreshold => .real settings.memoryThreshold
  | pause => .real settings.pause

theorem key_injective : Function.Injective key := by
  intro first second same
  cases first <;> cases second <;> first | rfl | simp [key] at same

end DispatchField

inductive Config.Field
  | scan (field : ScanField)
  | chunking (field : ChunkField)
  | dispatch (field : DispatchField)
  deriving DecidableEq, Repr

namespace Config.Field

def place : Field → String × String
  | scan field => ("scan", field.key)
  | chunking field => ("chunking", field.key)
  | dispatch field => ("dispatch", field.key)

def kind : Field → FieldKind
  | scan field => field.kind
  | chunking field => field.kind
  | dispatch field => field.kind

def value (config : Config) : Field → FieldValue
  | scan field => field.value config.scan
  | chunking field => field.value config.chunking
  | dispatch field => field.value config.dispatch

/-- What stands at the place of a field in the settings. -/
def given? (payload : Entries Setting) (field : Field) : Option Setting :=
  Config.given? field.place.1 field.place.2 payload

/-- The value of a field that is given at the start. -/
def override? (overrides : Overrides) : Field → Option FieldValue
  | scan .extensions => overrides.extensions.map fun given => .texts (normalizeExtensions given)
  | scan .maxFileBytes => overrides.maxFileBytes.map .int
  | dispatch .concurrent => overrides.concurrent.map .flag
  | dispatch .maxWorkers => overrides.maxWorkers.map .int
  | _ => none

/-- The value of a field by its layers, the last one first. -/
def layered? (base : Config) (payload : Entries Setting) (overrides : Overrides) (field : Field) :
    Option FieldValue :=
  match field.override? overrides with
  | some value => some value
  | none => field.kind.after? (field.value base) (field.given? payload)

end Config.Field

namespace Config

structure SameBut (field : Field) (a b : Config) : Prop where
  root : a.root = b.root
  dataDir : a.dataDir = b.dataDir
  others : ∀ other : Field, other ≠ field → other.value a = other.value b

/-! ### Reading -/

section Readers
variable {name scope key : String} {value : Option Setting}

theorem after?_of_flagOr {before b : Bool} (read : flagOr name before value = .ok b) :
    FieldKind.flag.after? (.flag before) value = some (.flag b) := by
  unfold flagOr at read
  split at read
  · exact Except.ok.inj read ▸ rfl
  · exact Except.ok.inj read ▸ rfl
  · exact Except.ok.inj read ▸ rfl
  · cases read

theorem eq_of_positiveInt {cap : Option Int} {n m : Int} (read : positiveInt name cap n = .ok m) :
    m = n := by
  unfold positiveInt at read
  split at read
  · cases read
  · cases cap with
    | none => exact (Except.ok.inj read).symm
    | some most =>
      simp only at read
      split at read
      · cases read
      · exact (Except.ok.inj read).symm

theorem after?_of_intOr {cap : Option Int} {before n : Int}
    (read : intOr name cap before value = .ok n) :
    FieldKind.int.after? (.int before) value = some (.int n) := by
  unfold intOr at read
  split at read
  · exact Except.ok.inj read ▸ rfl
  · exact Except.ok.inj read ▸ rfl
  · exact eq_of_positiveInt read ▸ rfl
  · cases read

theorem after?_of_realOr {e : ConfigError} {rejects : Number → Bool} {before x : Number}
    (read : realOr e rejects before value = .ok x) :
    FieldKind.real.after? (.real before) value = some (.real x) := by
  unfold realOr at read
  split at read
  · exact Except.ok.inj read ▸ rfl
  · exact Except.ok.inj read ▸ rfl
  · split at read
    · cases read
    · rcases exists_of_asReal read with ⟨a, y, rfl, rounded, rfl⟩ | ⟨y, rfl, rfl⟩
      · simp [FieldKind.after?, FieldKind.normal?, rounded]
      · rfl
  · cases read

theorem mapM_of_textItems {items : List Setting} {found : List String}
    (read : textItems name items = .ok found) : items.mapM Setting.text? = some found := by
  induction items generalizing found with
  | nil => exact Except.ok.inj read ▸ rfl
  | cons item items ih =>
    cases item with
    | text s =>
      cases rest : textItems name items with
      | error e =>
        rw [textItems, rest] at read
        cases read
      | ok others =>
        rw [textItems, rest] at read
        obtain rfl := Except.ok.inj read
        simp [List.mapM_cons, Setting.text?, ih rest]
    | _ => cases read

theorem exists_of_textList {given : Setting} {found : List String}
    (read : textList name given = .ok found) :
    ∃ items, given = .list items ∧ items.mapM Setting.text? = some found := by
  unfold textList at read
  split at read
  · exact ⟨_, rfl, mapM_of_textItems read⟩
  · cases read

theorem after?_of_textsField {fields : Entries Setting} {before found : List String}
    (read : textsField scope key fields before = .ok found) :
    FieldKind.texts.after? (.texts before) (Entries.get? key fields) = some (.texts found) := by
  unfold textsField at read
  split at read
  · rename_i absent
    rw [absent]
    exact Except.ok.inj read ▸ rfl
  · rename_i given there
    rw [there]
    obtain ⟨items, rfl, texts⟩ := exists_of_textList read
    simp [FieldKind.after?, FieldKind.normal?, texts]

theorem after?_of_extensionsOr {before found : List String}
    (read : extensionsOr before value = .ok found) :
    FieldKind.extensions.after? (.texts before) value = some (.texts found) := by
  unfold extensionsOr at read
  split at read
  · exact Except.ok.inj read ▸ rfl
  · rename_i given
    cases list : textList "scan.include_extensions" given with
    | error e =>
      rw [list] at read
      cases read
    | ok given' =>
      rw [list] at read
      obtain rfl := Except.ok.inj read
      obtain ⟨items, rfl, texts⟩ := exists_of_textList list
      simp [FieldKind.after?, FieldKind.normal?, texts]

theorem exists_of_languageItems {fields : Entries Setting} {before found : Entries String}
    (read : languageItems fields before = .ok found) :
    ∃ given, fields.mapM Setting.textField? = some given ∧
      found = (given.filterMap fun (key, language) =>
        (normalExtension? key).map fun extension =>
          (extension, Text.lower (Text.trim language))).foldl
        (fun entries setting => Entries.put setting.1 setting.2 entries) before := by
  induction fields generalizing before with
  | nil => exact ⟨[], rfl, (Except.ok.inj read).symm⟩
  | cons field fields ih =>
    obtain ⟨key, value⟩ := field
    cases value with
    | text language =>
      rw [languageItems] at read
      obtain ⟨given, texts, rfl⟩ := ih read
      refine ⟨(key, language) :: given, ?_, ?_⟩
      · simp [List.mapM_cons, Setting.textField?, Setting.text?, texts]
      · cases normal : normalExtension? key with
        | none => simp [normal]
        | some extension => simp [normal]
    | _ => cases read

theorem after?_of_languagesOr {before found : Entries String}
    (read : languagesOr before value = .ok found) :
    FieldKind.languages.after? (.languages before) value = some (.languages found) := by
  unfold languagesOr at read
  split at read
  · exact Except.ok.inj read ▸ rfl
  · obtain ⟨given, texts, rfl⟩ := exists_of_languageItems read
    simp [FieldKind.after?, FieldKind.normal?, texts, normalLanguages, Entries.ofList]
  · cases read

end Readers

/-! ### Sections -/

theorem after?_of_mergeScan {before scan : ScanSettings} {fields : Entries Setting}
    (merged : mergeScan before fields = .ok scan) (field : ScanField) :
    field.kind.after? (field.value before) (Entries.get? field.key fields) =
      some (field.value scan) := by
  simp only [mergeScan, bind_eq_ok_iff, pure, Except.pure, Except.ok.injEq] at merged
  obtain ⟨_, extensions, _, patterns, _, directories, _, bytes, _, depth, _, follow, _, links, _,
    valued, _, binary, _, marker, rfl⟩ := merged
  cases field with
  | extensions => exact after?_of_extensionsOr extensions
  | ignorePatterns => exact after?_of_textsField patterns
  | ignoredDirectories => exact after?_of_textsField directories
  | maxFileBytes => exact after?_of_intOr bytes
  | maxDepth => exact after?_of_intOr depth
  | followLinks => exact after?_of_flagOr follow
  | maxLinkDepth => exact after?_of_intOr links
  | filterByValue => exact after?_of_flagOr valued
  | keepBinary => exact after?_of_flagOr binary
  | shortMarker => exact after?_of_flagOr marker

theorem after?_of_mergeChunking {before chunking : ChunkSettings} {fields : Entries Setting}
    (merged : mergeChunking before fields = .ok chunking) (field : ChunkField) :
    field.kind.after? (field.value before) (Entries.get? field.key fields) =
      some (field.value chunking) := by
  simp only [mergeChunking, bind_eq_ok_iff, pure, Except.pure, Except.ok.injEq] at merged
  obtain ⟨_, languages, _, structural, _, bytes, _, lines, _, retry, rfl⟩ := merged
  cases field with
  | maxChunkBytes => exact after?_of_intOr bytes
  | linesPerChunk => exact after?_of_intOr lines
  | retryLines => exact after?_of_intOr retry
  | languages => exact after?_of_languagesOr languages
  | structural => exact after?_of_textsField structural

theorem after?_of_mergeDispatch {before dispatch : DispatchSettings} {fields : Entries Setting}
    (merged : mergeDispatch before fields = .ok dispatch) (field : DispatchField) :
    field.kind.after? (field.value before) (Entries.get? field.key fields) =
      some (field.value dispatch) := by
  simp only [mergeDispatch, bind_eq_ok_iff, pure, Except.pure, Except.ok.injEq] at merged
  obtain ⟨_, concurrent, _, workers, _, batch, _, timeout, _, failures, _, share, _, pause,
    rfl⟩ := merged
  cases field with
  | concurrent => exact after?_of_flagOr concurrent
  | maxWorkers => exact after?_of_intOr workers
  | batchSize => exact after?_of_intOr batch
  | timeout => exact after?_of_realOr timeout
  | maxFailures => exact after?_of_intOr failures
  | memoryThreshold => exact after?_of_realOr share
  | pause => exact after?_of_realOr pause

/-! ### What is given at the start -/

theorem eq_of_overrideInt {name : String} {cap : Option Int} {before n : Int} {given : Option Int}
    (read : overrideInt name cap before given = .ok n) : n = given.getD before := by
  cases given with
  | none => exact (Except.ok.inj read).symm
  | some m => exact eq_of_positiveInt read

theorem value_of_override {config merged : Config} {overrides : Overrides}
    (overridden : config.override overrides = .ok merged) :
    merged.root = config.root ∧ merged.dataDir = overrides.dataDir.getD config.dataDir ∧
      ∀ field : Field,
        field.value merged = (field.override? overrides).getD (field.value config) := by
  simp only [override, bind_eq_ok_iff, pure, Except.pure, Except.ok.injEq] at overridden
  obtain ⟨maxFileBytes, bytes, maxWorkers, workers, rfl⟩ := overridden
  rw [eq_of_overrideInt bytes, eq_of_overrideInt workers]
  refine ⟨rfl, rfl, fun field => ?_⟩
  cases field with
  | scan field =>
    cases field with
    | extensions =>
      simp only [Field.value, ScanField.value, Field.override?]
      cases overrides.extensions <;> rfl
    | maxFileBytes => exact (Option.getD_map ..).symm
    | _ => rfl
  | chunking field => rfl
  | dispatch field =>
    cases field with
    | concurrent => exact (Option.getD_map ..).symm
    | maxWorkers => exact (Option.getD_map ..).symm
    | _ => rfl

/-! ### All layers -/

variable {base config : Config} {payload : Entries Setting} {overrides : Overrides}

theorem after?_of_sections {scanFields chunkFields dispatchFields : Entries Setting}
    {scan : ScanSettings} {chunking : ChunkSettings} {dispatch : DispatchSettings}
    (scanThere : section? "scan" payload = .ok scanFields)
    (chunkThere : section? "chunking" payload = .ok chunkFields)
    (dispatchThere : section? "dispatch" payload = .ok dispatchFields)
    (scanned : mergeScan base.scan scanFields = .ok scan)
    (chunked : mergeChunking base.chunking chunkFields = .ok chunking)
    (dispatched : mergeDispatch base.dispatch dispatchFields = .ok dispatch) (field : Field) :
    field.kind.after? (field.value base) (field.given? payload) =
      some (field.value { base with scan, chunking, dispatch }) := by
  cases field with
  | scan field =>
    have there : (Field.scan field).given? payload = Entries.get? field.key scanFields :=
      given?_of_section? scanThere field.key
    rw [there]
    exact after?_of_mergeScan scanned field
  | chunking field =>
    have there : (Field.chunking field).given? payload = Entries.get? field.key chunkFields :=
      given?_of_section? chunkThere field.key
    rw [there]
    exact after?_of_mergeChunking chunked field
  | dispatch field =>
    have there : (Field.dispatch field).given? payload = Entries.get? field.key dispatchFields :=
      given?_of_section? dispatchThere field.key
    rw [there]
    exact after?_of_mergeDispatch dispatched field

theorem layered?_of_merge (merged : base.merge payload overrides = .ok config) :
    config.root = base.root ∧ config.dataDir = overrides.dataDir.getD base.dataDir ∧
      ∀ field : Field, field.layered? base payload overrides = some (field.value config) := by
  simp only [merge, bind_eq_ok_iff] at merged
  obtain ⟨scanFields, scanThere, chunkFields, chunkThere, fields, there, scan, scanned, chunking,
    chunked, dispatch, dispatched, overridden⟩ := merged
  obtain ⟨root, dataDir, value⟩ := value_of_override overridden
  refine ⟨root, dataDir, fun field => ?_⟩
  have file := after?_of_sections scanThere chunkThere there scanned chunked dispatched field
  rw [value field, Field.layered?]
  cases field.override? overrides with
  | none => exact file
  | some given => rfl

theorem value_withDataDir (config : Config) (dataDir : Path) (field : Field) :
    field.value { config with dataDir } = field.value config := by
  cases field <;> rfl

theorem layered?_of_mergeAt {d : Disk} (merged : mergeAt d base payload overrides = .ok config) :
    config.root = base.root ∧
      d.resolve false (overrides.dataDir.getD base.dataDir) = .ok config.dataDir ∧
      ∀ field : Field, field.layered? base payload overrides = some (field.value config) := by
  obtain ⟨whole, dataDir, combined, resolved, rfl⟩ := exists_of_mergeAt merged
  obtain ⟨root, directory, layers⟩ := layered?_of_merge combined
  refine ⟨root, directory ▸ resolved, fun field => ?_⟩
  rw [value_withDataDir]
  exact layers field

/-! ### Fields make up the configuration -/

theorem scan_eq_of_value {a b : ScanSettings}
    (same : ∀ field : ScanField, field.value a = field.value b) : a = b := by
  cases a
  cases b
  rw [ScanSettings.mk.injEq]
  exact ⟨FieldValue.texts.inj (same .extensions), FieldValue.texts.inj (same .ignorePatterns),
    FieldValue.texts.inj (same .ignoredDirectories), FieldValue.int.inj (same .maxFileBytes),
    FieldValue.int.inj (same .maxDepth), FieldValue.flag.inj (same .followLinks),
    FieldValue.int.inj (same .maxLinkDepth), FieldValue.flag.inj (same .filterByValue),
    FieldValue.flag.inj (same .keepBinary), FieldValue.flag.inj (same .shortMarker)⟩

theorem chunking_eq_of_value {a b : ChunkSettings}
    (same : ∀ field : ChunkField, field.value a = field.value b) : a = b := by
  cases a
  cases b
  rw [ChunkSettings.mk.injEq]
  exact ⟨FieldValue.int.inj (same .maxChunkBytes), FieldValue.int.inj (same .linesPerChunk),
    FieldValue.int.inj (same .retryLines), FieldValue.languages.inj (same .languages),
    FieldValue.texts.inj (same .structural)⟩

theorem dispatch_eq_of_value {a b : DispatchSettings}
    (same : ∀ field : DispatchField, field.value a = field.value b) : a = b := by
  cases a
  cases b
  rw [DispatchSettings.mk.injEq]
  exact ⟨FieldValue.flag.inj (same .concurrent), FieldValue.int.inj (same .maxWorkers),
    FieldValue.int.inj (same .batchSize), FieldValue.real.inj (same .timeout),
    FieldValue.int.inj (same .maxFailures), FieldValue.real.inj (same .memoryThreshold),
    FieldValue.real.inj (same .pause)⟩

/-- A configuration is told by its two paths and its fields. -/
theorem eq_of_value {a b : Config} (root : a.root = b.root) (dataDir : a.dataDir = b.dataDir)
    (same : ∀ field : Field, field.value a = field.value b) : a = b := by
  cases a
  cases b
  rw [Config.mk.injEq]
  exact ⟨root, dataDir, scan_eq_of_value fun field => same (.scan field),
    chunking_eq_of_value fun field => same (.chunking field),
    dispatch_eq_of_value fun field => same (.dispatch field)⟩

theorem place_injective {first second : Field} (same : first.place = second.place) :
    first = second := by
  have names := (Prod.mk.inj same).1
  have keys := (Prod.mk.inj same).2
  cases first <;> cases second
  case scan.scan => exact congrArg Field.scan (ScanField.key_injective keys)
  case chunking.chunking => exact congrArg Field.chunking (ChunkField.key_injective keys)
  case dispatch.dispatch => exact congrArg Field.dispatch (DispatchField.key_injective keys)
  all_goals simp at names

/-! ### One place -/

section OnePlace
variable {d : Disk} {other : Entries Setting} {other' : Config} {place : String × String}

/-- Fields take their values from their own places. -/
theorem value_eq_of_given? (merged : mergeAt d base payload overrides = .ok config)
    (changed : mergeAt d base other overrides = .ok other') {field : Field}
    (same : field.given? other = field.given? payload) :
    field.value other' = field.value config := by
  obtain ⟨-, -, before⟩ := layered?_of_mergeAt merged
  obtain ⟨-, -, after⟩ := layered?_of_mergeAt changed
  have layers : field.layered? base other overrides = field.layered? base payload overrides := by
    rw [Field.layered?, Field.layered?, same]
  rw [before field, after field] at layers
  exact Option.some.inj layers

theorem paths_eq_of_mergeAt (merged : mergeAt d base payload overrides = .ok config)
    (changed : mergeAt d base other overrides = .ok other') :
    other'.root = config.root ∧ other'.dataDir = config.dataDir := by
  obtain ⟨root, resolved, -⟩ := layered?_of_mergeAt merged
  obtain ⟨root', resolved', -⟩ := layered?_of_mergeAt changed
  exact ⟨root'.trans root.symm, Except.ok.inj (resolved'.symm.trans resolved)⟩

theorem sameBut_of_given? (merged : mergeAt d base payload overrides = .ok config)
    (changed : mergeAt d base other overrides = .ok other')
    (alike : ∀ elsewhere, elsewhere ≠ place →
      given? elsewhere.1 elsewhere.2 other = given? elsewhere.1 elsewhere.2 payload) :
    other' = config ∨ ∃ field : Field, field.place = place ∧ SameBut field other' config := by
  obtain ⟨root, dataDir⟩ := paths_eq_of_mergeAt merged changed
  by_cases known : ∃ field : Field, field.place = place
  · obtain ⟨field, rfl⟩ := known
    refine .inr ⟨field, rfl, root, dataDir, fun other differs => ?_⟩
    exact value_eq_of_given? merged changed
      (alike other.place fun same => differs (place_injective same))
  · refine .inl (eq_of_value root dataDir fun field => ?_)
    exact value_eq_of_given? merged changed (alike field.place fun same => known ⟨field, same⟩)

end OnePlace

/-- A merged configuration has each field from the last layer that gives it, and settings that
differ at one place give configurations that differ at most in the field of that place. -/
theorem mergeAt_layers {d : Disk} {root : Path} (standard : standardAt d root = .ok base)
    (merged : mergeAt d base payload overrides = .ok config) :
    (∃ place, d.resolve false root = .ok place ∧ base = Config.standard place ∧
        config.root = place) ∧
      d.resolve false (overrides.dataDir.getD base.dataDir) = .ok config.dataDir ∧
      (∀ field : Field, field.layered? base payload overrides = some (field.value config)) ∧
      ∀ other other' place, mergeAt d base other overrides = .ok other' →
        (∀ elsewhere, elsewhere ≠ place →
          given? elsewhere.1 elsewhere.2 other = given? elsewhere.1 elsewhere.2 payload) →
        other' = config ∨
          ∃ field : Field, field.place = place ∧ SameBut field other' config := by
  obtain ⟨place, resolved, rfl⟩ := exists_of_standardAt standard
  obtain ⟨kept, dataDir, layers⟩ := layered?_of_mergeAt merged
  refine ⟨⟨place, resolved, rfl, kept⟩, dataDir, layers, ?_⟩
  intro other other' place changed alike
  exact sameBut_of_given? merged changed alike

/-- Suffixes come from the file and the number of workers from the start, whatever depth the file
gives; another depth changes the depth alone. -/
theorem mergeAt_layers_depth : ∃ config other,
    mergeAt ⟨[], [], {}⟩ (Config.standard (Path.ofText "/ws"))
        [("scan", .table [("include_extensions", .texts ["PY"]), ("max_depth", .int 5)])]
        { maxWorkers := some 4 } = .ok config ∧
      mergeAt ⟨[], [], {}⟩ (Config.standard (Path.ofText "/ws"))
        [("scan", .table [("include_extensions", .texts ["PY"]), ("max_depth", .int 9)])]
        { maxWorkers := some 4 } = .ok other ∧
      Field.value config (.scan .extensions) = .texts [".py"] ∧
      Field.value config (.scan .maxDepth) = .int 5 ∧
      Field.value config (.scan .maxFileBytes) = .int 2097152 ∧
      Field.value config (.dispatch .maxWorkers) = .int 4 ∧
      SameBut (.scan .maxDepth) other config := by
  obtain ⟨config, merged⟩ : ∃ config,
      mergeAt ⟨[], [], {}⟩ (Config.standard (Path.ofText "/ws"))
        [("scan", .table [("include_extensions", .texts ["PY"]), ("max_depth", .int 5)])]
        { maxWorkers := some 4 } = .ok config :=
    ⟨_, rfl⟩
  obtain ⟨other, changed⟩ : ∃ config,
      mergeAt ⟨[], [], {}⟩ (Config.standard (Path.ofText "/ws"))
        [("scan", .table [("include_extensions", .texts ["PY"]), ("max_depth", .int 9)])]
        { maxWorkers := some 4 } = .ok config :=
    ⟨_, rfl⟩
  have standard : standardAt ⟨[], [], {}⟩ (Path.ofText "/ws") =
      .ok (Config.standard (Path.ofText "/ws")) := by decide +kernel
  obtain ⟨-, -, layers, onePlace⟩ := mergeAt_layers standard merged
  refine ⟨config, other, merged, changed, ?_, ?_, ?_, ?_, ?_⟩
  · exact Option.some.inj ((layers (.scan .extensions)).symm.trans (by decide +kernel))
  · exact Option.some.inj ((layers (.scan .maxDepth)).symm.trans (by decide +kernel))
  · exact Option.some.inj ((layers (.scan .maxFileBytes)).symm.trans (by decide +kernel))
  · exact Option.some.inj ((layers (.dispatch .maxWorkers)).symm.trans (by decide +kernel))
  · have alike : ∀ elsewhere : String × String, elsewhere ≠ ("scan", "max_depth") →
        given? elsewhere.1 elsewhere.2
            [("scan", .table [("include_extensions", .texts ["PY"]), ("max_depth", .int 9)])] =
          given? elsewhere.1 elsewhere.2
            [("scan", .table [("include_extensions", .texts ["PY"]), ("max_depth", .int 5)])] := by
      rintro ⟨name, key⟩ elsewhere
      by_cases inScan : name = "scan"
      · have away : "max_depth" ≠ key := fun same => elsewhere (by rw [inScan, same])
        simp [given?, Entries.get?, List.find?_cons, inScan, beq_false_of_ne away]
      · simp [given?, Entries.get?, Ne.symm inScan]
    rcases onePlace _ other _ changed alike with rfl | ⟨field, there, but⟩
    · exact ⟨rfl, rfl, fun _ _ => rfl⟩
    · obtain rfl : field = .scan .maxDepth := place_injective there
      exact but

end Config
end SourceIndex
