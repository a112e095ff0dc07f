import SourceIndex.Proofs.Config.Layers
import SourceIndex.Proofs.Entries
import SourceIndex.Proofs.Text.Blank
/-!
# Snapshots of a configuration

What merging gives is in normal form: every value passes the test of its field, and reading gives it
back as it is. So the public form of a merged configuration, taken as settings over the standard
one, gives the configuration again.
-/

namespace SourceIndex

/-! ### Suffixes -/

theorem isTrimmed_dotted {s : String} (trimmed : Text.IsTrimmed s.toList) (filled : s ≠ "") :
    Text.IsTrimmed ("." ++ s).toList := by
  have chars : ("." ++ s).toList = '.' :: s.toList := by simp
  have some : s.toList ≠ [] := fun empty => filled (String.toList_inj.mp empty)
  rw [chars]
  refine ⟨fun c head => ?_, fun c last => ?_⟩
  · rw [← Option.some.inj head]
    decide +kernel
  · rw [List.getLast?_cons_of_ne_nil some] at last
    exact trimmed.last c last

theorem normalExtension?_normal {given extension : String}
    (normal : normalExtension? given = some extension) :
    normalExtension? extension = some extension := by
  have is := isExtension_of_normalExtension? normal
  have trimmed : Text.trim extension = extension := by
    unfold normalExtension? at normal
    simp only at normal
    split at normal
    · cases normal
    · rename_i filled
      split at normal
      · rw [← Option.some.inj normal]
        exact Text.trim_of_isTrimmed (Text.isTrimmed_lower_trim given)
      · rw [← Option.some.inj normal]
        exact Text.trim_of_isTrimmed (isTrimmed_dotted (Text.isTrimmed_lower_trim given) filled)
  unfold normalExtension?
  simp only [trimmed, is.low]
  rw [if_neg is.nonempty, if_pos is.dotted]

theorem normalizeExtensions_eq_self {extensions : List String} (distinct : extensions.Nodup)
    (normal : ∀ e ∈ extensions, normalExtension? e = some e) :
    normalizeExtensions extensions = extensions := by
  rw [normalizeExtensions, List.filterMap_congr normal, List.filterMap_some,
    eraseDups_of_nodup distinct]

/-! ### Languages -/

/-- The languages of suffixes in their normal form. -/
structure AreLanguages (entries : Entries String) : Prop where
  distinct : (Entries.keys entries).Nodup
  suffix : ∀ entry ∈ entries, normalExtension? entry.1 = some entry.1
  language : ∀ entry ∈ entries, Text.lower (Text.trim entry.2) = entry.2

theorem areLanguages_default : AreLanguages defaultLanguages where
  distinct := by decide +kernel
  suffix := by decide +kernel
  language := by decide +kernel

theorem areLanguages_normalLanguages (given : List (String × String)) :
    AreLanguages (normalLanguages given) := by
  have source (entry : String × String) (member : entry ∈ normalLanguages given) :
      ∃ suffix language, normalExtension? suffix = some entry.1 ∧
        Text.lower (Text.trim language) = entry.2 := by
    obtain ⟨⟨suffix, language⟩, -, normal⟩ :=
      List.mem_filterMap.mp (Entries.mem_of_mem_ofList member)
    obtain ⟨extension, found, rfl⟩ := Option.map_eq_some_iff.mp normal
    exact ⟨suffix, language, found, rfl⟩
  refine ⟨Entries.nodup_keys_ofList _, fun entry member => ?_, fun entry member => ?_⟩
  · obtain ⟨suffix, -, normal, -⟩ := source entry member
    exact normalExtension?_normal normal
  · obtain ⟨-, language, -, normal⟩ := source entry member
    rw [← normal, Text.lower_trim_lower_trim]

theorem AreLanguages.sort {entries : Entries String} (are : AreLanguages entries) :
    AreLanguages (Entries.sort entries) where
  distinct := Entries.nodup_keys_sort are.distinct
  suffix entry member := are.suffix entry ((Entries.sort_perm entries).mem_iff.mp member)
  language entry member := are.language entry ((Entries.sort_perm entries).mem_iff.mp member)

/-! ### Settings of values -/

def FieldValue.setting : FieldValue → Setting
  | .flag b => .flag b
  | .int n => .int n
  | .real x => .number x
  | .texts items => .texts items
  | .languages entries => .table (Entries.mapValues .text (Entries.sort entries))

namespace Config

/-! ### Values in normal form -/

/-- Whether a value is the normal form of what its kind of field takes. -/
def IsNormal : FieldKind → FieldValue → Prop
  | .extensions, .texts items => items.Nodup ∧ ∀ e ∈ items, normalExtension? e = some e
  | .languages, .languages entries => AreLanguages entries
  | .real, .real x => ∃ y, x = .real y
  | _, _ => True

theorem isNormal_extensions (given : List String) :
    IsNormal .extensions (.texts (normalizeExtensions given)) := by
  refine ⟨isExtension_of_mem_normalizeExtensions.1, fun e member => ?_⟩
  rw [normalizeExtensions, List.mem_eraseDups] at member
  obtain ⟨source, -, normal⟩ := List.mem_filterMap.mp member
  exact normalExtension?_normal normal

theorem isNormal_of_normal? {kind : FieldKind} {given : Setting} {value : FieldValue}
    (read : kind.normal? given = some value) : IsNormal kind value := by
  unfold FieldKind.normal? at read
  split at read
  · exact Option.some.inj read ▸ trivial
  · exact Option.some.inj read ▸ trivial
  · obtain ⟨x, -, rfl⟩ := Option.map_eq_some_iff.mp read
    exact ⟨x, rfl⟩
  · exact Option.some.inj read ▸ ⟨_, rfl⟩
  · obtain ⟨items, -, rfl⟩ := Option.map_eq_some_iff.mp read
    trivial
  · obtain ⟨items, -, rfl⟩ := Option.map_eq_some_iff.mp read
    exact isNormal_extensions items
  · obtain ⟨fields, -, rfl⟩ := Option.map_eq_some_iff.mp read
    exact areLanguages_normalLanguages fields
  · cases read

theorem isNormal_standard (root : Path) (field : Field) :
    IsNormal field.kind (field.value (standard root)) := by
  cases field with
  | scan field =>
    cases field with
    | extensions => exact ⟨List.nodup_nil, fun _ member => by cases member⟩
    | _ => trivial
  | chunking field =>
    cases field with
    | languages => exact areLanguages_default
    | _ => trivial
  | dispatch field =>
    cases field with
    | timeout => exact ⟨_, rfl⟩
    | memoryThreshold => exact ⟨_, rfl⟩
    | pause => exact ⟨_, rfl⟩
    | _ => trivial

theorem isNormal_of_override? {overrides : Overrides} {field : Field} {value : FieldValue}
    (given : field.override? overrides = some value) : IsNormal field.kind value := by
  unfold Field.override? at given
  split at given
  · obtain ⟨items, -, rfl⟩ := Option.map_eq_some_iff.mp given
    exact isNormal_extensions items
  · trivial
  · trivial
  · trivial
  · cases given

theorem isNormal_of_mergeAt {d : Disk} {root : Path} {config : Config} {payload : Entries Setting}
    {overrides : Overrides} (merged : mergeAt d (standard root) payload overrides = .ok config)
    (field : Field) : IsNormal field.kind (field.value config) := by
  obtain ⟨-, -, layers⟩ := layered?_of_mergeAt merged
  have layer := layers field
  unfold Field.layered? at layer
  split at layer
  · rename_i given
    exact Option.some.inj layer ▸ isNormal_of_override? given
  · unfold FieldKind.after? at layer
    split at layer
    · exact Option.some.inj layer ▸ isNormal_standard root field
    · exact Option.some.inj layer ▸ isNormal_standard root field
    · exact isNormal_of_normal? layer

/-! ### Reading back -/

/-- A snapshot has the value of every field at its place. -/
theorem given?_snapshot (config : Config) (field : Field) :
    field.given? config.snapshot = some (field.value config).setting := by
  cases field with
  | scan field => cases field <;> rfl
  | chunking field => cases field <;> rfl
  | dispatch field => cases field <;> rfl

section Readers
variable {name scope key : String} {value : Option Setting}

theorem textItems_map_text (name : String) (items : List String) :
    textItems name (items.map .text) = .ok items := by
  induction items with
  | nil => rfl
  | cons item items ih =>
    rw [List.map_cons, textItems, ih]
    rfl

theorem textsField_texts {fields : Entries Setting} {items : List String}
    (given : Entries.get? key fields = some (.texts items)) (before : List String) :
    textsField scope key fields before = .ok items := by
  rw [textsField, given]
  exact textItems_map_text _ items

theorem extensionsOr_texts {extensions : List String} (given : value = some (.texts extensions))
    (distinct : extensions.Nodup) (normal : ∀ e ∈ extensions, normalExtension? e = some e)
    (before : List String) : extensionsOr before value = .ok extensions := by
  have items : textList "scan.include_extensions" (.texts extensions) = .ok extensions :=
    textItems_map_text _ extensions
  rw [given, extensionsOr, items, Except.map, normalizeExtensions_eq_self distinct normal]

theorem flagOr_flag {b : Bool} (given : value = some (.flag b)) (before : Bool) :
    flagOr name before value = .ok b := by
  rw [given, flagOr]

theorem positiveInt_of_inCap {cap : Option Int} {n : Int} (inCap : InCap cap n) :
    positiveInt name cap n = .ok n := by
  obtain ⟨positive, small⟩ := inCap
  unfold positiveInt
  rw [if_neg (by omega)]
  cases cap with
  | none => rfl
  | some most => exact if_neg (Int.not_lt.mpr (small most rfl))

theorem intOr_int {cap : Option Int} {n : Int} (given : value = some (.int n))
    (inCap : InCap cap n) (before : Int) : intOr name cap before value = .ok n := by
  rw [given]
  exact positiveInt_of_inCap inCap

theorem realOr_real {e : ConfigError} {rejects : Number → Bool} {x : Number}
    (given : value = some (.number x)) (accepted : rejects x = false)
    (real : IsNormal .real (.real x)) (before : Number) :
    realOr e rejects before value = .ok x := by
  obtain ⟨y, rfl⟩ := real
  rw [given, realOr, accepted]
  rfl

theorem languageItems_mapValues {entries before : Entries String}
    (suffix : ∀ entry ∈ entries, normalExtension? entry.1 = some entry.1)
    (language : ∀ entry ∈ entries, Text.lower (Text.trim entry.2) = entry.2) :
    languageItems (Entries.mapValues .text entries) before =
      .ok (entries.foldl (fun found entry => Entries.put entry.1 entry.2 found) before) := by
  induction entries generalizing before with
  | nil => rfl
  | cons entry entries ih =>
    have first := suffix entry (List.mem_cons_self ..)
    have second := language entry (List.mem_cons_self ..)
    rw [List.foldl_cons, ← ih (fun other member => suffix other (List.mem_cons_of_mem _ member))
      (fun other member => language other (List.mem_cons_of_mem _ member)), Entries.mapValues,
      List.map_cons, languageItems, first, second]
    rfl

theorem languagesOr_table {entries : Entries String}
    (given : value = some (.table (Entries.mapValues .text entries))) (are : AreLanguages entries)
    (before : Entries String) : languagesOr before value = .ok entries := by
  rw [given, languagesOr, languageItems_mapValues are.suffix are.language]
  exact congrArg _ (Entries.ofList_of_nodup are.distinct)

end Readers

/-! ### Sections -/

theorem mergeScan_settings {settings : ScanSettings} {fields : Entries Setting}
    (given : ∀ field : ScanField, Entries.get? field.key fields =
      some (field.value settings).setting)
    (range : settings.InRange)
    (normal : ∀ field : ScanField, IsNormal field.kind (field.value settings))
    (before : ScanSettings) : mergeScan before fields = .ok settings := by
  simp only [mergeScan, bind_eq_ok_iff, pure, Except.pure, Except.ok.injEq]
  have extensions := normal .extensions
  exact ⟨_, extensionsOr_texts (given .extensions) extensions.1 extensions.2 _,
    _, textsField_texts (given .ignorePatterns) _,
    _, textsField_texts (given .ignoredDirectories) _,
    _, intOr_int (given .maxFileBytes) (inCap_some_iff.mpr range.maxFileBytes) _,
    _, intOr_int (given .maxDepth) (inCap_none_iff.mpr range.maxDepth) _,
    _, flagOr_flag (given .followLinks) _,
    _, intOr_int (given .maxLinkDepth) (inCap_none_iff.mpr range.maxLinkDepth) _,
    _, flagOr_flag (given .filterByValue) _,
    _, flagOr_flag (given .keepBinary) _,
    _, flagOr_flag (given .shortMarker) _, rfl⟩

/-- The languages come back in the order of their suffixes. -/
theorem mergeChunking_settings {settings : ChunkSettings} {fields : Entries Setting}
    (given : ∀ field : ChunkField, Entries.get? field.key fields =
      some (field.value settings).setting)
    (range : settings.InRange)
    (normal : ∀ field : ChunkField, IsNormal field.kind (field.value settings))
    (before : ChunkSettings) : mergeChunking before fields =
      .ok { settings with languages := Entries.sort settings.languages } := by
  simp only [mergeChunking, bind_eq_ok_iff, pure, Except.pure, Except.ok.injEq]
  have languages : AreLanguages settings.languages := normal .languages
  exact ⟨_, languagesOr_table (given .languages) languages.sort _,
    _, textsField_texts (given .structural) _,
    _, intOr_int (given .maxChunkBytes) (inCap_none_iff.mpr range.maxChunkBytes) _,
    _, intOr_int (given .linesPerChunk) (inCap_none_iff.mpr range.linesPerChunk) _,
    _, intOr_int (given .retryLines) (inCap_none_iff.mpr range.retryLines) _, rfl⟩

/-- The tests of the two numbers of seconds reject neither. -/
structure PassesTests (settings : DispatchSettings) : Prop where
  timeout : notPositive settings.timeout = false
  pause : negative settings.pause = false

theorem mergeDispatch_settings {settings : DispatchSettings} {fields : Entries Setting}
    (given : ∀ field : DispatchField, Entries.get? field.key fields =
      some (field.value settings).setting)
    (range : settings.InRange) (passes : PassesTests settings)
    (normal : ∀ field : DispatchField, IsNormal field.kind (field.value settings))
    (before : DispatchSettings) : mergeDispatch before fields = .ok settings := by
  simp only [mergeDispatch, bind_eq_ok_iff, pure, Except.pure, Except.ok.injEq]
  have share : noRatio settings.memoryThreshold = false := by
    simp [noRatio, range.memoryThreshold]
  exact ⟨_, flagOr_flag (given .concurrent) _,
    _, intOr_int (given .maxWorkers) (inCap_none_iff.mpr range.maxWorkers) _,
    _, intOr_int (given .batchSize) (inCap_none_iff.mpr range.batchSize) _,
    _, realOr_real (given .timeout) passes.timeout (normal .timeout) _,
    _, intOr_int (given .maxFailures) (inCap_none_iff.mpr range.maxFailures) _,
    _, realOr_real (given .memoryThreshold) share (normal .memoryThreshold) _,
    _, realOr_real (given .pause) passes.pause (normal .pause) _, rfl⟩

/-! ### Whole configurations -/

/-- The configuration with its languages in the order of their suffixes. -/
def inOrder (config : Config) : Config :=
  { config with
    chunking := { config.chunking with languages := Entries.sort config.chunking.languages } }

theorem merge_snapshot {base config : Config} (root : config.root = base.root)
    (range : config.InRange) (passes : PassesTests config.dispatch)
    (normal : ∀ field : Field, IsNormal field.kind (field.value config)) (dataDir : Path) :
    base.merge config.snapshot { dataDir := some dataDir } =
      .ok { config.inOrder with dataDir } := by
  have scanThere : ∃ fields, section? "scan" config.snapshot = .ok fields := ⟨_, rfl⟩
  have chunkThere : ∃ fields, section? "chunking" config.snapshot = .ok fields := ⟨_, rfl⟩
  have dispatchThere : ∃ fields, section? "dispatch" config.snapshot = .ok fields := ⟨_, rfl⟩
  obtain ⟨scanFields, scanThere⟩ := scanThere
  obtain ⟨chunkFields, chunkThere⟩ := chunkThere
  obtain ⟨dispatchFields, dispatchThere⟩ := dispatchThere
  have scanned := mergeScan_settings
    (fun field => (given?_of_section? scanThere field.key).symm.trans
      (given?_snapshot config (.scan field)))
    range.scan (fun field => normal (.scan field)) base.scan
  have chunked := mergeChunking_settings
    (fun field => (given?_of_section? chunkThere field.key).symm.trans
      (given?_snapshot config (.chunking field)))
    range.chunking (fun field => normal (.chunking field)) base.chunking
  have dispatched := mergeDispatch_settings
    (fun field => (given?_of_section? dispatchThere field.key).symm.trans
      (given?_snapshot config (.dispatch field)))
    range.dispatch passes (fun field => normal (.dispatch field)) base.dispatch
  simp only [merge, bind_eq_ok_iff]
  refine ⟨_, scanThere, _, chunkThere, _, dispatchThere, _, scanned, _, chunked, _, dispatched, ?_⟩
  rw [inOrder, root]
  rfl

theorem value_eq_of_given_real {d : Disk} {base config : Config} {payload : Entries Setting}
    {overrides : Overrides} (merged : mergeAt d base payload overrides = .ok config)
    (field : Field) {x : Binary64} (isReal : field.kind = .real)
    (free : field.override? overrides = none)
    (given : field.given? payload = some (.number (.real x))) :
    field.value config = .real (.real x) := by
  obtain ⟨-, -, layers⟩ := layered?_of_mergeAt merged
  have layer := layers field
  simp only [Field.layered?, free, given, isReal] at layer
  exact (Option.some.inj layer).symm

/-- The tests that a number of seconds passed when it was merged do not reject it now. What was
given as no number is still none, and passes the test that compares it with zero. -/
theorem passesTests_of_mergeAt {d : Disk} {root : Path} {base config : Config}
    {payload : Entries Setting} {overrides : Overrides} (standard : standardAt d root = .ok base)
    (merged : mergeAt d base payload overrides = .ok config) : PassesTests config.dispatch := by
  obtain ⟨-, timeout, pause⟩ := inRange_of_mergeAt standard merged
  obtain ⟨place, -, rfl⟩ := exists_of_standardAt standard
  obtain ⟨seconds, seconds_eq⟩ : ∃ y, config.dispatch.timeout = .real y :=
    isNormal_of_mergeAt merged (.dispatch .timeout)
  obtain ⟨rest, rest_eq⟩ : ∃ y, config.dispatch.pause = .real y :=
    isNormal_of_mergeAt merged (.dispatch .pause)
  refine ⟨?_, ?_⟩
  · by_cases given : given? "dispatch" "task_timeout_seconds" payload = some (.number (.real .nan))
    · have value : config.dispatch.timeout = .real .nan := FieldValue.real.inj
        (value_eq_of_given_real merged (.dispatch .timeout) rfl rfl given)
      rw [value]
      decide
    · have positive := timeout.mpr given
      rw [seconds_eq, Number.whole_lt_real_iff] at positive
      rw [seconds_eq]
      exact positive.1
  · by_cases given : given? "dispatch" "batch_pause_seconds" payload = some (.number (.real .nan))
    · have value : config.dispatch.pause = .real .nan := FieldValue.real.inj
        (value_eq_of_given_real merged (.dispatch .pause) rfl rfl given)
      rw [value]
      decide
    · have natural := pause.mpr given
      rw [rest_eq, Number.whole_le_real_iff] at natural
      rw [rest_eq]
      exact natural.1

/-- The snapshot of a merged configuration, merged over the same standard one, gives the
configuration with its languages in order and the data directory at its real path. -/
theorem mergeAt_snapshot_eq {d : Disk} {root : Path} {base config : Config}
    {payload : Entries Setting} {overrides : Overrides} (standard : standardAt d root = .ok base)
    (merged : mergeAt d base payload overrides = .ok config) :
    mergeAt d base config.snapshot { dataDir := some config.dataDir } =
      ((d.resolve false config.dataDir).mapError .file).map
        fun dataDir => { config.inOrder with dataDir } := by
  obtain ⟨rootKept, -, -⟩ := layered?_of_mergeAt merged
  have normal : ∀ field : Field, IsNormal field.kind (field.value config) := by
    obtain ⟨place, -, rfl⟩ := exists_of_standardAt standard
    exact isNormal_of_mergeAt merged
  have whole := merge_snapshot rootKept (inRange_of_mergeAt standard merged).1
    (passesTests_of_mergeAt standard merged) normal config.dataDir
  rw [mergeAt, whole]
  simp only
  cases d.resolve false config.dataDir with
  | error e => rfl
  | ok dataDir => rfl

/-- Configurations that are the same, their languages taken as a map. -/
structure IsSame (a b : Config) : Prop where
  languages : ∀ suffix, Entries.get? suffix a.chunking.languages =
    Entries.get? suffix b.chunking.languages
  others : { a with chunking := { a.chunking with languages := b.chunking.languages } } = b

/-- The snapshot of a merged configuration gives it again. -/
theorem mergeAt_snapshot {d : Disk} {root : Path} {base config : Config}
    {payload : Entries Setting} {overrides : Overrides} (standard : standardAt d root = .ok base)
    (merged : mergeAt d base payload overrides = .ok config)
    (resolved : d.resolve false config.dataDir = .ok config.dataDir) :
    ∃ again, mergeAt d base config.snapshot { dataDir := some config.dataDir } = .ok again ∧
      IsSame again config := by
  have languages : AreLanguages config.chunking.languages := by
    obtain ⟨place, -, rfl⟩ := exists_of_standardAt standard
    exact isNormal_of_mergeAt merged (.chunking .languages)
  refine ⟨config.inOrder, ?_, fun suffix => Entries.get?_sort languages.distinct suffix, rfl⟩
  rw [mergeAt_snapshot_eq standard merged, resolved]
  rfl

/-- Suffixes and languages that were given padded, in capitals and more than once come back as they
were kept, and a share that was given as an integer comes back as a floating-point number. -/
theorem mergeAt_snapshot_padded : ∃ config again,
    mergeAt ⟨[], [], {}⟩ (Config.standard (Path.ofText "/ws"))
        [("scan", .table [("include_extensions", .texts ["TXT", " .txt "])]),
         ("chunking", .table
           [("language_mapping", .table [(" PY ", .text "Python"), (".py", .text " Snake\n")])]),
         ("dispatch", .table [("memory_threshold", .int 1)])] {} = .ok config ∧
      mergeAt ⟨[], [], {}⟩ (Config.standard (Path.ofText "/ws")) config.snapshot
        { dataDir := some config.dataDir } = .ok again ∧
      IsSame again config ∧
      again.scan.extensions = [".txt"] ∧
      Entries.get? ".py" again.chunking.languages = some "snake" ∧
      again.dispatch.memoryThreshold = .real (.ofDecimal false 1 0) := by
  obtain ⟨config, merged⟩ : ∃ config,
      mergeAt ⟨[], [], {}⟩ (Config.standard (Path.ofText "/ws"))
        [("scan", .table [("include_extensions", .texts ["TXT", " .txt "])]),
         ("chunking", .table
           [("language_mapping", .table [(" PY ", .text "Python"), (".py", .text " Snake\n")])]),
         ("dispatch", .table [("memory_threshold", .int 1)])] {} = .ok config :=
    ⟨_, rfl⟩
  have standard : standardAt ⟨[], [], {}⟩ (Path.ofText "/ws") =
      .ok (Config.standard (Path.ofText "/ws")) := by decide +kernel
  obtain ⟨-, dataDir, layers⟩ := layered?_of_mergeAt merged
  have kept : (⟨[], [], {}⟩ : Disk).resolve false (Path.ofText "/ws/.repo_chunker") =
      .ok (Path.ofText "/ws/.repo_chunker") := by decide +kernel
  have place : config.dataDir = Path.ofText "/ws/.repo_chunker" :=
    Except.ok.inj (dataDir.symm.trans kept)
  obtain ⟨again, snapshot, same⟩ := mergeAt_snapshot standard merged (by rw [place, kept])
  have extensions : Field.value config (.scan .extensions) = .texts [".txt"] :=
    Option.some.inj ((layers (.scan .extensions)).symm.trans (by decide +kernel))
  have languages : Field.value config (.chunking .languages) = .languages [(".py", "snake")] :=
    Option.some.inj ((layers (.chunking .languages)).symm.trans (by decide +kernel))
  have share : Field.value config (.dispatch .memoryThreshold) =
      .real (.real (.ofDecimal false 1 0)) :=
    Option.some.inj ((layers (.dispatch .memoryThreshold)).symm.trans (by decide +kernel))
  refine ⟨config, again, merged, snapshot, same, ?_, ?_, ?_⟩
  · rw [← FieldValue.texts.inj extensions, ← same.others]
  · rw [same.languages, FieldValue.languages.inj languages]
    decide +kernel
  · rw [← FieldValue.real.inj share, ← same.others]

end Config
end SourceIndex
