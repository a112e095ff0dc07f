import SourceIndex.Proofs.Config.Fields
/-!
# How merging fails

Settings that are not allowed are told by a configuration error. Two things get past the tests: a
number of seconds that is an integer too large for a floating-point number, and a data directory
with no real path.
-/

namespace SourceIndex.Config

/-! ### Readers without another failure -/

def FailsByConfig {α : Type} (read : Except MergeError α) : Prop :=
  read ≠ .error .integerTooLarge

section Readers
variable {α β : Type} {field scope key : String}

theorem FailsByConfig.ok (a : α) : FailsByConfig (.ok a) := fun failed => by cases failed

theorem FailsByConfig.config (e : ConfigError) : FailsByConfig (.error (.config e) : Except _ α) :=
  fun failed => by cases failed

theorem FailsByConfig.bind {read : Except MergeError α} {next : α → Except MergeError β}
    (first : FailsByConfig read) (later : ∀ a, FailsByConfig (next a)) :
    FailsByConfig (read >>= next) := by
  intro failed
  rcases bind_eq_error_iff.mp failed with here | ⟨a, -, there⟩
  · exact first here
  · exact later a there

theorem FailsByConfig.map {read : Except MergeError α} (first : FailsByConfig read) (f : α → β) :
    FailsByConfig (read.map f) := by
  cases read with
  | error e => exact fun failed => first (congrArg _ (Except.error.inj failed))
  | ok a => exact .ok _

theorem failsByConfig_section? (name : String) (payload : Entries Setting) :
    FailsByConfig (section? name payload) := by
  unfold section?
  split
  · exact .ok _
  · exact .ok _
  · exact .config _

theorem failsByConfig_textItems (items : List Setting) : FailsByConfig (textItems field items) := by
  fun_induction textItems field items with
  | case1 => exact .ok _
  | case2 _ _ ih => exact ih.map _
  | case3 => exact .config _

theorem failsByConfig_textList (value : Setting) : FailsByConfig (textList field value) := by
  unfold textList
  split
  · exact failsByConfig_textItems _
  · exact .config _

theorem failsByConfig_textsField (fields : Entries Setting) (before : List String) :
    FailsByConfig (textsField scope key fields before) := by
  unfold textsField
  split
  · exact .ok _
  · exact failsByConfig_textList _

theorem failsByConfig_extensionsOr (before : List String) (value : Option Setting) :
    FailsByConfig (extensionsOr before value) := by
  unfold extensionsOr
  split
  · exact .ok _
  · exact (failsByConfig_textList _).map _

theorem failsByConfig_flagOr (before : Bool) (value : Option Setting) :
    FailsByConfig (flagOr field before value) := by
  unfold flagOr
  split
  · exact .ok _
  · exact .ok _
  · exact .ok _
  · exact .config _

theorem failsByConfig_positiveInt (cap : Option Int) (n : Int) :
    FailsByConfig (positiveInt field cap n) := by
  unfold positiveInt
  split
  · exact .config _
  · split
    · split
      · exact .config _
      · exact .ok _
    · exact .ok _

theorem failsByConfig_intOr (cap : Option Int) (before : Int) (value : Option Setting) :
    FailsByConfig (intOr field cap before value) := by
  unfold intOr
  split
  · exact .ok _
  · exact .ok _
  · exact failsByConfig_positiveInt _ _
  · exact .config _

theorem failsByConfig_overrideInt (cap : Option Int) (before : Int) (value : Option Int) :
    FailsByConfig (overrideInt field cap before value) := by
  unfold overrideInt
  split
  · exact .ok _
  · exact failsByConfig_positiveInt _ _

theorem failsByConfig_languageItems (fields : Entries Setting) (found : Entries String) :
    FailsByConfig (languageItems fields found) := by
  fun_induction languageItems fields found with
  | case1 => exact .ok _
  | case2 _ _ _ _ ih => exact ih
  | case3 => exact .config _

theorem failsByConfig_languagesOr (before : Entries String) (value : Option Setting) :
    FailsByConfig (languagesOr before value) := by
  unfold languagesOr
  split
  · exact .ok _
  · exact failsByConfig_languageItems _ _
  · exact .config _

end Readers

/-! ### Sections -/

theorem failsByConfig_mergeScan (before : ScanSettings) (fields : Entries Setting) :
    FailsByConfig (mergeScan before fields) :=
  (failsByConfig_extensionsOr _ _).bind fun _ =>
    (failsByConfig_textsField _ _).bind fun _ =>
    (failsByConfig_textsField _ _).bind fun _ =>
    (failsByConfig_intOr _ _ _).bind fun _ =>
    (failsByConfig_intOr _ _ _).bind fun _ =>
    (failsByConfig_flagOr _ _).bind fun _ =>
    (failsByConfig_intOr _ _ _).bind fun _ =>
    (failsByConfig_flagOr _ _).bind fun _ =>
    (failsByConfig_flagOr _ _).bind fun _ =>
    (failsByConfig_flagOr _ _).bind fun _ => .ok _

theorem failsByConfig_mergeChunking (before : ChunkSettings) (fields : Entries Setting) :
    FailsByConfig (mergeChunking before fields) :=
  (failsByConfig_languagesOr _ _).bind fun _ =>
    (failsByConfig_textsField _ _).bind fun _ =>
    (failsByConfig_intOr _ _ _).bind fun _ =>
    (failsByConfig_intOr _ _ _).bind fun _ =>
    (failsByConfig_intOr _ _ _).bind fun _ => .ok _

theorem failsByConfig_override (config : Config) (overrides : Overrides) :
    FailsByConfig (config.override overrides) :=
  (failsByConfig_overrideInt _ _ _).bind fun _ =>
    (failsByConfig_overrideInt _ _ _).bind fun _ => .ok _

/-! ### Numbers of seconds -/

/-- An integer from half a unit above the largest floating-point number on. -/
def TooManySeconds (value : Option Setting) : Prop :=
  ∃ n : Int, (Binary64.twoTo 1024 : Int) - Binary64.twoTo 970 ≤ n ∧ value = some (.number (.whole n))

theorem asReal_tooLarge_iff {n : Number} :
    asReal n = .error .integerTooLarge ↔
      ∃ a, n = .whole a ∧ Binary64.twoTo 1024 - Binary64.twoTo 970 ≤ a.natAbs := by
  cases n with
  | real x => exact ⟨fun failed => (by cases failed), fun ⟨a, whole, _⟩ => by cases whole⟩
  | whole a =>
    simp only [Number.whole.injEq, exists_eq_left', ← Binary64.ofInt?_eq_none_iff]
    unfold asReal
    simp only
    cases Binary64.ofInt? a <;> simp

theorem realOr_tooLarge_iff {e : ConfigError} {rejects : Number → Bool} {before : Number}
    {value : Option Setting} :
    realOr e rejects before value = .error .integerTooLarge ↔
      ∃ a : Int, value = some (.number (.whole a)) ∧ rejects (.whole a) = false ∧
        Binary64.twoTo 1024 - Binary64.twoTo 970 ≤ a.natAbs := by
  unfold realOr
  split
  · simp
  · simp
  · rename_i n
    by_cases rejected : rejects n
    · rw [if_pos rejected]
      refine ⟨fun failed => (by cases failed), fun ⟨a, same, accepted, _⟩ => ?_⟩
      obtain rfl : n = .whole a := by simpa using same
      rw [rejected] at accepted
      cases accepted
    · rw [if_neg rejected, asReal_tooLarge_iff]
      refine exists_congr fun a => ⟨fun ⟨same, large⟩ => ?_, fun ⟨same, _, large⟩ => ?_⟩
      · subst same
        exact ⟨rfl, Bool.eq_false_iff.mpr rejected, large⟩
      · exact ⟨by simpa using same, large⟩
  · rename_i other
    exact ⟨fun failed => (by cases failed), fun ⟨a, same, _⟩ => (other _ (Option.some.inj same)).elim⟩

/-- Among the numbers that are not below zero, those that are too large are the large integers. -/
theorem realOr_tooMany_iff {e : ConfigError} {rejects : Number → Bool} {before : Number}
    {value : Option Setting} (negatives : ∀ n : Int, n < 0 → rejects (.whole n) = true)
    (positives : ∀ n : Int, 0 < n → rejects (.whole n) = false) :
    realOr e rejects before value = .error .integerTooLarge ↔ TooManySeconds value := by
  have some : Binary64.twoTo 970 < Binary64.twoTo 1024 := Binary64.twoTo_lt_twoTo (by decide)
  rw [realOr_tooLarge_iff]
  refine exists_congr fun a => ⟨fun ⟨same, accepted, large⟩ => ⟨?_, same⟩, fun ⟨large, same⟩ =>
    ⟨same, positives a (by omega), by omega⟩⟩
  have natural : 0 ≤ a := Int.not_lt.mp fun below => by
    rw [negatives a below] at accepted
    cases accepted
  omega

/-- A share is never too large: one is the only integer among the shares. -/
theorem failsByConfig_ratio {e : ConfigError} (before : Number) (value : Option Setting) :
    FailsByConfig (realOr e noRatio before value) := by
  intro failed
  obtain ⟨a, -, accepted, large⟩ := realOr_tooLarge_iff.mp failed
  have one : a = 1 := by
    rw [noRatio, Bool.not_eq_false', Bool.and_eq_true, Number.whole_lt_whole,
      Number.whole_le_whole] at accepted
    omega
  have far : Binary64.twoTo 970 + Binary64.twoTo 970 = Binary64.twoTo 971 := by
    rw [Binary64.twoTo_add 970 1, show Binary64.twoTo 1 = 2 from rfl, Nat.mul_two]
  have less : Binary64.twoTo 971 ≤ Binary64.twoTo 1024 := Binary64.twoTo_le_twoTo (by decide)
  have some : Binary64.twoTo 0 < Binary64.twoTo 970 := Binary64.twoTo_lt_twoTo (by decide)
  rw [show Binary64.twoTo 0 = 1 from rfl] at some
  omega

/-! ### Merging -/

/-- The dispatch settings are in order up to a number of seconds that is too large. -/
def StopsAtSeconds (before : DispatchSettings) (fields : Entries Setting) : Prop :=
  let value key := Entries.get? key fields
  (flagOr "dispatch.concurrent" before.concurrent (value "concurrent")).isOk ∧
    (intOr "dispatch.max_workers" none before.maxWorkers (value "max_workers")).isOk ∧
    (intOr "dispatch.batch_size" none before.batchSize (value "batch_size")).isOk ∧
    (TooManySeconds (value "task_timeout_seconds") ∨
      (realOr (.fieldNotPositive "dispatch.task_timeout_seconds") notPositive before.timeout
        (value "task_timeout_seconds")).isOk ∧
      (intOr "dispatch.max_worker_failures" none before.maxFailures
        (value "max_worker_failures")).isOk ∧
      (realOr (.fieldNoRatio "dispatch.memory_threshold") noRatio before.memoryThreshold
        (value "memory_threshold")).isOk ∧
      TooManySeconds (value "batch_pause_seconds"))

section Binds
variable {α β : Type} {read : Except MergeError α} {next : α → Except MergeError β} {stops : Prop}

theorem bind_tooLarge_iff (later : ∀ a, next a = .error .integerTooLarge ↔ stops) :
    (read >>= next) = .error .integerTooLarge ↔
      read = .error .integerTooLarge ∨ read.isOk ∧ stops := by
  rw [bind_eq_error_iff]
  refine or_congr_right ⟨fun ⟨a, ok, failed⟩ => ?_, fun ⟨ok, stops⟩ => ?_⟩
  · subst ok
    exact ⟨rfl, (later a).mp failed⟩
  · cases read with
    | error e => cases ok
    | ok a => exact ⟨a, rfl, (later a).mpr stops⟩

theorem FailsByConfig.bind_tooLarge_iff (first : FailsByConfig read)
    (later : ∀ a, next a = .error .integerTooLarge ↔ stops) :
    (read >>= next) = .error .integerTooLarge ↔ read.isOk ∧ stops :=
  (Config.bind_tooLarge_iff later).trans (or_iff_right first)

end Binds

theorem mergeDispatch_tooLarge_iff (before : DispatchSettings) (fields : Entries Setting) :
    mergeDispatch before fields = .error .integerTooLarge ↔ StopsAtSeconds before fields := by
  have timeouts (n : Int) : notPositive (.whole n) = true ↔ n ≤ 0 := Number.whole_le_whole n 0
  have pauses (n : Int) : negative (.whole n) = true ↔ n < 0 := Number.whole_lt_whole n 0
  have pause (dispatch : Number → DispatchSettings) :
      ((realOr (.fieldNegative "dispatch.batch_pause_seconds") negative before.pause
          (Entries.get? "batch_pause_seconds" fields) >>= fun pause => pure (dispatch pause)) :
        Except MergeError DispatchSettings) = .error .integerTooLarge ↔
      TooManySeconds (Entries.get? "batch_pause_seconds" fields) := by
    have never (pause : Number) :
        (pure (dispatch pause) : Except MergeError _) = .error .integerTooLarge ↔ False :=
      ⟨fun failed => (by cases failed), False.elim⟩
    rw [bind_tooLarge_iff never, and_false, or_false]
    exact realOr_tooMany_iff (fun n below => (pauses n).mpr below) fun n above => by
      rw [← Bool.not_eq_true, pauses]
      omega
  refine (failsByConfig_flagOr _ _).bind_tooLarge_iff fun _ =>
    (failsByConfig_intOr _ _ _).bind_tooLarge_iff fun _ =>
    (failsByConfig_intOr _ _ _).bind_tooLarge_iff fun _ => ?_
  rw [← realOr_tooMany_iff (fun n below => (timeouts n).mpr (by omega)) fun n above => by
    rw [← Bool.not_eq_true, timeouts]
    omega]
  exact bind_tooLarge_iff fun _ =>
    (failsByConfig_intOr _ _ _).bind_tooLarge_iff fun _ =>
    (failsByConfig_ratio _ _).bind_tooLarge_iff fun _ => pause _

/-- The settings are in order up to a number of seconds that is too large. -/
def ReachesSeconds (base : Config) (payload : Entries Setting) : Prop :=
  ∃ scanFields chunkFields fields,
    (section? "scan" payload = .ok scanFields ∧ (mergeScan base.scan scanFields).isOk) ∧
    (section? "chunking" payload = .ok chunkFields ∧
      (mergeChunking base.chunking chunkFields).isOk) ∧
    (section? "dispatch" payload = .ok fields ∧ StopsAtSeconds base.dispatch fields)

theorem isOk_iff {α : Type} {read : Except MergeError α} : read.isOk ↔ ∃ a, read = .ok a := by
  cases read with
  | error e => exact ⟨fun ok => (by cases ok), fun ⟨a, ok⟩ => (by cases ok)⟩
  | ok a => exact ⟨fun _ => ⟨a, rfl⟩, fun _ => rfl⟩

theorem merge_tooLarge_iff (base : Config) (payload : Entries Setting) (overrides : Overrides) :
    base.merge payload overrides = .error .integerTooLarge ↔ ReachesSeconds base payload := by
  have noSection (name : String) := eq_false (failsByConfig_section? name payload)
  have noScan (fields : Entries Setting) := eq_false (failsByConfig_mergeScan base.scan fields)
  have noChunking (fields : Entries Setting) :=
    eq_false (failsByConfig_mergeChunking base.chunking fields)
  have noOverride (config : Config) := eq_false (failsByConfig_override config overrides)
  simp only [merge, bind_eq_error_iff, noSection, noScan, noChunking, noOverride, false_or,
    mergeDispatch_tooLarge_iff, and_false, exists_false, or_false]
  constructor
  · rintro ⟨scanFields, scanThere, chunkFields, chunkThere, fields, there, scan, scanned, chunking,
      chunked, stops⟩
    exact ⟨scanFields, chunkFields, fields, ⟨scanThere, isOk_iff.mpr ⟨_, scanned⟩⟩,
      ⟨chunkThere, isOk_iff.mpr ⟨_, chunked⟩⟩, there, stops⟩
  · rintro ⟨scanFields, chunkFields, fields, ⟨scanThere, scanned⟩, ⟨chunkThere, chunked⟩, there,
      stops⟩
    obtain ⟨scan, scanned⟩ := isOk_iff.mp scanned
    obtain ⟨chunking, chunked⟩ := isOk_iff.mp chunked
    exact ⟨scanFields, scanThere, chunkFields, chunkThere, fields, there, scan, scanned, chunking,
      chunked, stops⟩

/-- When merging fails otherwise than by a configuration error. -/
theorem mergeAt_fails_otherwise_iff (d : Disk) (base : Config) (payload : Entries Setting)
    (overrides : Overrides) :
    (∃ failure, mergeAt d base payload overrides = .error failure ∧ ∀ e, failure ≠ .config e) ↔
      ReachesSeconds base payload ∨
        ∃ config e, base.merge payload overrides = .ok config ∧
          d.resolve false config.dataDir = .error e := by
  rw [← merge_tooLarge_iff base payload overrides]
  unfold mergeAt
  cases merged : base.merge payload overrides with
  | error e =>
    cases e with
    | config e =>
      refine ⟨fun ⟨failure, failed, other⟩ => ?_, fun either => ?_⟩
      · exact absurd (Except.error.inj failed).symm (other e)
      · rcases either with tooLarge | ⟨config, e, ok, -⟩
        · cases tooLarge
        · cases ok
    | integerTooLarge =>
      exact ⟨fun _ => .inl rfl, fun _ => ⟨.integerTooLarge, rfl, fun _ same => by cases same⟩⟩
  | ok config =>
    simp only [reduceCtorEq, false_or, Except.ok.injEq, exists_and_left, exists_eq_left']
    cases resolved : d.resolve false config.dataDir with
    | error e => exact ⟨fun _ => ⟨e, rfl⟩, fun _ => ⟨.file e, rfl, fun _ same => by cases same⟩⟩
    | ok dataDir =>
      exact ⟨fun ⟨_, failed, _⟩ => (by cases failed), fun ⟨_, failed⟩ => (by cases failed)⟩

end SourceIndex.Config
