import SourceIndex.Proofs.Config.Fields
/-!
# The range of a merged configuration

Whatever the settings file holds and whatever is given at the start, a configuration that is made
from the standard one has every value in its range. The two numbers of seconds have one way out:
what is no number passes the test that compares it with zero.
-/

namespace SourceIndex

/-! ### Ranges -/

structure ScanSettings.InRange (settings : ScanSettings) : Prop where
  maxFileBytes : 1 ≤ settings.maxFileBytes ∧ settings.maxFileBytes ≤ Config.maxFileBytesCap
  maxDepth : 1 ≤ settings.maxDepth
  maxLinkDepth : 1 ≤ settings.maxLinkDepth
  distinct : settings.extensions.Nodup
  extensions : ∀ extension ∈ settings.extensions, IsExtension extension

structure ChunkSettings.InRange (settings : ChunkSettings) : Prop where
  maxChunkBytes : 1 ≤ settings.maxChunkBytes
  linesPerChunk : 1 ≤ settings.linesPerChunk
  retryLines : 1 ≤ settings.retryLines

/-- The ranges of the dispatch settings that are no seconds. -/
structure DispatchSettings.InRange (settings : DispatchSettings) : Prop where
  maxWorkers : 1 ≤ settings.maxWorkers
  batchSize : 1 ≤ settings.batchSize
  maxFailures : 1 ≤ settings.maxFailures
  memoryThreshold : (Number.whole 0).lt settings.memoryThreshold = true ∧
    settings.memoryThreshold.le (.whole 1) = true

/-- All values but the two numbers of seconds are in range. -/
structure Config.InRange (config : Config) : Prop where
  scan : config.scan.InRange
  chunking : config.chunking.InRange
  dispatch : config.dispatch.InRange

namespace Config

theorem inRange_standard (root : Path) : (standard root).InRange where
  scan := (⟨by decide, by decide, by decide, List.nodup_nil, by simp⟩ :
    ({} : ScanSettings).InRange)
  chunking := (⟨by decide, by decide, by decide⟩ : ({} : ChunkSettings).InRange)
  dispatch := (⟨by decide, by decide, by decide, by decide⟩ : ({} : DispatchSettings).InRange)

theorem seconds_standard (root : Path) :
    (Number.whole 0).lt (standard root).dispatch.timeout = true ∧
      (Number.whole 0).le (standard root).dispatch.pause = true :=
  ⟨(by decide : (Number.whole 0).lt ({} : DispatchSettings).timeout = true),
    (by decide +kernel : (Number.whole 0).le ({} : DispatchSettings).pause = true)⟩

/-! ### Sections -/

theorem inRange_of_mergeScan {before scan : ScanSettings} {fields : Entries Setting}
    (earlier : before.InRange) (merged : mergeScan before fields = .ok scan) : scan.InRange := by
  simp only [mergeScan, bind_eq_ok_iff, pure, Except.pure, Except.ok.injEq] at merged
  obtain ⟨extensions, given, _, -, _, -, maxFileBytes, bytes, maxDepth, depth, _, -, maxLinkDepth,
    links, _, -, _, -, _, -, rfl⟩ := merged
  have wanted : extensions.Nodup ∧ ∀ e ∈ extensions, IsExtension e := by
    unfold extensionsOr at given
    split at given
    · exact Except.ok.inj given ▸ ⟨earlier.distinct, earlier.extensions⟩
    · rename_i value _
      cases read : textList "scan.include_extensions" value with
      | error e =>
        rw [read] at given
        cases given
      | ok texts =>
        rw [read] at given
        exact Except.ok.inj given ▸ isExtension_of_mem_normalizeExtensions
  exact {
    maxFileBytes :=
      inCap_some_iff.mp (inCap_of_intOr (inCap_some_iff.mpr earlier.maxFileBytes) bytes)
    maxDepth := inCap_none_iff.mp (inCap_of_intOr (inCap_none_iff.mpr earlier.maxDepth) depth)
    maxLinkDepth :=
      inCap_none_iff.mp (inCap_of_intOr (inCap_none_iff.mpr earlier.maxLinkDepth) links)
    distinct := wanted.1
    extensions := wanted.2 }

theorem inRange_of_mergeChunking {before chunking : ChunkSettings} {fields : Entries Setting}
    (earlier : before.InRange) (merged : mergeChunking before fields = .ok chunking) :
    chunking.InRange := by
  simp only [mergeChunking, bind_eq_ok_iff, pure, Except.pure, Except.ok.injEq] at merged
  obtain ⟨_, -, _, -, maxChunkBytes, bytes, linesPerChunk, lines, retryLines, retry, rfl⟩ := merged
  exact {
    maxChunkBytes :=
      inCap_none_iff.mp (inCap_of_intOr (inCap_none_iff.mpr earlier.maxChunkBytes) bytes)
    linesPerChunk :=
      inCap_none_iff.mp (inCap_of_intOr (inCap_none_iff.mpr earlier.linesPerChunk) lines)
    retryLines := inCap_none_iff.mp (inCap_of_intOr (inCap_none_iff.mpr earlier.retryLines) retry) }

theorem inRange_of_mergeDispatch {before dispatch : DispatchSettings} {fields : Entries Setting}
    (earlier : before.InRange) (merged : mergeDispatch before fields = .ok dispatch) :
    dispatch.InRange := by
  simp only [mergeDispatch, bind_eq_ok_iff, pure, Except.pure, Except.ok.injEq] at merged
  obtain ⟨_, -, maxWorkers, workers, batchSize, batch, _, -, maxFailures, failures, share, ratio,
    _, -, rfl⟩ := merged
  have fits : noRatio share = false :=
    ratio_of_realOr (by simp [noRatio, earlier.memoryThreshold]) ratio
  exact {
    maxWorkers := inCap_none_iff.mp (inCap_of_intOr (inCap_none_iff.mpr earlier.maxWorkers) workers)
    batchSize := inCap_none_iff.mp (inCap_of_intOr (inCap_none_iff.mpr earlier.batchSize) batch)
    maxFailures :=
      inCap_none_iff.mp (inCap_of_intOr (inCap_none_iff.mpr earlier.maxFailures) failures)
    memoryThreshold := by simpa [noRatio] using fits }

/-- A number of seconds is on its side of zero exactly if it was not given as what is no number. -/
theorem seconds_of_mergeDispatch {before dispatch : DispatchSettings} {fields : Entries Setting}
    (timeout : (Number.whole 0).lt before.timeout = true)
    (pause : (Number.whole 0).le before.pause = true)
    (merged : mergeDispatch before fields = .ok dispatch) :
    ((Number.whole 0).lt dispatch.timeout = true ↔
        Entries.get? "task_timeout_seconds" fields ≠ some (.number (.real .nan))) ∧
      ((Number.whole 0).le dispatch.pause = true ↔
        Entries.get? "batch_pause_seconds" fields ≠ some (.number (.real .nan))) := by
  simp only [mergeDispatch, bind_eq_ok_iff, pure, Except.pure, Except.ok.injEq] at merged
  obtain ⟨_, -, _, -, _, -, seconds, timeoutRead, _, -, _, -, paused, pauseRead, rfl⟩ := merged
  exact ⟨zero_lt_of_realOr_iff timeout timeoutRead, zero_le_of_realOr_iff pause pauseRead⟩

/-- What was given at the start keeps the ranges, and the two numbers of seconds. -/
theorem inRange_of_override {config merged : Config} {overrides : Overrides}
    (earlier : config.InRange) (overridden : config.override overrides = .ok merged) :
    merged.InRange ∧ merged.dispatch.timeout = config.dispatch.timeout ∧
      merged.dispatch.pause = config.dispatch.pause := by
  simp only [override, bind_eq_ok_iff, pure, Except.pure, Except.ok.injEq] at overridden
  obtain ⟨maxFileBytes, bytes, maxWorkers, workers, rfl⟩ := overridden
  refine ⟨⟨⟨?_, earlier.scan.maxDepth, earlier.scan.maxLinkDepth, ?_, ?_⟩, earlier.chunking,
    ⟨?_, earlier.dispatch.batchSize, earlier.dispatch.maxFailures,
      earlier.dispatch.memoryThreshold⟩⟩, rfl, rfl⟩
  · exact inCap_some_iff.mp
      (inCap_of_overrideInt (inCap_some_iff.mpr earlier.scan.maxFileBytes) bytes)
  · dsimp only
    split
    · exact isExtension_of_mem_normalizeExtensions.1
    · exact earlier.scan.distinct
  · dsimp only
    split
    · exact isExtension_of_mem_normalizeExtensions.2
    · exact earlier.scan.extensions
  · exact inCap_none_iff.mp
      (inCap_of_overrideInt (inCap_none_iff.mpr earlier.dispatch.maxWorkers) workers)

/-! ### Whole configurations -/

theorem exists_of_standardAt {d : Disk} {root : Path} {base : Config}
    (standard : standardAt d root = .ok base) :
    ∃ place, d.resolve false root = .ok place ∧ base = Config.standard place := by
  unfold standardAt at standard
  cases resolved : d.resolve false root with
  | error e =>
    rw [resolved] at standard
    cases standard
  | ok place =>
    rw [resolved] at standard
    exact ⟨place, rfl, (Except.ok.inj standard).symm⟩

theorem exists_of_mergeAt {d : Disk} {base config : Config} {payload : Entries Setting}
    {overrides : Overrides} (merged : mergeAt d base payload overrides = .ok config) :
    ∃ whole dataDir, base.merge payload overrides = .ok whole ∧
      d.resolve false whole.dataDir = .ok dataDir ∧ config = { whole with dataDir } := by
  unfold mergeAt at merged
  split at merged
  · cases merged
  · rename_i whole combined
    split at merged
    · cases merged
    · rename_i dataDir resolved
      exact ⟨whole, dataDir, combined, resolved, (Except.ok.inj merged).symm⟩

/-- What the settings file gives for a field of a section. -/
def given? (section_ key : String) (payload : Entries Setting) : Option Setting :=
  match Entries.get? section_ payload with
  | some (.table fields) => Entries.get? key fields
  | _ => none

theorem given?_of_section? {name : String} {payload fields : Entries Setting}
    (there : section? name payload = .ok fields) (key : String) :
    given? name key payload = Entries.get? key fields := by
  unfold section? at there
  unfold given?
  split at there
  · rename_i absent
    obtain rfl := Except.ok.inj there
    rw [absent]
    rfl
  · rename_i found
    obtain rfl := Except.ok.inj there
    rw [found]
  · cases there

/-- A merged configuration is in range, and a number of seconds is on its side of zero exactly if
it was not given as what is no number. -/
theorem inRange_of_mergeAt {d : Disk} {root : Path} {base config : Config}
    {payload : Entries Setting} {overrides : Overrides} (standard : standardAt d root = .ok base)
    (merged : mergeAt d base payload overrides = .ok config) :
    config.InRange ∧
      ((Number.whole 0).lt config.dispatch.timeout = true ↔
        given? "dispatch" "task_timeout_seconds" payload ≠ some (.number (.real .nan))) ∧
      ((Number.whole 0).le config.dispatch.pause = true ↔
        given? "dispatch" "batch_pause_seconds" payload ≠ some (.number (.real .nan))) := by
  obtain ⟨place, -, rfl⟩ := exists_of_standardAt standard
  obtain ⟨whole, dataDir, combined, -, rfl⟩ := exists_of_mergeAt merged
  simp only [merge, bind_eq_ok_iff] at combined
  obtain ⟨scanFields, -, chunkFields, -, fields, there, scan, scanned, chunking, chunked,
    dispatch, dispatched, overridden⟩ := combined
  have earlier := inRange_standard place
  have layered : Config.InRange { Config.standard place with scan, chunking, dispatch } :=
    ⟨inRange_of_mergeScan earlier.scan scanned, inRange_of_mergeChunking earlier.chunking chunked,
      inRange_of_mergeDispatch earlier.dispatch dispatched⟩
  obtain ⟨inRange, timeout, pause⟩ := inRange_of_override layered overridden
  have seconds :=
    seconds_of_mergeDispatch (seconds_standard place).1 (seconds_standard place).2 dispatched
  rw [given?_of_section? there, given?_of_section? there, timeout, pause]
  exact ⟨⟨inRange.scan, inRange.chunking, inRange.dispatch⟩, seconds⟩

/-- A timeout that is no number is taken, and is not above zero. -/
theorem inRange_of_mergeAt_nan : ∃ config,
    mergeAt ⟨[], [], {}⟩ (Config.standard (Path.ofText "/ws"))
        [("dispatch", .table [("task_timeout_seconds", .number (.real .nan))])] {} = .ok config ∧
      config.InRange ∧ (Number.whole 0).lt config.dispatch.timeout = false := by
  obtain ⟨config, merged⟩ : ∃ config,
      mergeAt ⟨[], [], {}⟩ (Config.standard (Path.ofText "/ws"))
        [("dispatch", .table [("task_timeout_seconds", .number (.real .nan))])] {} = .ok config :=
    ⟨_, rfl⟩
  have standard : standardAt ⟨[], [], {}⟩ (Path.ofText "/ws") =
      .ok (Config.standard (Path.ofText "/ws")) := by decide +kernel
  obtain ⟨inRange, timeout, -⟩ := inRange_of_mergeAt standard merged
  refine ⟨config, merged, inRange, ?_⟩
  rw [← Bool.not_eq_true, timeout]
  exact fun other => other rfl

end Config
end SourceIndex
