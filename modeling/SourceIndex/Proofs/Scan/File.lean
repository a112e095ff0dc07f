import SourceIndex.Proofs.Dispatch.Local
import SourceIndex.Proofs.FileSystem.Bare
import SourceIndex.Scan.Run
/-!
# Scanning single files

What a scan records of a file is what reading it gives, also where the digest is taken from an
earlier scan, if files with the same size and time are read as they were. So a scan that takes
digests over goes the same way as one that reads everything.
-/

namespace SourceIndex

/-! ### Files that can be read -/

structure Disk.HasFile (d : Disk) (p : Path) (data : Bytes) (modified : Int) : Prop where
  told : d.stat p = .ok (.file data modified)
  readable : Disk.defect? p d.defects.read = none

def Disk.IsFileAt (d : Disk) (p : Path) : Prop :=
  ∀ item, d.stat p = .ok item → ∃ data modified, item = .file data modified

theorem Disk.isFileAt_bare {d : Disk} {p : Path} : d.bare.IsFileAt p ↔ d.IsFileAt p := by
  unfold IsFileAt
  rw [stat_bare]
  cases d.stat p with
  | error e => simp [Except.map]
  | ok item => cases item <;> simp [Except.map, Item.bare]

theorem Disk.IsFileAt.of_bare {d other : Disk} {p : Path} (isFile : other.IsFileAt p)
    (same : other.bare = d.bare) : d.IsFileAt p := by
  rw [← isFileAt_bare, ← same, isFileAt_bare]
  exact isFile

theorem Disk.readAll_of_stat {d : Disk} {p : Path} {data : Bytes} {modified : Int}
    (told : d.stat p = .ok (.file data modified)) : d.readAll p = .ok data := by
  unfold readAll
  rw [(stat_eq_ok told).2]

theorem Disk.beforeReading_of_still {d : Disk} (still : d.IsStill) (p : Path) :
    d.beforeReading p = d := by
  unfold beforeReading
  rw [show d.defects.growth = [] from still]
  rfl

theorem Disk.HasFile.readBounded {d : Disk} (still : d.IsStill) {p : Path} {data : Bytes}
    {modified limit : Int} (has : d.HasFile p data modified) (fits : (data.length : Int) ≤ limit) :
    d.readBounded p limit = (.ok data, d) := by
  have small : (!data.isEmpty && decide (limit < (data.length : Int))) = false := by
    rw [decide_eq_false (by omega), Bool.and_false]
  unfold Disk.readBounded
  rw [Disk.beforeReading_of_still still]
  simp only [has.readable, Disk.readAll_of_stat has.told, small, Bool.false_eq_true, if_false]

theorem Disk.length_of_readBounded {d : Disk} {p : Path} {limit : Int} {data : Bytes}
    (read : (d.readBounded p limit).1 = .ok data) (some : 0 ≤ limit) :
    (data.length : Int) ≤ limit := by
  unfold readBounded at read
  simp only at read
  split at read
  · cases read
  split at read
  · cases read
  split at read
  · cases read
  · rename_i small
    rw [Except.ok.injEq] at read
    rw [← read]
    simp only [Bool.and_eq_true, Bool.not_eq_true', decide_eq_true_eq, not_and, Int.not_lt] at small
    rename_i found _
    cases found with
    | nil => exact some
    | cons b rest => exact small rfl

theorem Disk.hasFile_of_readBounded {d after : Disk} (still : d.IsStill) {p : Path}
    {data found : Bytes} {modified limit : Int} (told : d.stat p = .ok (.file data modified))
    (read : d.readBounded p limit = (.ok found, after)) : d.HasFile p found modified := by
  unfold readBounded at read
  rw [beforeReading_of_still still] at read
  simp only [Prod.mk.injEq] at read
  obtain ⟨read, -⟩ := read
  split at read
  · cases read
  rename_i readable
  rw [readAll_of_stat told] at read
  simp only at read
  split at read
  · cases read
  · rw [Except.ok.injEq] at read
    subst read
    exact ⟨told, readable⟩

namespace Content

theorem hash_of_classify {data : Bytes} {path : String} {c : Classified}
    (classified : classify data path = .ok c) :
    c.hash = Digest.Sha256.hash data ∧ c.size = data.length := by
  unfold classify at classified
  cases found : ofBytes data path with
  | error e =>
    rw [found] at classified
    cases classified
  | ok content =>
    rw [found] at classified
    cases classified
    exact ⟨rfl, rfl⟩

end Content

namespace Scan
variable {rules : Rules} {d : Disk}

/-! ### What visiting a file may come to -/

/-- What recording a file may come to: it is left out or its digest taken over, or it is read, which
may fail, and then listed if there is something to list. -/
inductive Recording (rules : Rules) (path : Path) (relative : String) (size modified : Int)
    (t : Tally) : Tally → Prop
  | tooLarge (line : LogLine) :
    Recording rules path relative size modified t (t.note line).skipFile
  | leftOut {node : FileNode} (same : unchanged? rules relative size modified = some node) :
    Recording rules path relative size modified t t.skipFile
  | reused {node : FileNode} (fits : size ≤ rules.settings.maxFileBytes)
    (same : unchanged? rules relative size modified = some node)
    (wanted : (node.isBinary && !rules.settings.keepBinary) = false) :
    Recording rules path relative size modified t
      (t.add ⟨relative, node.hash, size, modified, node.isBinary, node.encoding⟩ none)
  | unread {e : ReadError} {disk : Disk}
    (read : t.disk.readBounded path rules.settings.maxFileBytes = (.error e, disk)) :
    Recording rules path relative size modified t (Tally.fail { t with disk } relative e)
  | undecoded {data : Bytes} {disk : Disk} {e : Text.DecodeError}
    (read : t.disk.readBounded path rules.settings.maxFileBytes = (.ok data, disk)) :
    Recording rules path relative size modified t
      (Tally.fail { t with disk } relative (.encoding e))
  | unlisted {data : Bytes} {disk : Disk}
    (read : t.disk.readBounded path rules.settings.maxFileBytes = (.ok data, disk)) :
    Recording rules path relative size modified t (Tally.skipFile { t with disk })
  | listed {data : Bytes} {disk : Disk} {c : Classified} {content : String}
    (fits : size ≤ rules.settings.maxFileBytes)
    (read : t.disk.readBounded path rules.settings.maxFileBytes = (.ok data, disk))
    (classified : Content.classify data relative = .ok c)
    (listed : listedContent? rules.settings relative data c.content = some content) :
    Recording rules path relative size modified t
      (Tally.add { t with disk } (recordOf relative modified c) (some content))

theorem recording_recordFile (rules : Rules) (path : Path) (relative : String)
    (size modified : Int) (t : Tally) :
    Recording rules path relative size modified t
      (recordFile rules path relative size modified t) := by
  unfold recordFile
  split
  · exact .tooLarge _
  rename_i fits
  have fits := Int.not_lt.mp fits
  split
  · rename_i node same
    unfold reuseFile
    split
    · exact .leftOut same
    · rename_i wanted
      exact .reused fits same (by simpa using wanted)
  unfold readFile
  cases read : t.disk.readBounded path rules.settings.maxFileBytes with
  | mk outcome disk =>
    cases outcome with
    | error e => exact .unread read
    | ok data =>
      simp only
      cases classified : Content.classify data relative with
      | error e => exact .undecoded read
      | ok c =>
        simp only
        cases listed : listedContent? rules.settings relative data c.content with
        | none => exact .unlisted read
        | some content => exact .listed fits read classified listed

/-- A tally with one more visit. -/
def Tally.visited (t : Tally) : Tally :=
  { t with counts := { t.counts with scanned := t.counts.scanned + 1 } }

/-- A tally with one more visit, of a real path that is not seen again. -/
def Tally.saw (t : Tally) (realPath : Path) : Tally :=
  { t.visited with seen := realPath :: t.seen }

/-- What visiting a file may come to: it is passed over, nothing can be told of it or it is
recorded. -/
inductive FileVisit (rules : Rules) (path : Path) (relative : String) (realPath : Path)
    (t : Tally) : Tally → Prop
  | passed (known : acceptsFile rules relative = false ∨ realPath ∈ t.seen) :
    FileVisit rules path relative realPath t t.visited.skipFile
  | untold {e : FileError} (accepted : acceptsFile rules relative = true)
    (unseen : realPath ∉ t.seen) (told : t.disk.stat path = .error e) :
    FileVisit rules path relative realPath t ((t.saw realPath).fail relative (.file e))
  | recorded {item : Item} {after : Tally} (accepted : acceptsFile rules relative = true)
    (unseen : realPath ∉ t.seen) (told : t.disk.stat path = .ok item)
    (recording : Recording rules path relative (sizeAndTime item).1 (sizeAndTime item).2
      (t.saw realPath) after) :
    FileVisit rules path relative realPath t after

theorem fileVisit (rules : Rules) (path : Path) (relative : String) (realPath : Path)
    (t : Tally) :
    FileVisit rules path relative realPath t (visitFile rules path relative realPath t) := by
  unfold visitFile
  simp only
  split
  · rename_i refused
    exact .passed (.inl (by simpa using refused))
  rename_i accepted
  have accepted : acceptsFile rules relative = true := by simpa using accepted
  split
  · rename_i seen
    exact .passed (.inr (List.contains_iff_mem.mp seen))
  rename_i unseen
  have unseen : realPath ∉ t.seen := fun seen => unseen (List.contains_iff_mem.mpr seen)
  split
  · exact .untold accepted unseen ‹_›
  · exact .recorded accepted unseen ‹_› (recording_recordFile ..)

theorem unchanged?_eq_some {rules : Rules} {relative : String} {size modified : Int}
    {node : FileNode} (found : unchanged? rules relative size modified = some node) :
    Entries.get? relative rules.previous = some node ∧ node.size = size ∧
      node.modified = modified := by
  rw [unchanged?, Option.filter_eq_some_iff] at found
  simpa using found

/-! ### What is recorded -/

/-- Reading the file with a relative path gives a record and a content. -/
def Reads (rules : Rules) (d : Disk) (relative : String) (file : FileRecord) (content : String) :
    Prop :=
  ∃ data modified c, d.HasFile (rules.root.below relative) data modified ∧
    Content.classify data relative = .ok c ∧
    listedContent? rules.settings relative data c.content = some content ∧
    file = recordOf relative modified c

theorem Reads.unique {relative : String} {file other : FileRecord} {content text : String}
    (one : Reads rules d relative file content) (two : Reads rules d relative other text) :
    file = other ∧ content = text := by
  obtain ⟨data, modified, c, has, classified, listed, rfl⟩ := one
  obtain ⟨data', modified', c', has', classified', listed', rfl⟩ := two
  have same := has.told.symm.trans has'.told
  rw [Except.ok.injEq, Item.file.injEq] at same
  obtain ⟨rfl, rfl⟩ := same
  rw [classified, Except.ok.injEq] at classified'
  subst classified'
  rw [listed, Option.some.injEq] at listed'
  exact ⟨rfl, listed'⟩

/-- A scanned file is as reading it gives; its content is missing only if its digest was taken from
the earlier scan. -/
def IsScanned (rules : Rules) (d : Disk) (found : ScannedFile) : Prop :=
  ∃ content, Reads rules d found.file.path found.file content ∧
    (found.content = some content ∨ found.content = none ∧
      ∃ node, Entries.get? found.file.path rules.previous = some node ∧
        node.hash = found.file.hash)

/-- The earlier scan is right about all files that have the same size and time now. -/
def Rules.AreRight (rules : Rules) (d : Disk) : Prop :=
  ∀ relative node data modified, Entries.get? relative rules.previous = some node →
    d.stat (rules.root.below relative) = .ok (.file data modified) →
    node.size = data.length → node.modified = modified →
    Disk.defect? (rules.root.below relative) d.defects.read = none ∧
      ∃ c, Content.classify data relative = .ok c ∧
        (⟨relative, node.hash, data.length, modified, node.isBinary, node.encoding⟩ : FileRecord) =
          recordOf relative modified c

def Rules.fresh (rules : Rules) : Rules := { rules with previous := [] }

theorem areRight_fresh (rules : Rules) (d : Disk) : rules.fresh.AreRight d := by
  intro relative node data modified found
  cases found

/-! ### What a file adds -/

/-- A tally with the disk as it is and all files recorded as they are. -/
structure Tally.IsFaithful (rules : Rules) (d : Disk) (t : Tally) : Prop where
  disk : t.disk = d
  files : ∀ found ∈ t.files, IsScanned rules d found

variable {t after : Tally}

theorem Tally.IsFaithful.of_eq (faithful : t.IsFaithful rules d) (disk : after.disk = t.disk)
    (files : after.files = t.files) : after.IsFaithful rules d :=
  ⟨disk.trans faithful.disk, by rw [files]; exact faithful.files⟩

theorem Tally.IsFaithful.add (faithful : t.IsFaithful rules d) {file : FileRecord}
    {content : Option String} (scanned : IsScanned rules d ⟨file, content⟩) :
    (t.add file content).IsFaithful rules d := by
  refine ⟨faithful.disk, fun found member => ?_⟩
  rcases List.mem_append.mp member with before | here
  · exact faithful.files found before
  · rwa [List.mem_singleton.mp here]

theorem listedContent?_eq_none {settings : ScanSettings} {relative : String} {data : Bytes}
    {content : Content} : listedContent? settings relative data content = none ↔
      (content == .binary && !settings.keepBinary) = true := by
  cases content with
  | text encoding text => simp [listedContent?]
  | binary =>
    cases keeps : settings.keepBinary with
    | false => simp [listedContent?, keeps]
    | true =>
      simp only [listedContent?, keeps, Bool.not_true, Bool.false_eq_true, if_false]
      split <;> simp

variable {path : Path} {relative : String} {data : Bytes} {modified : Int}

theorem isFaithful_recording (still : d.IsStill) (right : rules.AreRight d)
    (faithful : t.IsFaithful rules d) (below : path = rules.root.below relative)
    (told : d.stat path = .ok (.file data modified))
    (recording : Recording rules path relative data.length modified t after) :
    after.IsFaithful rules d := by
  obtain rfl := faithful.disk
  have stays {outcome : Except ReadError Bytes} {disk : Disk}
      (read : t.disk.readBounded path rules.settings.maxFileBytes = (outcome, disk)) :
      Tally.IsFaithful rules t.disk { t with disk } := by
    have same := Disk.snd_readBounded still path rules.settings.maxFileBytes
    rw [read] at same
    exact ⟨same, faithful.files⟩
  subst below
  cases recording with
  | tooLarge line => exact faithful.of_eq rfl rfl
  | leftOut same => exact faithful.of_eq rfl rfl
  | @reused node fits unchanged wanted =>
    obtain ⟨known, size, time⟩ := unchanged?_eq_some unchanged
    obtain ⟨readable, c, classified, same⟩ :=
      right relative node data modified known told size time
    have binary : node.isBinary = (c.content == .binary) := congrArg FileRecord.isBinary same
    rw [binary] at wanted
    cases found : listedContent? rules.settings relative data c.content with
    | none => exact absurd (listedContent?_eq_none.mp found) (by simp [wanted])
    | some content =>
      apply faithful.add
      exact ⟨content, ⟨data, modified, c, ⟨told, readable⟩, classified, found, same⟩,
        .inr ⟨rfl, node, known, rfl⟩⟩
  | unread read => exact (stays read).of_eq rfl rfl
  | undecoded read => exact (stays read).of_eq rfl rfl
  | unlisted read => exact (stays read).of_eq rfl rfl
  | @listed found disk c content fits read classified listed =>
    have has := Disk.hasFile_of_readBounded still told read
    exact (stays read).add ⟨content, ⟨found, modified, c, has, classified, listed, rfl⟩, .inl rfl⟩

theorem isFaithful_visitFile (still : d.IsStill) (right : rules.AreRight d)
    (faithful : t.IsFaithful rules d) (below : path = rules.root.below relative)
    (isFile : d.IsFileAt path) (realPath : Path) :
    (visitFile rules path relative realPath t).IsFaithful rules d := by
  have visit := fileVisit rules path relative realPath t
  generalize visitFile rules path relative realPath t = after at visit ⊢
  cases visit with
  | passed => exact faithful.of_eq rfl rfl
  | untold => exact faithful.of_eq rfl rfl
  | recorded _ _ told recording =>
    rw [faithful.disk] at told
    obtain ⟨data, modified, rfl⟩ := isFile _ told
    have saw : (t.saw realPath).IsFaithful rules d := faithful.of_eq rfl rfl
    exact isFaithful_recording still right saw below told recording

/-- A tally that gained at most one file, with a given relative path. What files hold is all that
changed on the disk. -/
structure Gains (relative : String) (t after : Tally) : Prop where
  bare : after.disk.bare = t.disk.bare
  seen : after.seen = t.seen
  files : after.files = t.files ∨
    ∃ found, after.files = t.files ++ [found] ∧ found.file.path = relative

theorem Recording.gains {size : Int}
    (recording : Recording rules path relative size modified t after) : Gains relative t after := by
  have bare {outcome : Except ReadError Bytes} {disk : Disk}
      (read : t.disk.readBounded path rules.settings.maxFileBytes = (outcome, disk)) :
      disk.bare = t.disk.bare := by
    have bare := Disk.bare_readBounded t.disk path rules.settings.maxFileBytes
    rwa [read] at bare
  cases recording with
  | tooLarge line => exact ⟨rfl, rfl, .inl rfl⟩
  | leftOut same => exact ⟨rfl, rfl, .inl rfl⟩
  | reused => exact ⟨rfl, rfl, .inr ⟨_, rfl, rfl⟩⟩
  | unread read => exact ⟨bare read, rfl, .inl rfl⟩
  | undecoded read => exact ⟨bare read, rfl, .inl rfl⟩
  | unlisted read => exact ⟨bare read, rfl, .inl rfl⟩
  | listed _ read => exact ⟨bare read, rfl, .inr ⟨_, rfl, rfl⟩⟩

theorem gains_visitFile (rules : Rules) (path : Path) (relative : String) (realPath : Path)
    (t : Tally) :
    Gains relative t (visitFile rules path relative realPath t) ∧
        (visitFile rules path relative realPath t).files = t.files ∨
      realPath ∉ t.seen ∧ Gains relative { t with seen := realPath :: t.seen }
        (visitFile rules path relative realPath t) := by
  have visit := fileVisit rules path relative realPath t
  generalize visitFile rules path relative realPath t = after at visit ⊢
  cases visit with
  | passed => exact .inl ⟨⟨rfl, rfl, .inl rfl⟩, rfl⟩
  | untold _ unseen => exact .inr ⟨unseen, rfl, rfl, .inl rfl⟩
  | recorded _ unseen _ recording =>
    obtain ⟨bare, seen, files⟩ := recording.gains
    exact .inr ⟨unseen, bare, seen, files⟩

def Fits (rules : Rules) (found : ScannedFile) : Prop :=
  found.file.size ≤ rules.settings.maxFileBytes

theorem sizeAndTime_nonneg (item : Item) : 0 ≤ (sizeAndTime item).1 := by
  unfold sizeAndTime
  split
  · exact Int.natCast_nonneg _
  · exact Int.le_refl 0

theorem Recording.fits {size : Int} (some : 0 ≤ size)
    (recording : Recording rules path relative size modified t after)
    (fit : ∀ found ∈ t.files, Fits rules found) : ∀ found ∈ after.files, Fits rules found := by
  have added {file : FileRecord} {content : Option String}
      (small : file.size ≤ rules.settings.maxFileBytes) :
      ∀ found ∈ t.files ++ [⟨file, content⟩], Fits rules found := by
    intro found member
    rcases List.mem_append.mp member with before | here
    · exact fit found before
    · rw [List.mem_singleton.mp here]
      exact small
  cases recording with
  | tooLarge line => exact fit
  | leftOut same => exact fit
  | reused small => exact added small
  | unread read => exact fit
  | undecoded read => exact fit
  | unlisted read => exact fit
  | @listed data disk c content fits read classified listed =>
    have length : c.size = data.length := (Content.hash_of_classify classified).2
    have small := Disk.length_of_readBounded (congrArg Prod.fst read) (Int.le_trans some fits)
    refine added ?_
    rw [← length] at small
    exact small

theorem fits_visitFile {rules : Rules} (path : Path) (relative : String) (realPath : Path)
    {t : Tally} (fit : ∀ found ∈ t.files, Fits rules found) :
    ∀ found ∈ (visitFile rules path relative realPath t).files, Fits rules found := by
  have visit := fileVisit rules path relative realPath t
  generalize visitFile rules path relative realPath t = after at visit ⊢
  cases visit with
  | passed => exact fit
  | untold => exact fit
  | recorded _ _ _ recording => exact recording.fits (sizeAndTime_nonneg _) fit

/-! ### Scans side by side -/

/-- Tallies that differ in the contents of files at most. -/
structure Similar (t other : Tally) : Prop where
  seen : t.seen = other.seen
  files : t.files.map (·.file) = other.files.map (·.file)
  errors : t.errors = other.errors
  counts : t.counts = other.counts
  log : t.log = other.log
  disk : t.disk = other.disk

namespace Similar
variable {other : Tally}

theorem note (similar : Similar t other) (line : LogLine) :
    Similar (t.note line) (other.note line) :=
  ⟨similar.seen, similar.files, similar.errors, similar.counts,
    congrArg (· ++ [line]) similar.log, similar.disk⟩

theorem count (similar : Similar t other) (change : ScanCounts → ScanCounts) :
    Similar { t with counts := change t.counts } { other with counts := change other.counts } :=
  ⟨similar.seen, similar.files, similar.errors, congrArg change similar.counts, similar.log,
    similar.disk⟩

theorem skipFile (similar : Similar t other) : Similar t.skipFile other.skipFile :=
  similar.count fun counts => { counts with skippedFiles := counts.skippedFiles + 1 }

theorem skipDirectory (similar : Similar t other) : Similar t.skipDirectory other.skipDirectory :=
  similar.count fun counts => { counts with skippedDirectories := counts.skippedDirectories + 1 }

theorem skipLink (similar : Similar t other) : Similar t.skipLink other.skipLink :=
  similar.count fun counts => { counts with skippedLinks := counts.skippedLinks + 1 }

theorem rejectLink (similar : Similar t other) (relative reason : String) :
    Similar (t.rejectLink relative reason) (other.rejectLink relative reason) :=
  (similar.note _).skipLink

theorem fail (similar : Similar t other) (relative : String) (e : ReadError) :
    Similar (t.fail relative e) (other.fail relative e) := by
  have noted := (similar.note (.warning ("Failed to scan " ++ relative ++ " (" ++
    (ErrorKind.ofReadError e).name ++ "): " ++ e.message))).count
      fun counts => { counts with failed := counts.failed + 1 }
  exact ⟨noted.seen, noted.files,
    congrArg (· ++ [(⟨relative, ErrorKind.ofReadError e, e.message⟩ : ScanError)]) similar.errors,
    noted.counts, noted.log, noted.disk⟩

theorem add (similar : Similar t other) (file : FileRecord) (content text : Option String) :
    Similar (t.add file content) (other.add file text) := by
  refine ⟨similar.seen, ?_, similar.errors, ?_, similar.log, similar.disk⟩
  · simp only [Tally.add, List.map_append, similar.files, List.map_singleton]
  · simp only [Tally.add, similar.counts]

theorem readFile (similar : Similar t other) (path : Path) (relative : String) (modified : Int) :
    Similar (readFile rules path relative modified t)
      (readFile rules.fresh path relative modified other) := by
  unfold Scan.readFile
  rw [← similar.disk, show rules.fresh.settings = rules.settings from rfl]
  generalize t.disk.readBounded path rules.settings.maxFileBytes = read
  cases read with
  | mk outcome disk =>
    have moved : Similar { t with disk } { other with disk } :=
      ⟨similar.seen, similar.files, similar.errors, similar.counts, similar.log, rfl⟩
    cases outcome with
    | error e => exact moved.fail relative e
    | ok found =>
      simp only
      cases Content.classify found relative with
      | error e => exact moved.fail relative (.encoding e)
      | ok c =>
        simp only
        cases listedContent? rules.settings relative found c.content with
        | none => exact moved.skipFile
        | some content => exact moved.add _ _ _

/-- Taking a digest over records the same as reading the file. -/
theorem reuseFile (similar : Similar t other) (still : d.IsStill) (right : rules.AreRight d)
    (disk : t.disk = d) (told : d.stat (rules.root.below relative) = .ok (.file data modified))
    (fits : (data.length : Int) ≤ rules.settings.maxFileBytes) {node : FileNode}
    (known : Entries.get? relative rules.previous = some node) (size : node.size = data.length)
    (time : node.modified = modified) :
    Similar (reuseFile rules relative data.length modified node t)
      (Scan.readFile rules.fresh (rules.root.below relative) relative modified other) := by
  obtain ⟨readable, c, classified, same⟩ := right relative node data modified known told size time
  have read := (Disk.HasFile.mk told readable).readBounded still fits
  have binary : node.isBinary = (c.content == .binary) := congrArg FileRecord.isBinary same
  unfold Scan.readFile Scan.reuseFile
  rw [← similar.disk, disk]
  simp only [Rules.fresh, read, classified]
  have moved : Similar t { other with disk := d } := by
    rw [← disk, similar.disk]
    exact similar
  rw [same, binary]
  cases listed : listedContent? rules.settings relative data c.content with
  | none =>
    rw [if_pos (listedContent?_eq_none.mp listed)]
    exact moved.skipFile
  | some content =>
    rw [if_neg]
    · exact moved.add _ _ _
    · intro skips
      rw [listedContent?_eq_none.mpr skips] at listed
      cases listed

theorem recordFile (similar : Similar t other) (still : d.IsStill) (right : rules.AreRight d)
    (disk : t.disk = d) (told : d.stat (rules.root.below relative) = .ok (.file data modified)) :
    Similar (recordFile rules (rules.root.below relative) relative data.length modified t)
      (recordFile rules.fresh (rules.root.below relative) relative data.length modified other) := by
  have nothing : unchanged? rules.fresh relative data.length modified = none := rfl
  unfold Scan.recordFile
  rw [nothing]
  simp only [show rules.fresh.settings = rules.settings from rfl]
  split
  · exact (similar.note _).skipFile
  · rename_i small
    cases found : unchanged? rules relative data.length modified with
    | none => exact similar.readFile _ _ _
    | some node =>
      obtain ⟨known, size, time⟩ := unchanged?_eq_some found
      exact similar.reuseFile still right disk told (by omega) known size time

theorem visitFile (similar : Similar t other) (still : d.IsStill) (right : rules.AreRight d)
    (disk : t.disk = d) (below : path = rules.root.below relative) (isFile : d.IsFileAt path)
    (realPath : Path) :
    Similar (visitFile rules path relative realPath t)
      (visitFile rules.fresh path relative realPath other) := by
  have counted := similar.count fun counts => { counts with scanned := counts.scanned + 1 }
  have sees : other.seen.contains realPath = t.seen.contains realPath := by rw [similar.seen]
  have tells : other.disk.stat path = t.disk.stat path := by rw [similar.disk]
  unfold Scan.visitFile
  simp only [show acceptsFile rules.fresh relative = acceptsFile rules relative from rfl, sees,
    tells]
  split
  · exact counted.skipFile
  · split
    · exact counted.skipFile
    · have seen : Similar
          { t with
            counts := { t.counts with scanned := t.counts.scanned + 1 }
            seen := realPath :: t.seen }
          { other with
            counts := { other.counts with scanned := other.counts.scanned + 1 }
            seen := realPath :: other.seen } :=
        ⟨congrArg (realPath :: ·) similar.seen, counted.files, counted.errors, counted.counts,
          counted.log, counted.disk⟩
      cases told : t.disk.stat path with
      | error e => exact seen.fail relative (.file e)
      | ok item =>
        rw [disk] at told
        obtain ⟨data, modified, rfl⟩ := isFile item told
        subst below
        exact seen.recordFile still right disk told

end Similar
end Scan
end SourceIndex
