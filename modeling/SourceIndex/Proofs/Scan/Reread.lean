import SourceIndex.Proofs.Scan.Track
import SourceIndex.Proofs.Scan.Walk
/-!
# Contents that were left out

A scan that takes digests over finds all that one finds that reads every file, up to the contents
that it leaves out. Those can still be read: the text of the root and the relative path of a file
make up its path, and the file is no larger than a file may be.
-/

namespace SourceIndex

def ScanResult.bare (r : ScanResult) : ScanResult :=
  { r with files := r.files.map fun found => { found with content := none } }

theorem ScanResult.records_bare (r : ScanResult) : r.bare.records = r.records := by
  simp [bare, records]

theorem ScanResult.bare_eq {r other : ScanResult} (root : r.root = other.root)
    (records : r.records = other.records) (errors : r.errors = other.errors)
    (counts : r.counts = other.counts) : r.bare = other.bare := by
  have emptied (r : ScanResult) : (r.files.map fun found => { found with content := none }) =
      r.records.map fun file => (⟨file, none⟩ : ScannedFile) := by
    simp [ScanResult.records]
  rw [bare, bare, emptied, emptied, root, records, errors, counts]

namespace Scan
variable {rules : Rules} {d : Disk} {config : Config} {previous : Entries FileNode}

/-! ### Results side by side -/

theorem Walk.Matches.bare_result {w other : Walk} (same : w.Matches other) :
    (w.result rules).map ScanResult.bare = (other.result rules.fresh).map ScanResult.bare := by
  unfold Walk.result
  rw [← same.broken]
  cases w.broken with
  | some e => rfl
  | none =>
    exact congrArg Except.ok (ScanResult.bare_eq rfl (map_file_sortFiles same.tally.files)
      same.tally.errors same.tally.counts)

theorem scan_alike (proper : d.IsProper) (still : d.IsStill)
    (right : ∀ rules, rulesFor config previous d = .ok rules → rules.AreRight d) :
    (scan config previous d).result.map ScanResult.bare =
        (scan config [] d).result.map ScanResult.bare ∧
      (scan config previous d).log = (scan config [] d).log ∧
      (scan config previous d).disk = (scan config [] d).disk := by
  unfold scan
  rw [rulesFor_nil config previous]
  cases found : rulesFor config previous d with
  | error e => exact ⟨rfl, rfl, rfl⟩
  | ok rules =>
    have right := right rules found
    have start : (Walk.start rules d).IsFine rules (Tally.IsFaithful rules d) :=
      Walk.isFine_start rules ⟨rfl, by simp⟩
    have same := Walk.matches_finish proper still right start (Walk.matches_start rules d)
    exact ⟨same.bare_result, same.tally.log, same.tally.disk⟩

/-! ### Reading again -/

theorem isKept_fits (rules : Rules) (d : Disk) :
    IsKept rules d fun t => t.disk.bare = d.bare ∧ ∀ found ∈ t.files, Fits rules found where
  bare _ holds := holds.1
  same _ _ holds _ files disk := by
    rw [disk, files]
    exact holds
  visit t path relative realPath holds _ _ _ := by
    refine ⟨?_, fits_visitFile path relative realPath holds.2⟩
    rcases gains_visitFile rules path relative realPath t with ⟨gains, -⟩ | ⟨-, gains⟩
    · exact gains.bare.trans holds.1
    · exact gains.bare.trans holds.1

theorem fits_of_mem (proper : d.IsProper) (ruled : rulesFor config previous d = .ok rules)
    {r : ScanResult} (done : (scan config previous d).result = .ok r) {found : ScannedFile}
    (member : found ∈ r.files) : Fits rules found := by
  have fine := Walk.isFine_finish proper (isKept_fits rules d)
    (Walk.isFine_start (d := d) rules ⟨rfl, by simp⟩)
  rw [(result_eq_ok ruled done).1] at member
  exact fine.holds.2 found ((sortFiles_perm _).mem_iff.mp member)

theorem join_ofText_of_mem (proper : d.IsProper) (ruled : rulesFor config previous d = .ok rules)
    {r : ScanResult} (done : (scan config previous d).result = .ok r) {found : ScannedFile}
    (member : found ∈ r.files) :
    (Path.ofText r.root).join (Path.ofText found.file.path) = rules.root.below found.file.path := by
  obtain ⟨steps, leads, -⟩ := Walk.leads_finish rules (Walk.start rules d)
  have tracked := (Walk.isTracked_of_leads proper leads).tally
  obtain ⟨files, -, root⟩ := result_eq_ok ruled done
  rw [files] at member
  obtain ⟨goal, links, data, modified, real, comes, -⟩ :=
    tracked.files found ((sortFiles_perm _).mem_iff.mp member)
  have plain : rules.root.IsPlain := Disk.isPlain_of_resolve proper (Path.isPlain_ofText _)
    (resolve_of_resolveRoot (rulesFor_eq_ok ruled).2.2.1)
  rw [root, Path.join_ofText plain comes.starts]

end Scan

/-! ### Tasks -/

def ScannedFile.task (root : String) (found : ScannedFile) : Task where
  path := found.file.path
  root := root
  content := found.content
  isBinary := found.file.isBinary
  language := none

theorem Disk.HasFile.hasZero {d : Disk} {p : Path} {data : Bytes} {modified : Int}
    (has : d.HasFile p data modified) : Disk.hasZero p = false := by
  have found := (stat_eq_ok has.told).2
  unfold lookUp at found
  split at found
  · cases found
  · rename_i fine
    simpa using fine

theorem Task.contentOf_eq {scan : ScanSettings} {path : String} {data : Bytes} {c : Classified}
    {content : String} (classified : Content.classify data path = .ok c)
    (listed : Scan.listedContent? scan path data c.content = some content) :
    contentOf scan path data = .ok (some content, c.content == .binary) := by
  obtain ⟨hash, size, kind⟩ := c
  unfold contentOf
  rw [classified]
  cases kind with
  | text encoding text =>
    rw [← show text = content from Option.some.inj listed]
    rfl
  | binary => exact congrArg (fun content => Except.ok (content, true)) listed

theorem ScannedFile.load_task {config : Config} {previous : Entries FileNode} {d : Disk}
    {rules : Scan.Rules} {r : ScanResult} (proper : d.IsProper) (still : d.IsStill)
    (ruled : Scan.rulesFor config previous d = .ok rules)
    (done : (Scan.scan config previous d).result = .ok r)
    {found : ScannedFile} (member : found ∈ r.files) (scanned : Scan.IsScanned rules d found) :
    (found.task r.root).refusal? = none ∧
      ∃ content, Scan.Reads rules d found.file.path found.file content ∧
        (found.task r.root).load config.scan d = (.ok (some content, found.file.isBinary), d) := by
  obtain ⟨content, reads, filled | ⟨absent, -⟩⟩ := scanned
  · refine ⟨?_, content, reads, ?_⟩
    · simp [task, Task.refusal?, filled]
    · simp [task, Task.load, filled]
  have file : (found.task r.root).file = rules.root.below found.file.path :=
    Scan.join_ofText_of_mem proper ruled done member
  have settings := (Scan.rulesFor_eq_ok ruled).1
  have fits := Scan.fits_of_mem proper ruled done member
  obtain ⟨data, modified, c, has, classified, listed, record⟩ := id reads
  have size : found.file.size = data.length := by
    rw [record, ← (Content.hash_of_classify classified).2]
    rfl
  rw [Scan.Fits, size] at fits
  have binary : found.file.isBinary = (c.content == .binary) := by
    rw [record]
    rfl
  refine ⟨?_, content, reads, ?_⟩
  · unfold Task.refusal?
    rw [file, has.hasZero, Bool.and_false]
    rfl
  · have read := has.readBounded still fits
    unfold Task.load
    rw [show (found.task r.root).content = none from absent, file, ← settings]
    simp only [read, binary, Except.bind]
    rw [← Task.contentOf_eq classified listed]
    rfl

end SourceIndex
