import SourceIndex.Proofs.FileSystem.Agree
import SourceIndex.Proofs.Scan.Once
/-!
# The counters of a scan

A visit counts a file as scanned, and as either processed, skipped or failed. Two kinds of entries
are counted without a visit: those that are neither file, directory nor link are skipped, and those
of which the system does not tell the real path have failed.
-/

namespace SourceIndex.Scan
variable {rules : Rules} {d : Disk}

/-! ### Entries that are counted without a visit -/

/-- The entries of a directory; none if it cannot be listed. -/
def Frame.entries (d : Disk) (frame : Frame) : List (String × Item) :=
  (d.list frame.directory).toOption.getD []

def isSpecial (entry : String × Item) : Bool := entry.2 == .special

/-- Whether the system does not tell the real path of a file or a directory. -/
def Frame.isRefused (d : Disk) (frame : Frame) (entry : String × Item) : Bool :=
  match entry.2 with
  | .directory | .file .. =>
    match d.resolve false (frame.directory.child entry.1) with
    | .error (.system ..) => true
    | _ => false
  | _ => false

def Frame.specials (d : Disk) (frame : Frame) : Nat := (frame.entries d).countP isSpecial

def Frame.refusals (d : Disk) (frame : Frame) : Nat :=
  (frame.entries d).countP (frame.isRefused d)

/-- The directories that a walk still comes to, in this order. -/
def Walk.directories (rules : Rules) (w : Walk) : List Frame :=
  match _h : w.next? rules with
  | some next => w.stack.take 1 ++ Walk.directories rules next
  | none => []
  termination_by w.weight rules
  decreasing_by exact Walk.weight_next _h

theorem Frame.entries_bare (d : Disk) (frame : Frame) :
    frame.entries d.bare = (frame.entries d).map fun entry => (entry.1, entry.2.bare) := by
  unfold entries
  rw [Disk.list_bare]
  cases d.list frame.directory with
  | error e => rfl
  | ok entries => rfl

theorem isSpecial_bare (entry : String × Item) :
    isSpecial (entry.1, entry.2.bare) = isSpecial entry := by
  obtain ⟨name, item⟩ := entry
  cases item <;> rfl

theorem Frame.isRefused_bare (d : Disk) (frame : Frame) (entry : String × Item) :
    frame.isRefused d (entry.1, entry.2.bare) = frame.isRefused d entry := by
  obtain ⟨name, item⟩ := entry
  cases item <;> rfl

theorem Frame.countP_of_bare {other : Disk} (same : other.bare = d.bare) (frame : Frame)
    {kind : String × Item → Bool} (blind : ∀ entry, kind (entry.1, entry.2.bare) = kind entry) :
    (frame.entries other).countP kind = (frame.entries d).countP kind := by
  have bare (d : Disk) : (frame.entries d.bare).countP kind = (frame.entries d).countP kind := by
    rw [entries_bare, List.countP_map]
    exact List.countP_congr fun entry _ => by rw [Function.comp_apply, blind]
  rw [← bare other, same, bare]

/-! ### Counting -/

/-- The files and errors of a tally are counted, and there are so many more outcomes than visits. -/
structure Tally.IsCounted (d : Disk) (ahead : Int) (t : Tally) : Prop where
  processed : t.counts.processed = t.files.length
  failed : t.counts.failed = t.errors.length
  outcomes : (t.counts.processed + t.counts.skippedFiles + t.counts.failed : Int) =
    t.counts.scanned + ahead
  disk : t.disk.bare = d.bare

variable {t after : Tally} {ahead : Int}

namespace Tally.IsCounted

theorem of_eq {more : Int} (counted : t.IsCounted d ahead) (same : ahead = more) :
    t.IsCounted d more := same ▸ counted

theorem note (counted : t.IsCounted d ahead) (line : LogLine) : (t.note line).IsCounted d ahead :=
  ⟨counted.processed, counted.failed, counted.outcomes, counted.disk⟩

theorem skipDirectory (counted : t.IsCounted d ahead) : t.skipDirectory.IsCounted d ahead :=
  ⟨counted.processed, counted.failed, counted.outcomes, counted.disk⟩

theorem skipLink (counted : t.IsCounted d ahead) : t.skipLink.IsCounted d ahead :=
  ⟨counted.processed, counted.failed, counted.outcomes, counted.disk⟩

theorem rejectLink (counted : t.IsCounted d ahead) (relative reason : String) :
    (t.rejectLink relative reason).IsCounted d ahead := (counted.note _).skipLink

theorem skipFile (counted : t.IsCounted d ahead) : t.skipFile.IsCounted d (ahead + 1) := by
  refine ⟨counted.processed, counted.failed, ?_, counted.disk⟩
  have before := counted.outcomes
  simp only [Tally.skipFile]
  omega

theorem fail (counted : t.IsCounted d ahead) (relative : String) (e : ReadError) :
    (t.fail relative e).IsCounted d (ahead + 1) := by
  have before := counted.outcomes
  refine ⟨counted.processed, ?_, ?_, counted.disk⟩
  · simp [Tally.fail, Tally.note, counted.failed]
  · simp only [Tally.fail, Tally.note]
    omega

theorem add (counted : t.IsCounted d ahead) (file : FileRecord) (content : Option String) :
    (t.add file content).IsCounted d (ahead + 1) := by
  have before := counted.outcomes
  refine ⟨?_, counted.failed, ?_, counted.disk⟩
  · simp [Tally.add, counted.processed]
  · simp only [Tally.add]
    omega

end Tally.IsCounted

/-! ### Files -/

variable {path : Path} {relative : String}

theorem counted_recording {size modified : Int} (counted : t.IsCounted d ahead)
    (recording : Recording rules path relative size modified t after) :
    after.IsCounted d (ahead + 1) := by
  have stays {outcome : Except ReadError Bytes} {disk : Disk}
      (read : t.disk.readBounded path rules.settings.maxFileBytes = (outcome, disk)) :
      Tally.IsCounted d ahead { t with disk } := by
    have bare := Disk.bare_readBounded t.disk path rules.settings.maxFileBytes
    rw [read] at bare
    exact ⟨counted.processed, counted.failed, counted.outcomes, bare.trans counted.disk⟩
  cases recording with
  | tooLarge line => exact (counted.note _).skipFile
  | leftOut same => exact counted.skipFile
  | reused => exact counted.add _ _
  | unread read => exact (stays read).fail relative _
  | undecoded read => exact (stays read).fail relative _
  | unlisted read => exact (stays read).skipFile
  | listed _ read => exact (stays read).add _ _

theorem counted_visitFile (counted : t.IsCounted d ahead) (realPath : Path) :
    (visitFile rules path relative realPath t).IsCounted d ahead := by
  have back : ahead - 1 + 1 = ahead := by omega
  have visited : t.visited.IsCounted d (ahead - 1) := by
    refine ⟨counted.processed, counted.failed, ?_, counted.disk⟩
    have before := counted.outcomes
    simp only [Tally.visited]
    omega
  have saw : (t.saw realPath).IsCounted d (ahead - 1) :=
    ⟨visited.processed, visited.failed, visited.outcomes, visited.disk⟩
  have visit := fileVisit rules path relative realPath t
  generalize visitFile rules path relative realPath t = after at visit ⊢
  cases visit with
  | passed => exact visited.skipFile.of_eq back
  | untold => exact (saw.fail relative _).of_eq back
  | recorded _ _ _ recording => exact (counted_recording saw recording).of_eq back

/-! ### Directories and links -/

theorem counted_childFrame (counted : t.IsCounted d ahead) (parent : Frame) (realPath : Path)
    (isLink : Bool) :
    (childFrame rules parent path relative realPath isLink t).2.IsCounted d ahead := by
  have stacking := stacking_childFrame rules parent path relative realPath isLink t
  generalize childFrame rules parent path relative realPath isLink t = step at stacking
  cases stacking with
  | unwanted => exact counted.skipDirectory
  | tooDeep line => exact (counted.note _).skipDirectory
  | stacked wanted shallow => exact counted

variable {frame : Frame} {finds : Finds}

theorem counted_unresolved (counted : t.IsCounted d ahead) {e : FileError}
    (step : unresolved relative e t = (.ok finds, after)) :
    ∃ code place, e = .system code place ∧ after.IsCounted d (ahead + 1) := by
  unfold unresolved at step
  split at step
  · rename_i code place
    cases step
    exact ⟨code, place, rfl, counted.fail relative _⟩
  · cases step

theorem counted_visitEntry (counted : t.IsCounted d ahead) {name : String} {item : Item}
    (step : visitEntry rules frame name item t = (.ok finds, after)) :
    after.IsCounted d (ahead + (if isSpecial (name, item) then 1 else 0) +
      (if frame.isRefused d (name, item) then 1 else 0)) := by
  have real := Disk.resolve_of_bare counted.disk false (frame.directory.child name)
  have visit := entryVisit rules frame name item t
  generalize visitEntry rules frame name item t = found at step visit
  simp only [isSpecial, Frame.isRefused, ← real]
  cases visit with
  | pending target =>
    cases step
    exact counted.of_eq (by simp)
  | skipped target =>
    cases step
    exact counted.skipLink.of_eq (by simp)
  | noDirectory refused =>
    obtain ⟨code, place, rfl, failed⟩ := counted_unresolved counted step
    exact failed.of_eq (by simp [refused])
  | directory resolved =>
    cases step
    exact (counted_childFrame counted frame _ false).of_eq (by simp [resolved])
  | noFile refused =>
    obtain ⟨code, place, rfl, failed⟩ := counted_unresolved counted step
    exact failed.of_eq (by simp [refused])
  | file resolved =>
    cases step
    exact (counted_visitFile counted _).of_eq (by simp [resolved])
  | special =>
    cases step
    exact counted.skipFile.of_eq (by simp)

theorem counted_visitEntries (counted : t.IsCounted d ahead) {entries : List (String × Item)}
    (steps : visitEntries rules frame entries t = (.ok finds, after)) :
    after.IsCounted d (ahead + entries.countP isSpecial + entries.countP (frame.isRefused d)) := by
  have visit := entriesVisit rules frame entries t
  generalize visitEntries rules frame entries t = result at visit steps
  induction visit generalizing finds ahead with
  | done t =>
    cases steps
    exact counted.of_eq (by simp)
  | breaks => cases steps
  | breaksLater => cases steps
  | @next name item _ _ _ _ _ _ step _ ih =>
    cases steps
    have one := counted_visitEntry counted step
    refine (ih one rfl).of_eq ?_
    rw [List.countP_cons, List.countP_cons]
    split <;> split <;> push_cast <;> omega

theorem counted_scanDirectory (counted : t.IsCounted d ahead)
    (step : scanDirectory rules frame t = (.ok finds, after)) :
    after.IsCounted d (ahead + frame.specials d + frame.refusals d) := by
  rw [Frame.specials, Frame.refusals, ← frame.countP_of_bare counted.disk isSpecial_bare,
    ← frame.countP_of_bare counted.disk (frame.isRefused_bare d), Frame.entries]
  unfold scanDirectory at step
  cases listed : t.disk.list frame.directory with
  | error e =>
    rw [listed] at step
    cases step
    exact ((counted.note _).skipDirectory).of_eq (by simp [Except.toOption])
  | ok entries =>
    rw [listed] at step
    exact counted_visitEntries counted step

theorem counted_visitLink (counted : t.IsCounted d ahead) (link : Pending) :
    (visitLink rules link t).2.IsCounted d ahead := by
  have visit := linkVisit rules link t
  generalize visitLink rules link t = step at visit
  cases visit with
  | rejected reason => exact counted.rejectLink _ _
  | directory leads fresh aside => exact counted_childFrame counted _ _ _
  | file leads => exact counted_visitFile counted _

/-! ### Walks -/

variable {w next : Walk}

def unvisited (d : Disk) (frames : List Frame) : Nat :=
  total (frames.map (·.specials d)) + total (frames.map (·.refusals d))

theorem Walk.counted_next (counted : w.tally.IsCounted d ahead)
    (step : w.next? rules = some next) :
    next.tally.IsCounted d (ahead + unvisited d (w.stack.take 1)) ∨
      next.broken ≠ none ∧ next.next? rules = none := by
  cases Walk.step_of_next? step with
  | broken => exact .inr ⟨by simp, rfl⟩
  | scanned stack scanned =>
    have more := counted_scanDirectory counted scanned
    exact .inl (more.of_eq (by simp [stack, unvisited]; omega))
  | followed stack pending =>
    exact .inl ((counted_visitLink counted _).of_eq (by simp [stack, unvisited]))

theorem Walk.directories_of_none (stops : w.next? rules = none) : w.directories rules = [] := by
  rw [Walk.directories]
  split
  · rename_i next step
    rw [stops] at step
    cases step
  · rfl

theorem Walk.directories_of_some (step : w.next? rules = some next) :
    w.directories rules = w.stack.take 1 ++ next.directories rules := by
  rw [Walk.directories]
  split
  · rename_i other same
    rw [step, Option.some.injEq] at same
    rw [same]
  · rename_i stops
    rw [step] at stops
    cases stops

theorem Walk.counted_finish (counted : w.tally.IsCounted d ahead)
    (whole : (w.finish rules).broken = none) :
    (w.finish rules).tally.IsCounted d (ahead + unvisited d (w.directories rules)) := by
  induction weight : w.weight rules using Nat.strongRecOn generalizing w ahead with
  | ind n ih =>
    cases step : w.next? rules with
    | none =>
      rw [Walk.finish_of_none step, Walk.directories_of_none step]
      exact counted.of_eq (by simp [unvisited])
    | some next =>
      rw [Walk.finish_of_some step] at whole ⊢
      rw [Walk.directories_of_some step]
      rcases Walk.counted_next counted step with more | ⟨broken, stops⟩
      · have last := ih _ (weight ▸ Walk.weight_next step) more whole rfl
        exact last.of_eq (by simp [unvisited]; omega)
      · rw [Walk.finish_of_none stops] at whole
        exact absurd whole broken

/-- The counters of a scan: each scanned file has one outcome, and so has each entry that is counted
without a visit. -/
theorem scan_counts {config : Config} {previous : Entries FileNode}
    (ruled : rulesFor config previous d = .ok rules) {r : ScanResult}
    (done : (scan config previous d).result = .ok r) :
    let walked := (Walk.start rules d).directories rules
    r.counts.processed = r.files.length ∧ r.counts.failed = r.errors.length ∧
      r.counts.processed + r.counts.skippedFiles + r.counts.failed =
        r.counts.scanned + total (walked.map (·.specials d)) + total (walked.map (·.refusals d)) := by
  obtain ⟨whole, shown⟩ := eq_of_result_eq_ok ruled done
  have start : (Walk.start rules d).tally.IsCounted d 0 := ⟨rfl, rfl, rfl, rfl⟩
  have counted := Walk.counted_finish start whole
  have outcomes := counted.outcomes
  rw [shown]
  refine ⟨?_, counted.failed, ?_⟩
  · rw [(sortFiles_perm _).length_eq]
    exact counted.processed
  · simp only [unvisited] at outcomes ⊢
    omega

/-- A file, a directory of which the system does not tell the real path, a device, and a link to
the file. -/
def mixedDisk : Disk where
  items := [(["ws"], .directory), (["ws", "a.txt"], .file [0x61] 1), (["ws", "d"], .directory),
    (["ws", "e"], .special), (["ws", "f.txt"], .link "a.txt")]
  defects := { resolve := [("/ws/d", 13)] }

theorem scan_counts_mixed :
    ∃ rules r, rulesFor linkedConfig [] mixedDisk = .ok rules ∧
      (scan linkedConfig [] mixedDisk).result = .ok r ∧
      r.counts = { scanned := 2, processed := 1, skippedFiles := 2, failed := 1 } ∧
      let walked := (Walk.start rules mixedDisk).directories rules
      total (walked.map (·.specials mixedDisk)) = 1 ∧ total (walked.map (·.refusals mixedDisk)) = 1 ∧
        r.counts.processed + r.counts.skippedFiles + r.counts.failed = r.counts.scanned +
          total (walked.map (·.specials mixedDisk)) + total (walked.map (·.refusals mixedDisk)) := by
  let rules : Rules := ⟨⟨1, ["ws"]⟩, linkedConfig.dataDir, linkedConfig.scan, [".txt"], []⟩
  have extensions : linkedConfig.scan.requiredExtensions = .ok [".txt"] := by decide +kernel
  have ruled : rulesFor linkedConfig [] mixedDisk = .ok rules := by
    rw [rulesFor, extensions, show resolveRoot mixedDisk linkedConfig.root.text = .ok ⟨1, ["ws"]⟩
      from by decide +kernel]
    rfl
  have names : mixedDisk.names ["ws"] = ["a.txt", "d", "e", "f.txt"] :=
    Disk.names_of_sorted (by decide +kernel) (by decide +kernel)
  have opened : mixedDisk.find true ⟨1, ["ws"]⟩ = .ok (["ws"], some .directory) := by rfl
  let entries := [("a.txt", Item.file [0x61] 1), ("d", .directory), ("e", .special),
    ("f.txt", .link "a.txt")]
  have listed : mixedDisk.list rules.root = .ok entries := by
    rw [Disk.list_of_find rfl (by decide +kernel) opened, names]
    rfl
  have step : (Walk.start rules mixedDisk).next? rules = some _ := Walk.next?_start listed
  obtain ⟨r, done, -⟩ := scan_of_list ruled listed (by decide +kernel)
  have shown := (eq_of_result_eq_ok ruled done).2
  have walked : (Walk.start rules mixedDisk).directories rules = [rootFrame rules.root] := by
    rw [Walk.directories_of_some step]
    decide +kernel
  have found : (rootFrame rules.root).entries mixedDisk = entries := by
    rw [Frame.entries, show mixedDisk.list (rootFrame rules.root).directory = _ from listed]
    rfl
  refine ⟨rules, r, ruled, done, ?_, ?_, ?_, (scan_counts ruled done).2.2⟩
  · rw [shown, Walk.finish_of_some step]
    decide +kernel
  · rw [walked, List.map_singleton, total_cons, total_nil, Frame.specials, found]
    decide
  · rw [walked, List.map_singleton, total_cons, total_nil, Frame.refusals, found]
    decide +kernel

end SourceIndex.Scan
