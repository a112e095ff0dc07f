import SourceIndex.Proofs.FileSystem.Growth
import SourceIndex.Proofs.Scan.Walk
/-!
# What a scan does to the disk

Of all that a scan does, only reading a file can change the disk, since the file may grow while it
is read. So what no reading changes, no scan changes, on any disk and wherever it breaks off.
-/

namespace SourceIndex.Scan
variable {keeps : Disk → Prop} {rules : Rules} {t : Tally}

/-! ### Files -/

theorem keeps_recording (kept : Disk.KeptByReading keeps) {path : Path} {relative : String}
    {size modified : Int} {after : Tally} (holds : keeps t.disk)
    (recording : Recording rules path relative size modified t after) : keeps after.disk := by
  have stays {outcome : Except ReadError Bytes} {disk : Disk}
      (read : t.disk.readBounded path rules.settings.maxFileBytes = (outcome, disk)) :
      keeps disk := by
    have holds := kept t.disk path rules.settings.maxFileBytes holds
    rwa [read] at holds
  cases recording with
  | tooLarge line => exact holds
  | leftOut same => exact holds
  | reused => exact holds
  | unread read => exact stays read
  | undecoded read => exact stays read
  | unlisted read => exact stays read
  | listed _ read => exact stays read

theorem keeps_visitFile (kept : Disk.KeptByReading keeps) (path : Path) (relative : String)
    (realPath : Path) (holds : keeps t.disk) :
    keeps (visitFile rules path relative realPath t).disk := by
  have visit := fileVisit rules path relative realPath t
  generalize visitFile rules path relative realPath t = after at visit ⊢
  have saw : keeps (t.saw realPath).disk := holds
  cases visit with
  | passed => exact holds
  | untold => exact holds
  | recorded _ _ _ recording => exact keeps_recording kept saw recording

/-! ### Directories and links -/

theorem disk_unresolved (relative : String) (e : FileError) (t : Tally) :
    (unresolved relative e t).2.disk = t.disk := by
  unfold unresolved
  split <;> rfl

theorem keeps_visitEntry (kept : Disk.KeptByReading keeps) (frame : Frame) (name : String)
    (item : Item) (holds : keeps t.disk) :
    keeps (visitEntry rules frame name item t).2.disk := by
  have visit := entryVisit rules frame name item t
  generalize visitEntry rules frame name item t = step at visit
  cases visit with
  | pending target => exact holds
  | skipped target => exact holds
  | noDirectory refused => rwa [disk_unresolved]
  | directory resolved => rwa [(childFrame_same ..).1]
  | noFile refused => rwa [disk_unresolved]
  | file resolved => exact keeps_visitFile kept _ _ _ holds
  | special => exact holds

theorem keeps_visitEntries (kept : Disk.KeptByReading keeps) (frame : Frame)
    (entries : List (String × Item)) (holds : keeps t.disk) :
    keeps (visitEntries rules frame entries t).2.disk := by
  have here {name : String} {item : Item} {t : Tally} {result : Finding × Tally}
      (holds : keeps t.disk) (step : visitEntry rules frame name item t = result) :
      keeps result.2.disk := step ▸ keeps_visitEntry kept frame name item holds
  have visit := entriesVisit rules frame entries t
  generalize visitEntries rules frame entries t = result at visit ⊢
  induction visit with
  | done => exact holds
  | breaks step => exact here holds step
  | breaksLater step _ ih => exact ih (here holds step)
  | next step _ ih => exact ih (here holds step)

theorem keeps_scanDirectory (kept : Disk.KeptByReading keeps) (frame : Frame)
    (holds : keeps t.disk) : keeps (scanDirectory rules frame t).2.disk := by
  unfold scanDirectory
  split
  · exact holds
  · exact keeps_visitEntries kept frame _ holds

theorem keeps_visitLink (kept : Disk.KeptByReading keeps) (link : Pending)
    (holds : keeps t.disk) : keeps (visitLink rules link t).2.disk := by
  have visit := linkVisit rules link t
  generalize visitLink rules link t = step at visit
  cases visit with
  | rejected reason => exact holds
  | directory leads fresh aside => rwa [(childFrame_same ..).1]
  | file leads => exact keeps_visitFile kept _ _ _ holds

/-! ### Walks -/

theorem Walk.keeps_disk_next (kept : Disk.KeptByReading keeps) {w next : Walk}
    (step : w.next? rules = some next) (holds : keeps w.tally.disk) : keeps next.tally.disk := by
  have ends {frame : Frame} {result : Finding × Tally}
      (scanned : scanDirectory rules frame w.tally = result) : keeps result.2.disk :=
    scanned ▸ keeps_scanDirectory kept frame holds
  cases Walk.step_of_next? step with
  | broken _ scanned => exact ends scanned
  | scanned _ scanned => exact ends scanned
  | @followed link => exact keeps_visitLink kept link holds

theorem Walk.keeps_disk_finish (kept : Disk.KeptByReading keeps) {w : Walk}
    (holds : keeps w.tally.disk) : keeps (w.finish rules).tally.disk := by
  -- On the weight of what is still to be walked, by which the walk itself ends.
  induction weight : w.weight rules using Nat.strongRecOn generalizing w with
  | ind n ih =>
    cases step : w.next? rules with
    | none =>
      rw [Walk.finish_of_none step]
      exact holds
    | some next =>
      rw [Walk.finish_of_some step]
      exact ih _ (weight ▸ Walk.weight_next step) (Walk.keeps_disk_next kept step holds) rfl

theorem keeps_scan (kept : Disk.KeptByReading keeps) (config : Config)
    (previous : Entries FileNode) {d : Disk} (holds : keeps d) :
    keeps (scan config previous d).disk := by
  unfold scan
  split
  · exact holds
  · exact Walk.keeps_disk_finish kept holds

end SourceIndex.Scan
