import SourceIndex.Proofs.Dispatch.Replay
import SourceIndex.Proofs.Scan.Reading
import SourceIndex.Proofs.Store.Run
/-!
# Refreshes until they store

Until an index is stored, a refresh loads what was stored before, scans and chunks. What no reading
of a file changes, none of these changes, whether they come to their end or break off.

So a refresh that fails before it comes to storing leaves the index as it was, whatever it failed
on. Its files are the same, and so is what is answered from them: the status, the tree and the
chunks. That a file grows while it is read is the work of someone else. If a file of the index does
so, it still begins with what it held.
-/

namespace SourceIndex
variable {γ : Type} {engine : Engine γ} {config : Config} {keeps : Disk → Prop} {w : World γ}

/-! ### Chunking and surveys -/

theorem Engine.keeps_chunkTasks (kept : Disk.KeptByReading keeps) (engine : Engine γ)
    (config : Config) (tasks : List Task) (holds : keeps w.disk) :
    keeps (engine.chunkTasks config tasks w).2.disk :=
  Dispatch.sound_process (Crew.ofEngine_keeps kept engine config.scan (.real .zero))
    config.dispatch tasks 0 holds

theorem Survey.keeps_run (kept : Disk.KeptByReading keeps) (config : Config)
    (reuse : Entries FileNode) (before : Option HashTree) (now : Moment) (holds : keeps w.disk) :
    keeps (run config reuse before now w).2.disk := by
  have scanned := Scan.keeps_scan kept config reuse holds
  unfold run
  simp only
  split
  · rwa [World.disk_notes]
  split
  · rwa [World.disk_notes]
  · rwa [World.disk_notes, World.disk_notes]

/-! ### Refreshes -/

namespace Store
variable {s : Store} {force : Bool} {now : Moment} {before : Before} {after : World γ}

theorem disk_loadBefore (s : Store) (force : Bool) (w : World γ) :
    (s.loadBefore force w).2.disk = w.disk := by
  unfold loadBefore
  split
  · rfl
  · rfl
  split
  · unfold loadTreeIfReadable
    split
    · rfl
    · split <;> rfl
  · rfl

theorem keeps_of_prepares (kept : Disk.KeptByReading keeps) {survey : Survey} {chunks : List Chunk}
    (prepares : Prepares engine config force now before w survey chunks after)
    (holds : keeps w.disk) : keeps after.disk := by
  obtain ⟨between, fresh, stats, surveyed, chunked, -⟩ := prepares
  have scanned := Survey.keeps_run kept config (reusable force before) before.tree now holds
  rw [surveyed] at scanned
  have read := Engine.keeps_chunkTasks kept engine config
    (survey.tasks fun path => (rechunked force survey).contains path) scanned
  rwa [chunked] at read

/-- A refresh comes as far as to store what it found. -/
def StartsStoring (s : Store) (engine : Engine γ) (config : Config) (force : Bool) (now : Moment)
    (w : World γ) : Prop :=
  ∃ before started survey chunks later, s.loadBefore force w = (.ok before, started) ∧
    Prepares engine config force now before started survey chunks later

theorem keeps_refreshFrom (kept : Disk.KeptByReading keeps)
    (early : ∀ survey chunks later,
      ¬ Prepares engine config force now before w survey chunks later) (holds : keeps w.disk) :
    ∃ e after, s.refreshFrom engine config force now before w = (.error e, after) ∧
      keeps after.disk := by
  have surveying := Survey.keeps_run kept config (reusable force before) before.tree now holds
  unfold refreshFrom
  cases surveyed : Survey.run config (reusable force before) before.tree now w with
  | mk result between =>
    rw [surveyed] at surveying
    cases result with
    | error e => exact ⟨e, between, rfl, surveying⟩
    | ok survey =>
      have chunking := Engine.keeps_chunkTasks kept engine config
        (survey.tasks fun path => (rechunked force survey).contains path) surveying
      unfold update
      simp only
      cases chunked : engine.chunkTasks config
          (survey.tasks fun path => (rechunked force survey).contains path) between with
      | mk result later =>
        rw [chunked] at chunking
        cases result with
        | error e => exact ⟨e, later, rfl, chunking⟩
        | ok found =>
          exact absurd ⟨between, found.1, found.2, surveyed, chunked, rfl⟩ (early survey _ later)

theorem keeps_refresh (kept : Disk.KeptByReading keeps)
    (early : ¬ StartsStoring s engine config force now w) (holds : keeps w.disk) :
    ∃ e after, s.refresh engine config force now w = (.error e, after) ∧ keeps after.disk := by
  have loading := disk_loadBefore s force w
  unfold refresh
  cases loaded : s.loadBefore force w with
  | mk result started =>
    rw [loaded] at loading
    rw [← loading] at holds
    cases result with
    | error e => exact ⟨e, started, rfl, holds⟩
    | ok before =>
      exact keeps_refreshFrom kept (fun survey chunks later prepares =>
        early ⟨before, started, survey, chunks, later, loaded, prepares⟩) holds

/-! ### What answers depend on -/

section
variable {d other : Disk}

theorem readManifest_eq (same : other.AnswersAs d s.manifestPath) :
    s.readManifest other = s.readManifest d := by
  unfold readManifest
  rw [same.hasAnything, same.readDocument]

theorem status_eq (same : other.AnswersAs d s.manifestPath) : s.status other = s.status d := by
  unfold status
  rw [readManifest_eq same]

theorem loadTree_eq (same : other.AnswersAs d s.treePath) : s.loadTree other = s.loadTree d := by
  unfold loadTree HashTree.load
  rw [same.hasAnything, same.readDocument]

theorem loadChunks_eq (manifest : other.AnswersAs d s.manifestPath)
    (chunks : other.AnswersAs d s.chunksPath) : s.loadChunks other = s.loadChunks d := by
  unfold loadChunks requireSchema chunksIn
  rw [readManifest_eq manifest, chunks.hasAnything, chunks.readAll]

end

/-! ### The index left as it was -/

/-- Two disks have the same index: its three files stand where they stood and hold what they held,
or are absent as before, and every answer from them is the same, or fails alike. -/
structure KeepsIndex (s : Store) (other d : Disk) : Prop where
  files : ∀ name ∈ fileNames, ∀ follow,
    other.find follow (s.directory.child name) = d.find follow (s.directory.child name)
  status : s.status other = s.status d
  tree : s.loadTree other = s.loadTree d
  chunks : s.loadChunks other = s.loadChunks d

theorem keepsIndex_of_isGrownFrom (grown : other.IsGrownFrom d)
    (fixed : ∀ name ∈ fileNames, d.IsFixed (s.directory.child name)) :
    s.KeepsIndex other d := by
  have answers (name : String) (member : name ∈ fileNames) :
      other.AnswersAs d (s.directory.child name) := grown.answersAs (fixed name member)
  have manifest := answers "manifest.json" (by decide)
  exact
    { files := fun name member follow => grown.find_eq (fixed name member) follow
      status := status_eq manifest
      tree := loadTree_eq (answers "merkle.json" (by decide))
      chunks := loadChunks_eq manifest (answers "chunks.jsonl" (by decide)) }

/-- With batches of no tasks, no refresh comes to storing. -/
theorem not_startsStoring_of_batchSize (nothing : config.dispatch.batchSize = 0) :
    ¬ StartsStoring s engine config force now w := by
  rintro ⟨before, started, survey, chunks, later, -, between, fresh, stats, -, chunked, -⟩
  unfold Engine.chunkTasks Dispatch.process Dispatch.outcomes Dispatch.groups? at chunked
  rw [if_pos nothing] at chunked
  cases chunked

/-- A refresh that does not come to storing fails. On the disk, nothing has changed but that files
may have grown while they were read, and the index is as it was unless it is among these files. -/
theorem keepsIndex_of_not_startsStoring (s : Store) (engine : Engine γ) (config : Config)
    (force : Bool) (now : Moment) (w : World γ)
    (early : ¬ StartsStoring s engine config force now w) :
    ∃ e after, s.refresh engine config force now w = (.error e, after) ∧
      after.disk.IsGrownFrom w.disk ∧
      ((∀ name ∈ fileNames, w.disk.IsFixed (s.directory.child name)) →
        s.KeepsIndex after.disk w.disk) := by
  obtain ⟨e, after, failed, grown⟩ :=
    keeps_refresh (Disk.keptByReading_isGrownFrom w.disk) early (.refl w.disk)
  exact ⟨e, after, failed, grown, keepsIndex_of_isGrownFrom grown⟩

/-- A file was added to an indexed workspace. A refresh with batches of no tasks fails, and the
index is still there. -/
theorem keepsIndex_of_not_startsStoring_added :
    ∃ e after tree, (ofConfig besideConfig).refresh
        (Engine.ofSettings besideConfig.chunking Grammars.absent)
        { besideConfig with dispatch := { batchSize := 0 } } false ⟨2000⟩ addedRound.before =
          (.error e, after) ∧
      after.disk = addedRound.before.disk ∧
      (ofConfig besideConfig).KeepsIndex after.disk addedRound.before.disk ∧
      (ofConfig besideConfig).loadTree after.disk = .ok (some tree) := by
  obtain ⟨-, still, -⟩ := addedRound_isUndisturbed
  obtain ⟨e, after, failed, grown, untouched⟩ := keepsIndex_of_not_startsStoring
    (ofConfig besideConfig) (Engine.ofSettings besideConfig.chunking Grammars.absent)
    { besideConfig with dispatch := { batchSize := 0 } } false ⟨2000⟩ addedRound.before
    (not_startsStoring_of_batchSize rfl)
  have same := untouched fun name _ => Disk.isFixed_of_isStill still _
  obtain ⟨tree, -, stored, -⟩ := index_emptyRound
  have stored := stored.of_lookUp (by decide +kernel) fun name _ item there =>
    lookUp_addedRound _ item there
  exact ⟨e, after, tree.normal, failed, grown.same still, same, same.tree.trans stored.loadTree⟩

end Store
end SourceIndex
