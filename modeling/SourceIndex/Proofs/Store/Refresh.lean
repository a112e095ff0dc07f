import SourceIndex.Proofs.Store.Merge
import SourceIndex.Proofs.Store.Stored
/-!
# One refresh

A refresh that succeeds stores the tree of a full scan and the chunks of all files, where the old
chunks are taken over for the files that have not changed.
-/

namespace SourceIndex.Store
variable {γ : Type} {engine : Engine γ} {config : Config} {s : Store} {w after : World γ}
  {force : Bool} {now : Moment} {before : Before} {summary : Summary}

open Chunk (sortByAddress)

/-! ### The steps of a refresh -/

/-- A refresh has found a survey and chunks, which it is about to store. -/
def Prepares (engine : Engine γ) (config : Config) (force : Bool) (now : Moment) (before : Before)
    (w : World γ) (survey : Survey) (chunks : List Chunk) (later : World γ) : Prop :=
  ∃ between fresh stats,
    Survey.run config (reusable force before) before.tree now w = (.ok survey, between) ∧
      engine.chunkTasks config
          (survey.tasks fun path => (rechunked force survey).contains path) between =
        (.ok (fresh, stats), later) ∧
        chunks = sortByAddress (kept survey before.chunks ++ fresh)

theorem update_eq_ok {survey : Survey}
    (done : s.update engine config force now before survey w = (.ok summary, after)) :
    summary.survey = survey ∧ ∃ fresh stats later, engine.chunkTasks config
        (survey.tasks fun path => (rechunked force survey).contains path) w =
          (.ok (fresh, stats), later) ∧
      s.save now survey (sortByAddress (kept survey before.chunks ++ fresh)) later =
        (.ok (), after) := by
  unfold update at done
  simp only at done
  split at done
  · cases done
  rename_i fresh stats later chunked
  split at done
  · cases done
  rename_i last saved
  rw [Prod.mk.injEq, Except.ok.injEq] at done
  exact ⟨congrArg Summary.survey done.1.symm, fresh, stats, later, chunked, done.2 ▸ saved⟩

theorem refresh_of_loadBefore (loaded : s.loadBefore force w = (.ok before, w)) :
    s.refresh engine config force now w = s.refreshFrom engine config force now before w := by
  unfold refresh
  rw [loaded]

theorem saves_of_refreshFrom
    (done : s.refreshFrom engine config force now before w = (.ok summary, after)) :
    ∃ chunks later, Prepares engine config force now before w summary.survey chunks later ∧
      s.save now summary.survey chunks later = (.ok (), after) := by
  unfold refreshFrom at done
  split at done
  · cases done
  rename_i survey between surveyed
  obtain ⟨rfl, fresh, stats, later, chunked, saved⟩ := update_eq_ok done
  exact ⟨_, later, ⟨between, fresh, stats, surveyed, chunked, rfl⟩, saved⟩

theorem refreshFrom_eq_ok
    (done : s.refreshFrom engine config force now before w = (.ok summary, after)) :
    ∃ survey chunks later, Prepares engine config force now before w survey chunks later ∧
      s.save now survey chunks later = (.ok (), after) :=
  ⟨summary.survey, saves_of_refreshFrom done⟩

theorem refreshFrom_of_prepares {survey : Survey} {chunks : List Chunk} {later : World γ}
    (prepares : Prepares engine config force now before w survey chunks later)
    (saved : s.save now survey chunks later = (.ok (), after)) :
    ∃ summary, s.refreshFrom engine config force now before w = (.ok summary, after) := by
  obtain ⟨between, fresh, stats, surveyed, chunked, rfl⟩ := prepares
  unfold refreshFrom update
  simp only [surveyed, chunked, saved]
  exact ⟨_, rfl⟩

/-! ### What a refresh finds -/

/-- A world in which nothing disturbs a refresh: the disk stays as it is, no file is in the way in
the index directory, and what counts as loaded is. -/
structure IsCalm (engine : Engine γ) (s : Store) (w : World γ) : Prop where
  proper : w.disk.IsProper
  still : w.disk.IsStill
  tidy : IsTidy s w.disk
  honest : w.session.IsHonest engine.grammars

/-- What a refresh starts from: old chunks are in order, and there are none if it is forced. -/
structure Before.IsSound (force : Bool) (before : Before) : Prop where
  sorted : before.chunks.Pairwise fun a b => a.isNoLater b = true
  forced : force = true → before.chunks = []

theorem reusable_eq (force : Bool) (before : Before) :
    reusable force before = if force then [] else filesOf before.tree := rfl

theorem content_of_rechunked {d : Disk} {rules : Scan.Rules} {full : ScanResult} {survey : Survey}
    (right : survey.IsRight config (reusable force before) before.tree d rules full)
    {found : ScannedFile} (member : found ∈ survey.scan.files)
    (chosen : (rechunked force survey).contains found.file.path = true) : found.content ≠ none := by
  intro absent
  have hash := right.hashOf?_reuse member absent
  have again := (mem_rechunked _ right (right.get?_tree member)).mp (List.contains_iff_mem.mp chosen)
  rw [reusable_eq] at hash
  cases force with
  | true => cases hash
  | false => exact again.resolve_left Bool.false_ne_true hash

def ReusesRight (config : Config) (force : Bool) (before : Before) (d : Disk) : Prop :=
  ∀ rules, Scan.rulesFor config (reusable force before) d = .ok rules → rules.AreRight d

theorem merged_of_prepares {survey : Survey} {chunks : List Chunk} {later : World γ}
    (pure : engine.grammars.IsPure) (batch : 0 < config.dispatch.batchSize)
    (workers : 0 < config.dispatch.maxWorkers) (calm : IsCalm engine s w)
    (reusesRight : ReusesRight config force before w.disk)
    (prepares : Prepares engine config force now before w survey chunks later) :
    later.IsFit engine.grammars w.disk ∧ ∃ rules full,
      survey.IsRight config (reusable force before) before.tree w.disk rules full ∧
        chunks = merged engine w.session force survey full before.chunks := by
  obtain ⟨between, fresh, stats, surveyed, chunked, rfl⟩ := prepares
  obtain ⟨disk, same, rules, full, right⟩ :=
    Survey.run_eq_ok calm.proper calm.still reusesRight rfl surveyed
  have fit : between.IsFit engine.grammars w.disk :=
    ⟨disk, Engine.isHonest_of_loaded_eq calm.honest same⟩
  have filled : ∀ task ∈ survey.tasks fun path => (rechunked force survey).contains path,
      task.content ≠ none := by
    intro task member
    obtain ⟨found, among, rfl⟩ := List.mem_map.mp member
    obtain ⟨scanned, chosen⟩ := List.mem_filter.mp among
    exact content_of_rechunked right scanned chosen
  obtain ⟨chunks, fit'⟩ := Engine.chunkTasks_eq_ok pure calm.still fit batch workers filled chunked
  have files := right.filter_files (fun path => (rechunked force survey).contains path)
    fun found member chosen => content_of_rechunked right member chosen
  refine ⟨fit', rules, full, right, ?_⟩
  rw [merged, chunks, Engine.flatMap_tasks, files,
    Engine.chunksOfFiles_eq pure fit.honest calm.honest]

/-! ### What a refresh leaves -/

/-- What a refresh that succeeds has found and stored. -/
structure Refreshed (engine : Engine γ) (config : Config) (s : Store) (force : Bool)
    (before : Before) (w after : World γ) (survey : Survey) (rules : Scan.Rules)
    (full : ScanResult) : Prop where
  right : survey.IsRight config (reusable force before) before.tree w.disk rules full
  stored : IsStored s after.disk survey.tree
    (merged engine w.session force survey full before.chunks)
  honest : after.session.IsHonest engine.grammars

theorem refreshed_of_refresh (pure : engine.grammars.IsPure)
    (batch : 0 < config.dispatch.batchSize) (workers : 0 < config.dispatch.maxWorkers)
    (calm : IsCalm engine s w) (loaded : s.loadBefore force w = (.ok before, w))
    (reusesRight : ReusesRight config force before w.disk)
    (done : s.refresh engine config force now w = (.ok summary, after)) :
    ∃ survey rules full, Refreshed engine config s force before w after survey rules full := by
  rw [refresh_of_loadBefore loaded] at done
  obtain ⟨survey, chunks, later, prepares, saved⟩ := refreshFrom_eq_ok done
  obtain ⟨fit, rules, full, right, rfl⟩ :=
    merged_of_prepares pure batch workers calm reusesRight prepares
  obtain ⟨stored, -, session⟩ := isStored_of_save (fit.disk.symm ▸ calm.tidy).isClear
    (fit.disk.symm ▸ calm.proper.tree) right.tree.isRegular saved
  exact ⟨survey, rules, full, right, stored, session ▸ fit.honest⟩

/-! ### Full passes -/

variable {grammars : Grammars γ} {d : Disk}

theorem content_of_fresh {tree : Option HashTree} {rules : Scan.Rules} {full : ScanResult}
    {survey : Survey} (right : survey.IsRight config [] tree d rules full) {found : ScannedFile}
    (member : found ∈ survey.scan.files) : found.content ≠ none := by
  intro absent
  cases right.hashOf?_reuse member absent

end SourceIndex.Store
