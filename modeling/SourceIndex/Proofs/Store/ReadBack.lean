import SourceIndex.Proofs.Store.Early
import SourceIndex.Proofs.Store.Pass
/-!
# A refreshed index is read back

After a refresh, the tree and the chunks that are loaded are those that it wrote, and the status
goes with them. What can get in the way are links in the index directory: a file that is written
through one ends up elsewhere, and if the directory itself is only reached over one, it is lost when
a file takes the place of the link.

Until an index is stored, loading what was stored, scanning and chunking change at most what files
hold, since files may grow while they are read. So what is in the way is there from the start.
-/

namespace SourceIndex.Store
variable {γ : Type} {s : Store} {d other : Disk}

/-! ### What is in the way -/

theorem isClear_bare : IsClear s d.bare ↔ IsClear s d := by
  have making : d.bare.makeDirectories s.directory =
      (d.makeDirectories s.directory).map Disk.bare := Disk.makeDirectory_bare ..
  constructor
  · rintro ⟨told, around, temporary⟩
    refine ⟨told, fun made place done reaches => ?_, fun made place done reaches name member => ?_⟩
    all_goals rw [done] at making
    · have clear := around made.bare place making (Disk.reaches_bare.mpr reaches)
      rwa [← Disk.bare_withoutLinks, Disk.reaches_bare] at clear
    · have ordinary := temporary made.bare place making (Disk.reaches_bare.mpr reaches) name member
      rwa [Disk.isOrdinary_bare] at ordinary
  · rintro ⟨told, around, temporary⟩
    refine ⟨told, fun made place done reaches => ?_, fun made place done reaches name member => ?_⟩
    all_goals
      rw [done] at making
      obtain ⟨own, same, rfl⟩ := eq_ok_of_map making.symm
      rw [Disk.reaches_bare] at reaches
    · rw [← Disk.bare_withoutLinks, Disk.reaches_bare]
      exact around own place same reaches
    · rw [Disk.isOrdinary_bare]
      exact temporary own place same reaches name member

theorem IsClear.of_bare (clear : IsClear s d) (same : other.bare = d.bare) : IsClear s other := by
  rw [← isClear_bare, same, isClear_bare]
  exact clear

/-! ### What is loaded -/

variable {now : Moment} {tree : HashTree} {chunks : List Chunk}

open Chunk (sortByAddress)

/-- The tree that is loaded from a disk has the same object as the given one, but for the order of
keys, the chunks have the same objects in the same order, and the status counts what is loaded. -/
def ReadsBack (s : Store) (d : Disk) (now : Moment) (tree : HashTree) (chunks : List Chunk) :
    Prop :=
  ∃ loaded rows, s.loadTree d = .ok (some loaded) ∧
    Json.stored loaded.toJson = Json.stored tree.toJson ∧
    s.loadChunks d = .ok rows ∧ rows.map Chunk.toJson = chunks.map Chunk.toJson ∧
    s.status d = .ok (.ready (some now.text) (.nat loaded.files.length) (.nat rows.length)
      (some loaded.rootHash))

theorem IsStored.readsBack (stored : IsStored s d tree chunks)
    (has : HasLines d s.manifestPath
      [(Manifest.toJson ⟨now, tree.files.length, chunks.length, tree.rootHash⟩)])
    (sorted : sortByAddress chunks = chunks) : ReadsBack s d now tree chunks := by
  have rows : sortByAddress (chunks.map Chunk.normal) = chunks.map Chunk.normal := by
    rw [Chunk.sortByAddress_map_normal, sorted]
  have files : tree.normal.files.length = tree.files.length :=
    (Entries.sort_perm tree.files).length_eq
  refine ⟨tree.normal, chunks.map Chunk.normal, stored.loadTree, tree.stored_toJson_normal, ?_, ?_,
    ?_⟩
  · rw [stored.loadChunks, rows]
  · rw [List.map_map]
    exact List.map_congr_left fun c _ => c.toJson_normal
  · rw [files, List.length_map, status_of_hasLines has]
    rfl

/-! ### Refreshes -/

/-- A refresh that succeeds has stored the tree of its survey and the chunks that it sorted. They
are read back as they are, if nothing is in the way in the index directory. -/
theorem reads_back_of_refresh (engine : Engine γ) (config : Config) (s : Store) (force : Bool)
    (now : Moment) (w after : World γ) (summary : Summary) (proper : w.disk.IsProper)
    (clear : IsClear s w.disk)
    (done : s.refresh engine config force now w = (.ok summary, after)) :
    ∃ before started chunks later, s.loadBefore force w = (.ok before, started) ∧
      Prepares engine config force now before started summary.survey chunks later ∧
      s.save now summary.survey chunks later = (.ok (), after) ∧
      ReadsBack s after.disk now summary.survey.tree chunks := by
  unfold refresh at done
  split at done
  · cases done
  rename_i before started loaded
  have disk : started.disk = w.disk := by
    rw [← disk_loadBefore s force w, loaded]
  obtain ⟨chunks, later, prepares, saved⟩ := saves_of_refreshFrom done
  have bare : later.disk.bare = w.disk.bare :=
    keeps_of_prepares (Disk.keptByReading_bare w.disk) prepares (congrArg Disk.bare disk)
  obtain ⟨between, fresh, stats, surveyed, chunked, sorted⟩ := id prepares
  have regular := (Survey.isTreeOf_of_run (congrArg Prod.fst surveyed)).isRegular
  obtain ⟨stored, manifest, -⟩ :=
    isStored_of_save (clear.of_bare bare) (proper.of_bare bare).tree regular saved
  refine ⟨before, started, chunks, later, loaded, prepares, saved, stored.readsBack manifest ?_⟩
  rw [sorted, Chunk.sortByAddress_sortByAddress]

/-- The index of a workspace to which a file was added is read back. -/
theorem reads_back_of_refresh_added : ∃ summary after chunks,
    (ofConfig besideConfig).refresh (Engine.ofSettings besideConfig.chunking Grammars.absent)
      besideConfig false ⟨2000⟩ addedRound.before = (.ok summary, after) ∧
    ReadsBack (ofConfig besideConfig) after.disk ⟨2000⟩ summary.survey.tree chunks := by
  obtain ⟨proper, -, tidy⟩ := addedRound_isUndisturbed
  obtain ⟨summary, after, done⟩ := refresh_addedRound false
  obtain ⟨before, started, chunks, later, -, -, -, readsBack⟩ :=
    reads_back_of_refresh _ besideConfig (ofConfig besideConfig) false ⟨2000⟩ addedRound.before
      after summary proper tidy.isClear done
  exact ⟨summary, after, chunks, done, readsBack⟩

/-! ### What gets in the way -/

def refreshBeside (d : Disk) : Except IndexError Summary × World Unit :=
  (ofConfig besideConfig).refresh (Engine.ofSettings besideConfig.chunking Grammars.absent)
    besideConfig false ⟨1000⟩ ⟨d, ⟨(), [], []⟩⟩

def LosesTree (d : Disk) : Prop :=
  d.IsProper ∧ ∃ summary after, refreshBeside d = (.ok summary, after) ∧
    ∀ tree, (ofConfig besideConfig).loadTree after.disk ≠ .ok (some tree)

theorem losesTree_of_checks {d : Disk} (proper : d.IsProper)
    (checks : ((refreshBeside d).1.isOk && ((ofConfig besideConfig).loadTree
      (refreshBeside d).2.disk).toOption.join.isNone) = true) : LosesTree d := by
  obtain ⟨succeeds, lost⟩ := Bool.and_eq_true_iff.mp checks
  refine ⟨proper, ?_⟩
  cases result : refreshBeside d with
  | mk outcome after =>
    rw [result] at succeeds lost
    cases outcome with
    | error e => cases succeeds
    | ok summary =>
      refine ⟨summary, after, rfl, fun tree loaded => ?_⟩
      rw [loaded] at lost
      cases lost

/-- A disk with an empty workspace, an index directory and something in it. -/
def indexDisk (items : List (Place × Item)) : Disk where
  items := [(["ws"], .directory), (["data"], .directory), (["data", "index"], .directory)] ++ items

/-- The tree is written through a link to where the chunks come to stand. -/
def linkedDisk : Disk := indexDisk [(["data", "index", "merkle.json.tmp"], .link "chunks.jsonl")]

def deviceDisk : Disk := indexDisk [(["data", "index", "merkle.json.tmp"], .special)]

/-- The index directory is reached over a link in it that leads back to it through a chain of links,
and the manifest takes the place of this link. Before, the manifest stands behind too many links, so
that it counts as absent. -/
def chainDisk : Disk where
  items :=
    let links := (List.range 20).map fun n => "l" ++ toString (n + 1)
    [(["ws"], .directory), (["data"], .directory), (["real"], .directory),
     (["data", "index"], .link "../real/manifest.json/."),
     (["real", "manifest.json"], .link "l1")] ++
    (links.zip (links.tail ++ ["."])).map fun link => (["real", link.1], .link link.2)

def untoldDisk : Disk :=
  { indexDisk [] with
    defects := { stat := [("/data/index/merkle.json", 13)] } }

/-- A refresh can succeed and leave no tree to load. -/
theorem losesTree_disturbed : LosesTree linkedDisk ∧ LosesTree deviceDisk ∧
    LosesTree chainDisk ∧ LosesTree untoldDisk :=
  ⟨losesTree_of_checks (by decide +kernel) (by decide +kernel),
    losesTree_of_checks (by decide +kernel) (by decide +kernel),
    losesTree_of_checks (by decide +kernel) (by decide +kernel),
    losesTree_of_checks (by decide +kernel) (by decide +kernel)⟩

end SourceIndex.Store
