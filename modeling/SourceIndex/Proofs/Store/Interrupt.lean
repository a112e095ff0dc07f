import SourceIndex.Proofs.Store.Run
/-!
# Interrupted refreshes

A refresh that is interrupted while it stores an index leaves some of its files new and the others
old. The next refresh goes by the tree, which is put in place first. So it comes to the right chunks
unless it finds the new tree beside old chunks that are not right.
-/

namespace SourceIndex.Store
variable {γ : Type} {engine : Engine γ} {config : Config} {s : Store} {now : Moment}

open Chunk (normal withPath sortByAddress)

/-! ### The index directory while an index is stored -/

section
variable {d next : Disk} {place : Place} {name : String} {values : List Json}
  {tree newTree : HashTree} {chunks newChunks : List Chunk}

structure Shelved (s : Store) (place : Place) (d : Disk) (tree : HashTree) (chunks : List Chunk) :
    Prop where
  told : ∀ name ∈ fileNames, Disk.defect? (s.directory.child name) d.defects.stat = none
  opens : d.Opens s.directory place
  treeFile : Holds s place d "merkle.json" [tree.toJson]
  chunksFile : Holds s place d "chunks.jsonl" (chunks.map Chunk.toJson)
  manifestFile : ∃ manifest : Manifest, Holds s place d "manifest.json" [manifest.toJson]

namespace Shelved

theorem isStored (shelved : Shelved s place d tree chunks) (regular : tree.IsRegular) :
    IsStored s d tree chunks := by
  have lines {name : String} {values : List Json} (member : name ∈ fileNames)
      (holds : Holds s place d name values) : HasLines d (s.directory.child name) values :=
    holds.hasLines shelved.opens member (shelved.told name member)
  obtain ⟨manifest, manifestFile⟩ := shelved.manifestFile
  exact ⟨regular, lines (by decide) shelved.treeFile, lines (by decide) shelved.chunksFile,
    manifest, lines (by decide) manifestFile⟩

theorem of_unplaced (shelved : Shelved s place d tree chunks) (member : name ∈ fileNames)
    (unplaced : Unplaced d s.directory place name next) : Shelved s place next tree chunks := by
  have stays {other : String} {items : List Json} (among : other ∈ fileNames)
      (holds : Holds s place d other items) : Holds s place next other items := by
    obtain ⟨modified, file⟩ := holds.file
    refine ⟨holds.noZero, holds.short, holds.writable, modified, ?_⟩
    rw [unplaced.others, file]
    by_cases same : other = name
    · rw [same]
      simpa using (temporaryName_ne name).symm
    · simpa using (names_apart among member same).1
  obtain ⟨manifest, manifestFile⟩ := shelved.manifestFile
  refine ⟨?_, unplaced.opens, stays (by decide) shelved.treeFile,
    stays (by decide) shelved.chunksFile, manifest, stays (by decide) manifestFile⟩
  rw [unplaced.defects]
  exact shelved.told

theorem put_tree (shelved : Shelved s place d tree chunks)
    (placed : Placed now d s.directory place "merkle.json" [newTree.toJson] next) :
    Shelved s place next newTree chunks := by
  obtain ⟨manifest, manifestFile⟩ := shelved.manifestFile
  refine ⟨?_, placed.opens, holds_of_placed placed,
    shelved.chunksFile.of_placed (by decide) (by decide) (by decide) placed,
    manifest, manifestFile.of_placed (by decide) (by decide) (by decide) placed⟩
  rw [placed.defects]
  exact shelved.told

theorem put_chunks (shelved : Shelved s place d tree chunks)
    (placed : Placed now d s.directory place "chunks.jsonl" (newChunks.map Chunk.toJson) next) :
    Shelved s place next tree newChunks := by
  obtain ⟨manifest, manifestFile⟩ := shelved.manifestFile
  refine ⟨?_, placed.opens,
    shelved.treeFile.of_placed (by decide) (by decide) (by decide) placed, holds_of_placed placed,
    manifest, manifestFile.of_placed (by decide) (by decide) (by decide) placed⟩
  rw [placed.defects]
  exact shelved.told

theorem put_manifest (shelved : Shelved s place d tree chunks) {manifest : Manifest}
    (placed : Placed now d s.directory place "manifest.json" [manifest.toJson] next) :
    Shelved s place next tree chunks := by
  refine ⟨?_, placed.opens,
    shelved.treeFile.of_placed (by decide) (by decide) (by decide) placed,
    shelved.chunksFile.of_placed (by decide) (by decide) (by decide) placed,
    manifest, holds_of_placed placed⟩
  rw [placed.defects]
  exact shelved.told

end Shelved

theorem holds_of_hasLines {made : Disk} (isMade : Disk.Made d s.directory made)
    (reaches : made.Reaches s.directory place) (member : name ∈ fileNames)
    (ordinary : made.IsOrdinary (place ++ [name]))
    (has : HasLines d (s.directory.child name) values) : Holds s place made name values := by
  obtain ⟨modified, file⟩ := has.file
  obtain ⟨noZero, goal, found⟩ := Disk.lookUp_eq_ok file
  have there := Disk.find_of_stays isMade.stays isMade.here found
  have child := Disk.find_child true reaches (isIndexName_of_mem member).final
    fun target isLink => absurd isLink (ordinary.noLink target)
  rw [there] at child
  split at child
  · cases child
  · rename_i short
    rw [Except.ok.injEq, Prod.mk.injEq] at child
    exact ⟨noZero, short, has.writable, modified, child.2.symm⟩

theorem shelved_of_isStored {made : Disk} (tidy : IsTidy s d) (isTree : d.IsTree)
    (done : d.makeDirectories s.directory = .ok made) (opens : made.Opens s.directory place)
    (stored : IsStored s d tree chunks) : Shelved s place made tree chunks := by
  have isMade := Disk.made_makeDirectory isTree done
  have holds {name : String} {values : List Json} (member : name ∈ fileNames)
      (has : HasLines d (s.directory.child name) values) : Holds s place made name values :=
    holds_of_hasLines isMade opens.reaches member
      (tidy.ordinary made place done opens.reaches name member).1 has
  obtain ⟨manifest, manifestFile⟩ := stored.manifestFile
  refine ⟨?_, opens, holds (by decide) stored.treeFile, holds (by decide) stored.chunksFile,
    manifest, holds (by decide) manifestFile⟩
  rw [isMade.defects]
  exact tidy.told

/-! ### Stops -/

theorem placed_of_stops_of_ready {done : Nat} {rest : List Write} {stopped : Disk}
    (ready : IsReady s d place) (member : name ∈ fileNames)
    (stops : Stops now done (Write.atOnce (s.directory.child name) values ++ rest) d stopped) :
    done < 2 ∧ Unplaced d s.directory place name stopped ∨
      ∃ between more, done = more + 2 ∧ Placed now d s.directory place name values between ∧
        IsReady s between place ∧ Stops now more rest between stopped := by
  rcases placed_of_stops ready.opens (isIndexName_of_mem member) (ready.around_file member)
    (ready.temporary name member) stops with before | ⟨between, more, count, placed, later⟩
  · exact .inl before
  · exact .inr ⟨between, more, count, placed, ready.of_placed member placed, later⟩

/-- Wherever storing an index stops, a whole index is left: the new tree counts from the third change
on, and the new chunks from the fifth one on. -/
theorem isStored_of_stops {done : Nat} {manifest : Manifest} {stopped : Disk}
    (tidy : IsTidy s d) (isTree : d.IsTree) (stored : IsStored s d tree chunks)
    (regular : newTree.IsRegular)
    (stops : Stops now done (s.writes manifest newTree newChunks) d stopped) :
    IsStored s stopped (if 3 ≤ done then newTree else tree)
      (if 5 ≤ done then newChunks else chunks) := by
  unfold writes at stops
  rw [List.cons_append, List.cons_append] at stops
  cases stops with
  | here => exact stored
  | later made stops =>
    have made := Write.ofResult_eq_ok made
    obtain ⟨place, ready⟩ := tidy.isClear.isReady isTree made
    have shelved := shelved_of_isStored tidy isTree made ready.opens stored
    rw [List.append_assoc] at stops
    rcases placed_of_stops_of_ready ready (by decide) stops with
      ⟨few, unplaced⟩ | ⟨first, more, rfl, placed, ready, stops⟩
    · rw [if_neg (by omega), if_neg (by omega)]
      exact (shelved.of_unplaced (by decide) unplaced).isStored stored.regular
    have shelved := shelved.put_tree placed
    rw [if_pos (by omega)]
    rcases placed_of_stops_of_ready ready (by decide) stops with
      ⟨few, unplaced⟩ | ⟨second, more, rfl, placed, ready, stops⟩
    · rw [if_neg (by omega)]
      exact (shelved.of_unplaced (by decide) unplaced).isStored regular
    have shelved := shelved.put_chunks placed
    rw [if_pos (by omega)]
    rw [← List.append_nil (Write.atOnce s.manifestPath _)] at stops
    rcases placed_of_stops_of_ready ready (by decide) stops with
      ⟨few, unplaced⟩ | ⟨third, more, rfl, placed, ready, stops⟩
    · exact (shelved.of_unplaced (by decide) unplaced).isStored regular
    · cases stops with
      | here => exact (shelved.put_manifest placed).isStored regular

end

/-! ### Interrupted refreshes -/

/-- A refresh comes to storing its index and stops there after so many changes of the disk. -/
def StopsAt (engine : Engine γ) (config : Config) (s : Store) (force : Bool) (now : Moment)
    (w : World γ) (done : Nat) (stopped : Disk) : Prop :=
  ∃ before started survey chunks later, s.loadBefore force w = (.ok before, started) ∧
    Prepares engine config force now before started survey chunks later ∧
    Stops now done (s.writes (manifestOf now survey chunks) survey.tree chunks) later.disk stopped

theorem exists_stopsAt_of_save {force : Bool} {w started later after : World γ} {before : Before}
    {survey : Survey} {chunks : List Chunk} {result : Except IndexError Unit}
    (loaded : s.loadBefore force w = (.ok before, started))
    (prepares : Prepares engine config force now before started survey chunks later)
    (saved : s.save now survey chunks later = (result, after)) :
    ∃ done, StopsAt engine config s force now w done after.disk := by
  unfold save at saved
  split at saved
  · rename_i last applied
    obtain ⟨done, stops⟩ := stops_of_applyAll applied
    rw [← (Prod.mk.inj saved).2]
    exact ⟨done, before, started, survey, chunks, later, loaded, prepares, stops⟩
  · rename_i e last applied
    obtain ⟨done, stops⟩ := stops_of_applyAll applied
    rw [← (Prod.mk.inj saved).2]
    exact ⟨done, before, started, survey, chunks, later, loaded, prepares, stops⟩

/-- A refresh that is interrupted, and the world that the next one starts from. The index that is
stored at first was made of an earlier state of the workspace. -/
structure Interruption (γ : Type) where
  earlier : Disk
  before : World γ
  force : Bool
  now : Moment
  /-- How many changes of the disk were made. -/
  done : Nat
  stopped : Disk
  next : World γ

/-- The index that is stored at first is that of the earlier state, and in between nothing but the
interrupted refresh has touched it. The next refresh finds the workspace as the interrupted one
did. -/
structure Interruption.IsFair (engine : Engine γ) (config : Config) (s : Store)
    (i : Interruption γ) : Prop where
  index : ∃ tree chunks, IsStored s i.before.disk tree chunks ∧
    IsIndexOf engine config i.earlier tree chunks
  calm : IsCalm engine s i.before
  stops : StopsAt engine config s i.force i.now i.before i.done i.stopped
  files : ∀ name ∈ fileNames, ∀ item,
    i.stopped.lookUp (s.directory.child name) = .ok item →
      i.next.disk.lookUp (s.directory.child name) = .ok item
  calmNext : IsCalm engine s i.next
  same : (Scan.scan config [] i.next.disk).result = (Scan.scan config [] i.before.disk).result
  precedes : Precedes config i.earlier i.before.disk
  precedesNext : Precedes config i.earlier i.next.disk
  stays : Precedes config i.before.disk i.next.disk

/-! ### What the next refresh comes to -/

section
variable {d : Disk} {rules : Scan.Rules} {full : ScanResult} {tree : HashTree}
  {chunks : List Chunk} {session : Session γ} {force : Bool} {reuse : Entries FileNode}
  {survey : Survey}

def loadedOf (chunks : List Chunk) : List Chunk := sortByAddress (chunks.map normal)

theorem map_normal_loadedOf (chunks : List Chunk) :
    (loadedOf chunks).map normal = loadedOf chunks := by
  rw [loadedOf, ← Chunk.sortByAddress_map_normal, Chunk.map_normal_map_normal]

theorem loadedOf_merged {old : List Chunk} :
    loadedOf (merged engine session force survey full old) =
      (merged engine session force survey full old).map normal := by
  rw [loadedOf, Chunk.sortByAddress_map_normal, merged, Chunk.sortByAddress_sortByAddress]

theorem withPath_filter_has {path : String} (has : Entries.has path tree.files = true)
    (chunks : List Chunk) :
    withPath path (chunks.filter fun c => Entries.has c.path tree.files) =
      withPath path chunks := by
  unfold withPath
  rw [List.filter_filter]
  refine List.filter_congr fun c _ => ?_
  by_cases here : c.path = path
  · simp [here, has]
  · simp [here]

/-- Old chunks are those of a full scan, as far as their files are there, just if they are so for
every file that is there. -/
theorem filter_loadedOf_eq_iff (engine : Engine γ) (is : IsFullScan config d rules full)
    (made : IsTreeOf full tree) (chunks : List Chunk) (session : Session γ) :
    (loadedOf chunks).filter (fun c => Entries.has c.path tree.files) =
        (engine.chunksOfFiles session full.files).map normal ↔
      ∀ path, Entries.has path tree.files = true →
        (withPath path (loadedOf chunks)).map normal =
          (withPath path (engine.chunksOfFiles session full.files)).map normal := by
  constructor
  · intro same path has
    rw [← withPath_filter_has has, same, Chunk.withPath_map_normal, Chunk.map_normal_map_normal]
  · intro same
    refine Chunk.eq_of_withPath_eq ((Chunk.pairwise_path_sortByAddress _).filter _) ?_ ?_
    · rw [List.pairwise_map]
      exact Engine.pairwise_path_chunksOfFiles is.result.sorted
    · intro path
      rw [Chunk.withPath_map_normal]
      cases has : Entries.has path tree.files with
      | true =>
        rw [withPath_filter_has has, ← same path has, ← Chunk.withPath_map_normal,
          map_normal_loadedOf]
      | false =>
        have absent : withPath path (engine.chunksOfFiles session full.files) = [] := by
          refine Engine.withPath_chunksOfFiles_of_not_mem fun found member here => ?_
          rw [(made.has_iff is.result).mpr ⟨found, member, here⟩] at has
          cases has
        rw [absent, Chunk.withPath_of_forall_ne]
        · rfl
        · intro c member here
          have there := (List.mem_filter.mp member).2
          rw [here, has] at there
          cases there

end

/-- What an interrupted refresh leaves: of the old index and the one of a full pass, the new tree
counts from the third change on, and the new chunks from the fifth one on. -/
structure Leaves (engine : Engine γ) (config : Config) (s : Store) (i : Interruption γ)
    (tree newTree : HashTree) (chunks newChunks : List Chunk) : Prop where
  before : IsStored s i.before.disk tree chunks
  old : IsIndexOf engine config i.earlier tree chunks
  new : IsIndexOf engine config i.before.disk newTree newChunks
  left : IsStored s i.next.disk (if 3 ≤ i.done then newTree else tree)
    (if 5 ≤ i.done then newChunks else chunks)

theorem Interruption.IsFair.leaves {i : Interruption γ} (fair : i.IsFair engine config s)
    (pure : engine.grammars.IsPure) (batch : 0 < config.dispatch.batchSize)
    (workers : 0 < config.dispatch.maxWorkers) :
    ∃ tree newTree chunks newChunks,
      Leaves engine config s i tree newTree chunks newChunks := by
  obtain ⟨tree, chunks, stored, index⟩ := fair.index
  obtain ⟨_, _, is, made, _⟩ := id index
  obtain ⟨before, started, survey, found, later, loaded, prepares, stops⟩ := fair.stops
  rw [stored.loadBefore, Prod.mk.injEq, Except.ok.injEq] at loaded
  obtain ⟨rfl, rfl⟩ := loaded
  obtain ⟨fit, rules, full, right, rfl⟩ := merged_of_prepares pure batch workers fair.calm
    (fair.precedes.reusesRight is made i.force chunks) prepares
  rw [fit.disk] at stops
  have left := isStored_of_stops fair.calm.tidy fair.calm.proper.tree stored right.tree.isRegular
    stops
  exact ⟨tree, survey.tree, chunks, _, stored, index,
    fair.precedes.isIndexOf_merged index pure fair.calm.honest right,
    left.of_lookUp fair.calmNext.tidy.told fair.files⟩

/-- From what is stored, a refresh comes to the same chunks as a forced one just if the chunks are
right that it takes over. -/
theorem loadChunks_eq_forced_iff {d : Disk} {rules : Scan.Rules} {scan : ScanResult}
    {tree : HashTree} {chunks : List Chunk} {later latest : Moment}
    {summary forcedSummary : Summary} {w after forced : World γ} (pure : engine.grammars.IsPure)
    (batch : 0 < config.dispatch.batchSize) (workers : 0 < config.dispatch.maxWorkers)
    (calm : IsCalm engine s w) (stored : IsStored s w.disk tree chunks)
    (is : IsFullScan config d rules scan) (made : IsTreeOf scan tree)
    (precedes : Precedes config d w.disk)
    (refreshed : s.refresh engine config false later w = (.ok summary, after))
    (refreshedAll : s.refresh engine config true latest w = (.ok forcedSummary, forced)) :
    ∃ reuse survey rules' full loaded,
      survey.IsRight config reuse (some tree.normal) w.disk rules' full ∧
      s.loadTree forced.disk = .ok (some loaded) ∧ loaded.files = survey.tree.files ∧
      s.loadChunks forced.disk =
        .ok ((engine.chunksOfFiles w.session full.files).map normal) ∧
      (s.loadChunks after.disk = s.loadChunks forced.disk ↔
        ∀ path, isTakenOver false survey path = true →
          (withPath path (loadedOf chunks)).map normal =
            (withPath path (engine.chunksOfFiles w.session full.files)).map normal) := by
  obtain ⟨survey, rules', full, found⟩ :=
    refreshed_of_isStored pure batch workers calm stored is made precedes refreshed
  obtain ⟨survey', rules'', full', foundAll⟩ :=
    refreshed_of_isStored pure batch workers calm stored is made precedes refreshedAll
  obtain ⟨-, rfl⟩ := found.right.whole.unique foundAll.right.whole
  have sound := Before.isSound_ofStored false tree chunks
  have soundAll := Before.isSound_ofStored true tree chunks
  have all : (merged engine w.session true survey' full []).map normal =
      (engine.chunksOfFiles w.session full.files).map normal :=
    (merged_eq_iff foundAll.right soundAll.sorted soundAll.forced).mpr fun path taken => by
      cases ((isTakenOver_iff foundAll.right).mp taken).1
  have loaded := found.stored.loadChunks
  have loadedAll := foundAll.stored.loadChunks
  rw [← loadedOf, loadedOf_merged] at loaded loadedAll
  rw [show (Before.ofStored true tree chunks).chunks = [] from rfl, all] at loadedAll
  refine ⟨_, survey, rules', full, _, found.right, foundAll.stored.loadTree, ?_, loadedAll, ?_⟩
  · rw [(foundAll.right.tree.normal_eq foundAll.right.whole.result).1]
    exact (foundAll.right.tree.eq_of_isTreeOf found.right.tree).1
  · rw [loaded, loadedAll, Except.ok.injEq, merged_eq_iff found.right sound.sorted sound.forced]
    rfl

/-- The next refresh heals an interrupted one if that stopped before the tree was put in place or
after the chunks were. In between, it does so just if the old chunks of the files that are there now
are right already. -/
theorem heals_iff (pure : engine.grammars.IsPure) (batch : 0 < config.dispatch.batchSize)
    (workers : 0 < config.dispatch.maxWorkers) (i : Interruption γ) (fair : i.IsFair engine config s)
    {later latest : Moment} {summary forcedSummary : Summary} {after forced : World γ}
    (refreshed : s.refresh engine config false later i.next = (.ok summary, after))
    (refreshedAll : s.refresh engine config true latest i.next = (.ok forcedSummary, forced)) :
    ∃ old full tree, s.loadChunks i.before.disk = .ok old ∧
      s.loadChunks forced.disk = .ok full ∧ s.loadTree forced.disk = .ok (some tree) ∧
      (s.loadChunks after.disk = s.loadChunks forced.disk ↔
        i.done < 3 ∨ 5 ≤ i.done ∨
          old.filter (fun c => Entries.has c.path tree.files) = full) := by
  obtain ⟨tree, newTree, chunks, newChunks, before, old, new, left⟩ :=
    fair.leaves pure batch workers
  obtain ⟨rules, scan, is, made, _⟩ := id old
  obtain ⟨newRules, newScan, newIs, newMade, _⟩ := id new
  by_cases few : i.done < 3
  · -- The old tree is there with the old chunks.
    rw [if_neg (by omega), if_neg (by omega)] at left
    obtain ⟨reuse, survey, rules', full, loaded, right, loadTree, -, loadChunks, same⟩ :=
      loadChunks_eq_forced_iff pure batch workers fair.calmNext left is made fair.precedesNext
        refreshed refreshedAll
    refine ⟨_, _, _, before.loadChunks, loadChunks, loadTree, ?_⟩
    rw [same]
    exact ⟨fun _ => .inl few, fun _ => fair.precedesNext.withPath_eq old fair.calmNext.honest right⟩
  rw [if_pos (by omega)] at left
  by_cases many : 5 ≤ i.done
  · -- The new tree is there with the new chunks.
    rw [if_pos many] at left
    obtain ⟨reuse, survey, rules', full, loaded, right, loadTree, -, loadChunks, same⟩ :=
      loadChunks_eq_forced_iff pure batch workers fair.calmNext left newIs newMade fair.stays
        refreshed refreshedAll
    refine ⟨_, _, _, before.loadChunks, loadChunks, loadTree, ?_⟩
    rw [same]
    exact ⟨fun _ => .inr (.inl many), fun _ => fair.stays.withPath_eq new fair.calmNext.honest right⟩
  · -- The new tree is there with the old chunks, so nothing seems to have changed.
    rw [if_neg many] at left
    obtain ⟨reuse, survey, rules', full, loaded, right, loadTree, files, loadChunks, same⟩ :=
      loadChunks_eq_forced_iff pure batch workers fair.calmNext left newIs newMade fair.stays
        refreshed refreshedAll
    have scans := right.whole.done.symm.trans (fair.same.trans newIs.done)
    rw [Except.ok.injEq] at scans
    subst scans
    have normalFiles : newTree.normal.files = survey.tree.files := by
      rw [(newMade.normal_eq newIs.result).1]
      exact (newMade.eq_of_isTreeOf right.tree).1
    refine ⟨_, _, _, before.loadChunks, loadChunks, loadTree, ?_⟩
    rw [same, files]
    simp only [isTakenOver_of_files_eq right normalFiles]
    rw [← filter_loadedOf_eq_iff engine right.whole right.tree chunks i.next.session]
    exact ⟨fun healed => .inr (.inr healed), fun either =>
      (either.resolve_left few).resolve_left many⟩

/-- A refresh that stops before it changed anything is healed by the next one. -/
theorem heals_iff_added : ∃ after forced : World Unit, ∃ old full tree,
    (ofConfig besideConfig).loadChunks addedRound.before.disk = .ok old ∧
      (ofConfig besideConfig).loadChunks forced.disk = .ok full ∧
      (ofConfig besideConfig).loadTree forced.disk = .ok (some tree) ∧
      (ofConfig besideConfig).loadChunks after.disk =
        (ofConfig besideConfig).loadChunks forced.disk := by
  obtain ⟨tree, empty, stored, index⟩ := index_emptyRound
  obtain ⟨proper, still, tidy⟩ := addedRound_isUndisturbed
  have noGrammar : addedRound.before.session.loaded = [] := by decide +kernel
  have calm : IsCalm (Engine.ofSettings besideConfig.chunking Grammars.absent)
      (ofConfig besideConfig) addedRound.before := by
    refine ⟨proper, still, tidy, fun name member => ?_⟩
    rw [noGrammar] at member
    cases member
  have stored := stored.of_lookUp tidy.told fun name _ item there => lookUp_addedRound _ item there
  obtain ⟨summary, after, refreshed⟩ := refresh_addedRound false
  obtain ⟨forcedSummary, forced, refreshedAll⟩ := refresh_addedRound true
  have loaded := stored.loadBefore false
  have started := refreshed
  rw [refresh_of_loadBefore loaded] at started
  obtain ⟨survey, chunks, later, prepares, -⟩ := refreshFrom_eq_ok started
  obtain ⟨_, _, is, made, _⟩ := id index
  obtain ⟨fit, -⟩ := merged_of_prepares grammarsAbsent_isPure (by decide) (by decide) calm
    ((precedes_emptyRound _).reusesRight is made false []) prepares
  have stops : StopsAt (Engine.ofSettings besideConfig.chunking Grammars.absent) besideConfig
      (ofConfig besideConfig) false ⟨2000⟩ addedRound.before 0 addedRound.before.disk := by
    refine ⟨_, _, survey, chunks, later, loaded, prepares, ?_⟩
    rw [fit.disk]
    exact .here ..
  let i : Interruption Unit := ⟨emptyRound.before.disk, addedRound.before, false, ⟨2000⟩, 0,
    addedRound.before.disk, addedRound.before⟩
  obtain ⟨old, full, last, loadOld, loadFull, loadTree, healed⟩ :=
    heals_iff grammarsAbsent_isPure (by decide) (by decide) i
      ⟨⟨tree, [], stored, index⟩, calm, stops, fun _ _ _ there => there, calm, rfl,
        precedes_emptyRound _, precedes_emptyRound _, Precedes.refl ..⟩ refreshed refreshedAll
  exact ⟨after, forced, old, full, last, loadOld, loadFull, loadTree, healed.mpr (.inl (by decide))⟩

end SourceIndex.Store
