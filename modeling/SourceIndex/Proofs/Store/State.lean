import SourceIndex.Proofs.Store.Refresh
/-!
# States of a workspace

An index that was made of one state of a workspace tells which files are the same in a later one:
those with the same size and time need not be read again, and those with the same digest need not be
chunked again.
-/

namespace SourceIndex.Store
variable {γ : Type} {engine : Engine γ} {config : Config} {s : Store}

open Chunk (normal withPath sortByAddress)

/-! ### Two states of a workspace -/

/-- The full scan of a disk finds a file with these bytes and this time. -/
def Finds (config : Config) (d : Disk) (relative : String) (data : Bytes) (modified : Int) :
    Prop :=
  ∃ rules full, IsFullScan config d rules full ∧ relative ∈ full.files.map (·.file.path) ∧
    d.HasFile (rules.root.below relative) data modified

/-- A file that is found in a state is the same in a later one, and can be read, if it has the same
size and time there. It has no other bytes with the same digest. -/
structure Precedes (config : Config) (d later : Disk) : Prop where
  steady : ∀ relative data data' modified root, Finds config d relative data modified →
    resolveRoot later config.root.text = .ok root →
    later.stat (root.below relative) = .ok (.file data' modified) → data.length = data'.length →
      data = data' ∧ Disk.defect? (root.below relative) later.defects.read = none
  distinct : ∀ relative data data' modified modified', Finds config d relative data modified →
    Finds config later relative data' modified' →
    Digest.Sha256.hash data = Digest.Sha256.hash data' → data = data'

/-- A file that is found in a state is the same in a later one, and can be read, if it has the same
size and time there. -/
def IsSteady (config : Config) (d later : Disk) : Prop :=
  ∀ relative data data' modified root, Finds config d relative data modified →
    resolveRoot later config.root.text = .ok root →
    later.stat (root.below relative) = .ok (.file data' modified) → data.length = data'.length →
      data = data' ∧ Disk.defect? (root.below relative) later.defects.read = none

theorem Finds.unique {d : Disk} {relative : String} {data data' : Bytes}
    {modified modified' : Int} (finds : Finds config d relative data modified)
    (also : Finds config d relative data' modified') : data = data' ∧ modified = modified' := by
  obtain ⟨rules, full, is, -, has⟩ := finds
  obtain ⟨rules', full', is', -, has'⟩ := also
  obtain ⟨rfl, -⟩ := is.unique is'
  have same := has.told.symm.trans has'.told
  rw [Except.ok.injEq, Item.file.injEq] at same
  exact same

theorem Precedes.refl (config : Config) (d : Disk) : Precedes config d d where
  steady relative data data' modified root finds resolved told _ := by
    obtain ⟨rules, full, is, -, has⟩ := finds
    have root := (Scan.rulesFor_eq_ok is.started).2.2.1.symm.trans resolved
    rw [Except.ok.injEq] at root
    subst root
    have same := has.told.symm.trans told
    rw [Except.ok.injEq, Item.file.injEq] at same
    exact ⟨same.1, has.readable⟩
  distinct _ _ _ _ _ finds also _ := (finds.unique also).1

theorem precedes_of_files_eq_nil {d : Disk} {full : ScanResult}
    (scanned : (Scan.scan config [] d).result = .ok full) (empty : full.files = [])
    (later : Disk) : Precedes config d later := by
  have nothing {relative : String} {data : Bytes} {modified : Int}
      (finds : Finds config d relative data modified) : False := by
    obtain ⟨rules, full', is, member, -⟩ := finds
    have same := is.done.symm.trans scanned
    rw [Except.ok.injEq] at same
    rw [same, empty] at member
    cases member
  exact ⟨fun _ _ _ _ _ finds => (nothing finds).elim, fun _ _ _ _ _ finds => (nothing finds).elim⟩

/-- A tree and chunks are those of a full pass over a disk. -/
def IsIndexOf (engine : Engine γ) (config : Config) (d : Disk) (tree : HashTree)
    (chunks : List Chunk) : Prop :=
  ∃ rules full, IsFullScan config d rules full ∧ IsTreeOf full tree ∧
    ∀ session : Session γ, session.IsHonest engine.grammars →
      chunks.map normal = (engine.chunksOfFiles session full.files).map normal

section
variable {d later : Disk} {rules rules' : Scan.Rules} {full full' : ScanResult} {tree : HashTree}

theorem finds_of_mem (is : IsFullScan config d rules full) {file : ScannedFile}
    (member : file ∈ full.files) :
    ∃ data c content, Finds config d file.file.path data file.file.modified ∧
      Content.classify data file.file.path = .ok c ∧
      Scan.listedContent? config.scan file.file.path data c.content = some content ∧
      file.file = Scan.recordOf file.file.path file.file.modified c ∧
      file.content = some content := by
  obtain ⟨content, ⟨data, modified, c, has, classified, listed, record⟩, filled⟩ := is.reads member
  have time : file.file.modified = modified := by
    rw [record]
    rfl
  subst time
  rw [(Scan.rulesFor_eq_ok is.started).1] at listed
  exact ⟨data, c, content, ⟨rules, full, is, List.mem_map_of_mem member, has⟩, classified, listed,
    record, filled⟩

/-- The tree of an earlier state is right about all files that have the same size and time. -/
theorem IsSteady.areRight (steady : IsSteady config d later) (is : IsFullScan config d rules full)
    (made : IsTreeOf full tree) (found : Scan.rulesFor config tree.files later = .ok rules') :
    rules'.AreRight later := by
  intro relative node data modified known told size time
  obtain ⟨-, previous, root, -⟩ := Scan.rulesFor_eq_ok found
  rw [previous, made.get?_iff is.result] at known
  obtain ⟨file, member, rfl, rfl⟩ := known
  obtain ⟨before, c, content, finds, classified, -, record, -⟩ := finds_of_mem is member
  have sizes := (Content.hash_of_classify classified).2
  have size : (c.size : Int) = data.length := by
    rw [record] at size
    exact size
  obtain ⟨same, readable⟩ := steady file.file.path before data modified _ (time ▸ finds) root told
    (by omega)
  subst same
  refine ⟨readable, c, classified, ?_⟩
  rw [← time, ← size, record]
  rfl

theorem Precedes.areRight (precedes : Precedes config d later) (is : IsFullScan config d rules full)
    (made : IsTreeOf full tree) (found : Scan.rulesFor config tree.normal.files later = .ok rules') :
    rules'.AreRight later := by
  have steady : IsSteady config d later := precedes.steady
  rw [(made.normal_eq is.result).1] at found
  exact steady.areRight is made found

theorem Precedes.chunksOfFile_eq (precedes : Precedes config d later) (session : Session γ)
    (is : IsFullScan config d rules full) (is' : IsFullScan config later rules' full')
    {file file' : ScannedFile} (member : file ∈ full.files) (member' : file' ∈ full'.files)
    (path : file.file.path = file'.file.path) (hash : file.file.hash = file'.file.hash) :
    engine.chunksOfFile session file = engine.chunksOfFile session file' := by
  obtain ⟨data, c, content, finds, classified, listed, record, filled⟩ := finds_of_mem is member
  obtain ⟨data', c', content', finds', classified', listed', record', filled'⟩ :=
    finds_of_mem is' member'
  rw [record, record'] at hash
  have digests : Digest.Sha256.hash data = Digest.Sha256.hash data' := by
    rw [← (Content.hash_of_classify classified).1, ← (Content.hash_of_classify classified').1]
    exact hash
  have same := precedes.distinct _ data data' _ _ finds (path ▸ finds') digests
  subst same
  rw [← path, classified, Except.ok.injEq] at classified'
  subst classified'
  rw [← path, listed, Option.some.injEq] at listed'
  have binary : file.file.isBinary = file'.file.isBinary := by
    rw [record, record']
    rfl
  rw [Engine.chunksOfFile, Engine.chunksOfFile, path, filled, filled', listed', binary]

end

/-! ### From one state to the next -/

section
variable {d later : Disk} {tree : HashTree} {chunks : List Chunk} {session : Session γ}
  {force : Bool} {reuse : Entries FileNode} {rules : Scan.Rules} {full : ScanResult}
  {survey : Survey}

theorem sortByAddress_chunksOfFiles (is : IsFullScan config d rules full) (session : Session γ) :
    sortByAddress (engine.chunksOfFiles session full.files) =
      engine.chunksOfFiles session full.files :=
  Chunk.eq_of_withPath_eq (Chunk.pairwise_path_sortByAddress _)
    (Engine.pairwise_path_chunksOfFiles is.result.sorted) fun path =>
      Chunk.withPath_sortByAddress
        (Engine.pairwise_withPath_chunksOfFiles is.result.distinct path)

theorem sortByAddress_map_normal_of_isFullScan (is : IsFullScan config d rules full)
    (same : chunks.map normal = (engine.chunksOfFiles session full.files).map normal) :
    sortByAddress (chunks.map normal) = (engine.chunksOfFiles session full.files).map normal := by
  rw [same, Chunk.sortByAddress_map_normal, sortByAddress_chunksOfFiles is]

def Before.ofStored (force : Bool) (tree : HashTree) (chunks : List Chunk) : Before :=
  ⟨some tree.normal, if force then [] else sortByAddress (chunks.map normal)⟩

theorem Before.isSound_ofStored (force : Bool) (tree : HashTree) (chunks : List Chunk) :
    (ofStored force tree chunks).IsSound force := by
  unfold ofStored
  cases force with
  | true => exact ⟨List.Pairwise.nil, fun _ => rfl⟩
  | false => exact ⟨Chunk.pairwise_sortByAddress _, fun forced => absurd forced (by decide)⟩

theorem Before.isSound_nothing (force : Bool) : nothing.IsSound force :=
  ⟨List.Pairwise.nil, fun _ => rfl⟩

theorem Precedes.reusesRight (precedes : Precedes config d later)
    (is : IsFullScan config d rules full) (made : IsTreeOf full tree) (force : Bool)
    (chunks : List Chunk) : ReusesRight config force (.ofStored force tree chunks) later := by
  intro rules' found
  cases force with
  | true => exact areRight_of_nil found
  | false => exact precedes.areRight is made found

/-- The chunks of an earlier state are right for the files that have the same digest. -/
theorem Precedes.withPath_eq (precedes : Precedes config d later)
    (index : IsIndexOf engine config d tree chunks) (honest : session.IsHonest engine.grammars)
    (right : survey.IsRight config reuse (some tree.normal) later rules full) (path : String)
    (taken : isTakenOver force survey path = true) :
    (withPath path (Before.ofStored force tree chunks).chunks).map normal =
      (withPath path (engine.chunksOfFiles session full.files)).map normal := by
  obtain ⟨rules', full', is, made, same⟩ := index
  obtain ⟨rfl, node, found, hash⟩ := (isTakenOver_iff right).mp taken
  obtain ⟨file, member, rfl, rfl⟩ := (right.tree.get?_iff right.whole.result).mp found
  rw [show filesOf (some tree.normal) = tree.normal.files from rfl,
    (made.normal_eq is.result).1, HashTree.hashOf?, Option.map_eq_some_iff] at hash
  obtain ⟨node', found', hash⟩ := hash
  obtain ⟨file', member', path, rfl⟩ := (made.get?_iff is.result).mp found'
  have stored := sortByAddress_map_normal_of_isFullScan is (same session honest)
  have old : withPath file.file.path (engine.chunksOfFiles session full'.files) =
      engine.chunksOfFile session file' := by
    rw [← path]
    exact Engine.withPath_chunksOfFiles_of_mem is.result.distinct member'
  show (withPath file.file.path (sortByAddress (chunks.map normal))).map normal = _
  rw [stored, Chunk.withPath_map_normal, old,
    Engine.withPath_chunksOfFiles_of_mem right.whole.result.distinct member,
    precedes.chunksOfFile_eq session is right.whole member' member path hash,
    Chunk.map_normal_map_normal]

/-! ### What is stored afterwards -/

/-- A refresh comes to the index of a full pass, if the chunks are right that it takes over. -/
theorem isIndexOf_merged {before : Before} (pure : engine.grammars.IsPure)
    (honest : session.IsHonest engine.grammars) (sound : before.IsSound force)
    (right : survey.IsRight config reuse before.tree later rules full)
    (taken : ∀ path, isTakenOver force survey path = true →
      (withPath path before.chunks).map normal =
        (withPath path (engine.chunksOfFiles session full.files)).map normal) :
    IsIndexOf engine config later survey.tree
      (merged engine session force survey full before.chunks) := by
  refine ⟨_, full, right.whole, right.tree, fun session' honest' => ?_⟩
  rw [Engine.chunksOfFiles_eq pure honest' honest]
  exact (merged_eq_iff right sound.sorted sound.forced).mpr taken

theorem isIndexOf_merged_nothing (pure : engine.grammars.IsPure)
    (honest : session.IsHonest engine.grammars)
    (right : survey.IsRight config reuse none later rules full) :
    IsIndexOf engine config later survey.tree (merged engine session force survey full []) := by
  have sound := Before.isSound_nothing force
  refine isIndexOf_merged pure honest sound right ?_
  intro path taken
  obtain ⟨-, node, -, hash⟩ := (isTakenOver_iff right).mp taken
  cases hash

theorem Precedes.isIndexOf_merged (precedes : Precedes config d later)
    (index : IsIndexOf engine config d tree chunks) (pure : engine.grammars.IsPure)
    (honest : session.IsHonest engine.grammars)
    (right : survey.IsRight config reuse (some tree.normal) later rules full) :
    IsIndexOf engine config later survey.tree
      (merged engine session force survey full (Before.ofStored force tree chunks).chunks) :=
  Store.isIndexOf_merged pure honest (Before.isSound_ofStored force tree chunks) right
    (precedes.withPath_eq index honest right)

end

/-- What a refresh does depends on the digests of the files that were stored, not on the rest of
their tree. -/
theorem refreshFrom_of_files_eq_nil {tree : HashTree} (empty : tree.normal.files = [])
    (force : Bool) (now : Moment) (w : World γ) :
    s.refreshFrom engine config force now (.ofStored force tree []) w =
      s.refreshFrom engine config force now .nothing w := by
  have chunks : (Before.ofStored force tree []).chunks = [] := by
    cases force with
    | true => rfl
    | false => exact List.mergeSort_nil
  have reuse : reusable force (.ofStored force tree []) = reusable force .nothing := by
    rw [reusable_eq, reusable_eq]
    exact congrArg (fun files => if force then [] else files) empty
  have differences (new : HashTree) :
      HashTree.diff (Before.ofStored force tree []).tree new = HashTree.diff none new :=
    congrArg (fun files => HashTree.changes files new.files) empty
  unfold refreshFrom update Survey.run
  simp only [reuse, chunks, differences]
  rfl

theorem refreshed_of_isStored {d : Disk} {rules : Scan.Rules} {full : ScanResult} {tree : HashTree}
    {chunks : List Chunk} {force : Bool} {now : Moment} {w after : World γ} {summary : Summary}
    (pure : engine.grammars.IsPure) (batch : 0 < config.dispatch.batchSize)
    (workers : 0 < config.dispatch.maxWorkers) (calm : IsCalm engine s w)
    (stored : IsStored s w.disk tree chunks) (is : IsFullScan config d rules full)
    (made : IsTreeOf full tree) (precedes : Precedes config d w.disk)
    (done : s.refresh engine config force now w = (.ok summary, after)) :
    ∃ survey rules' full', Refreshed engine config s force (.ofStored force tree chunks) w after
      survey rules' full' :=
  refreshed_of_refresh pure batch workers calm (stored.loadBefore force)
    (precedes.reusesRight is made force chunks) done

end SourceIndex.Store
