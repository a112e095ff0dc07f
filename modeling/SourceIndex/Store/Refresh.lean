import SourceIndex.Store.Load
import SourceIndex.Store.Save
import SourceIndex.Store.Summary
/-!
# Refreshing the stored index

A refresh surveys the workspace, chunks what has changed since the stored tree, takes over the
chunks of all other files, and stores the result. A forced refresh chunks every file; the stored
tree only serves to tell what has changed.
-/

namespace SourceIndex.Store
variable {γ : Type}

/-! ### What was stored before -/

structure Before where
  tree : Option HashTree
  chunks : List Chunk

def Before.nothing : Before := ⟨none, []⟩

/-- The tree and the chunks that were stored, both of which have to be readable. -/
def loadBoth (s : Store) (d : Disk) : Except IndexError Before :=
  match s.requireSchema d with
  | .error e => .error e
  | .ok () =>
    match s.loadTree d with
    | .error e => .error e
    | .ok none => .ok .nothing
    | .ok (some tree) => (s.loadChunks d).map fun chunks => ⟨some tree, chunks⟩

/-- The grounds on which a stored tree is left out of a forced refresh. -/
def isIgnored : Ground → Bool
  | .missingField | .wrongKind | .badValue => true
  | .system | .severe => false

def ignoredWarning (e : IndexError) : LogLine :=
  .warning ("Ignoring unreadable previous tree: " ++ e.message)

def loadTreeIfReadable (s : Store) (w : World γ) : Except IndexError Before × World γ :=
  match s.loadTree w.disk with
  | .ok tree => (.ok ⟨tree, []⟩, w)
  | .error e =>
    if isIgnored e.ground then (.ok .nothing, w.note (ignoredWarning e)) else (.error e, w)

/-- What was stored before. Without a manifest, nothing was. -/
def loadBefore (s : Store) (force : Bool) (w : World γ) : Except IndexError Before × World γ :=
  match s.readManifest w.disk with
  | .error e => (.error e, w)
  | .ok none => (.ok .nothing, w)
  -- A forced refresh takes nothing over; the tree is for the changes to be told.
  | .ok (some _) => if force then s.loadTreeIfReadable w else (s.loadBoth w.disk, w)

/-! ### What is new -/

/-- The files that are chunked again: those that are new or changed, or all of them. -/
def rechunked (force : Bool) (survey : Survey) : List String :=
  if force then Entries.keys survey.tree.files
  else (survey.changes.filter fun change => change.kind ≠ .deleted).map (·.path)

/-- The chunks that stay: those of files that are still there and have not changed. -/
def kept (survey : Survey) (chunks : List Chunk) : List Chunk :=
  let stale := survey.changes.map (·.path)
  chunks.filter fun chunk =>
    !stale.contains chunk.path && Entries.has chunk.path survey.tree.files

/-! ### Refreshing -/

def manifestOf (now : Moment) (survey : Survey) (chunks : List Chunk) : Manifest :=
  ⟨now, survey.tree.files.length, chunks.length, survey.tree.rootHash⟩

def save (s : Store) (now : Moment) (survey : Survey) (chunks : List Chunk) (w : World γ) :
    Except IndexError Unit × World γ :=
  match Write.applyAll now (s.writes (manifestOf now survey chunks) survey.tree chunks) w.disk with
  | (none, disk) => (.ok (), { w with disk })
  | (some e, disk) => (.error e, { w with disk })

/-- Chunks what a survey found to be new, and stores the index. -/
def update (s : Store) (engine : Engine γ) (config : Config) (force : Bool) (now : Moment)
    (before : Before) (survey : Survey) (w : World γ) : Except IndexError Summary × World γ :=
  let paths := rechunked force survey
  match engine.chunkTasks config (survey.tasks fun path => paths.contains path) w with
  | (.error e, w) => (.error e, w)
  | (.ok (fresh, dispatch), w) =>
    let chunks := Chunk.sortByAddress (kept survey before.chunks ++ fresh)
    match s.save now survey chunks w with
    | (.error e, w) => (.error e, w)
    | (.ok (), w) => (.ok ⟨survey, chunks.length, paths.length, dispatch, now⟩, w)

/-- The files whose digests may be taken over. -/
def reusable (force : Bool) (before : Before) : Entries FileNode :=
  if force then [] else (before.tree.map (·.files)).getD []

def refreshFrom (s : Store) (engine : Engine γ) (config : Config) (force : Bool) (now : Moment)
    (before : Before) (w : World γ) : Except IndexError Summary × World γ :=
  match Survey.run config (reusable force before) before.tree now w with
  | (.error e, w) => (.error e, w)
  | (.ok survey, w) => s.update engine config force now before survey w

def refresh (s : Store) (engine : Engine γ) (config : Config) (force : Bool) (now : Moment)
    (w : World γ) : Except IndexError Summary × World γ :=
  match s.loadBefore force w with
  | (.error e, w) => (.error e, w)
  | (.ok before, w) => s.refreshFrom engine config force now before w

end SourceIndex.Store
