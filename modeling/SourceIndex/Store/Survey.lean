import SourceIndex.Dispatch.Crew
import SourceIndex.Dispatch.Process
import SourceIndex.HashTree.Diff
import SourceIndex.Scan.Run
import SourceIndex.Store.Basic
/-!
# Surveys

A survey scans a workspace, makes the hash tree of what it finds and compares that with an earlier
tree. What is to be chunked afterwards follows from it.
-/

namespace SourceIndex

structure Survey where
  scan : ScanResult
  tree : HashTree
  changes : List FileChange

namespace Survey
variable {γ : Type}

/-- Surveys a workspace. Digests are taken from the files in `reuse` that have not changed since;
changes count from the tree `before`. -/
def run (config : Config) (reuse : Entries FileNode) (before : Option HashTree) (now : Moment)
    (w : World γ) : Except IndexError Survey × World γ :=
  let scanned := Scan.scan config reuse w.disk
  let w := ({ w with disk := scanned.disk } : World γ).notes scanned.log
  match scanned.result with
  | .error e => (.error (.scan e), w)
  | .ok scan =>
    match HashTree.build? scan.records scan.root now.millis with
    | none => (.error .hashNotAscii, w)
    | some built =>
      (.ok ⟨scan, built.tree, HashTree.diff before built.tree⟩,
        w.notes (built.absent.map HashTree.absentWarning))

def tasks (s : Survey) (wanted : String → Bool) : List Task :=
  (s.scan.files.filter fun found => wanted found.file.path).map fun found =>
    { path := found.file.path
      root := s.scan.root
      content := found.content
      isBinary := found.file.isBinary
      language := none }

end Survey

/-! ### Chunking what was found -/

/-- Chunks some tasks. The memory in use is not known. -/
def Engine.chunkTasks {γ : Type} (engine : Engine γ) (config : Config) (tasks : List Task)
    (w : World γ) : Except IndexError (List Chunk × DispatchStats) × World γ :=
  let crew := Crew.ofEngine engine config.scan (.real .zero)
  let (chunks, shift) := Dispatch.process crew config.dispatch tasks 0 w
  ((chunks.map fun chunks => (chunks, shift.stats)).mapError .dispatch, shift.world)

/-- What a full pass over a workspace gives. -/
structure Pass where
  survey : Survey
  chunks : List Chunk
  dispatch : DispatchStats

/-- Surveys a workspace and chunks all its files, with an engine that is made in between. -/
def Pass.run {γ : Type} (config : Config) (grammars : Grammars γ) (before : Option HashTree)
    (now : Moment) (w : World γ) : Except IndexError Pass × World γ :=
  let (survey, w) := Survey.run config ((before.map (·.files)).getD []) before now w
  match survey with
  | .error e => (.error e, w)
  | .ok survey =>
    let engine := Engine.ofSettings config.chunking grammars
    let (result, w) := engine.chunkTasks config (survey.tasks fun _ => true)
      (w.withEngine engine)
    (result.map fun (chunks, dispatch) => ⟨survey, chunks, dispatch⟩, w)

end SourceIndex
