import SourceIndex.Content.Basic
import SourceIndex.Engine.Basic
import SourceIndex.FileSystem.Access
/-!
# Tasks

A task is one file that is to be chunked. A task without content has its file read first, which may
fail; chunking itself never fails.
-/

namespace SourceIndex

structure Task where
  path : String
  root : String
  content : Option String
  isBinary : Bool
  language : Option String
  deriving DecidableEq, Repr

inductive TaskStatus
  | succeeded
  | failed
  | timedOut
  deriving DecidableEq, Repr

def TaskStatus.name : TaskStatus → String
  | succeeded => "succeeded"
  | failed => "failed"
  | timedOut => "timed_out"

/-- What came of a task: chunks, or a reason why there are none. -/
structure Outcome where
  path : String
  status : TaskStatus
  chunks : List Chunk
  error : Option String
  deriving DecidableEq, Repr

/-- What tasks work on: the disk, and the session of the engine. -/
structure World (γ : Type) where
  disk : Disk
  session : Session γ

namespace World
variable {γ : Type}

def note (w : World γ) (line : LogLine) : World γ := { w with session := w.session.note line }

def notes (w : World γ) (lines : List LogLine) : World γ := lines.foldl note w

/-- The world with an engine that was just made: no grammar is loaded, and what is wrong with its
settings was told. -/
def withEngine (w : World γ) (engine : Engine γ) : World γ :=
  ({ w with session := { w.session with loaded := [] } } : World γ).notes
    engine.settings.languageWarnings

end World

namespace Task
variable {γ : Type}

/-- The content that a binary file is chunked with, if at all. -/
def binaryContent (scan : ScanSettings) (path : String) (data : Bytes) : Option String :=
  if !scan.keepBinary then none
  else if scan.shortMarker then some (Content.placeholder path data.length)
  else some (Content.payload data)

/-- The content of a file that was read, and whether it is binary. -/
def contentOf (scan : ScanSettings) (path : String) (data : Bytes) :
    Except ReadError (Option String × Bool) :=
  match Content.classify data path with
  | .error e => .error (.encoding e)
  | .ok c =>
    match c.content with
    | .text _ content => .ok (some content, false)
    | .binary => .ok (binaryContent scan path data, true)

def file (task : Task) : Path := (Path.ofText task.root).join (Path.ofText task.path)

/-- Why a task cannot even be tried: its file would have to be read, and no file has such a
path. -/
def refusal? (task : Task) : Option FileError :=
  if task.content.isNone && Disk.hasZero task.file then some .zeroInPath else none

/-- The content of a task, and whether it is binary; its file is read if it has none. -/
def load (scan : ScanSettings) (task : Task) (disk : Disk) :
    Except ReadError (Option String × Bool) × Disk :=
  match task.content with
  | some content => (.ok (some content, task.isBinary), disk)
  | none =>
    let (data, disk) := disk.readBounded task.file scan.maxFileBytes
    (data.bind (contentOf scan task.path), disk)

/-- Chunks what was loaded for a task. A file that could not be read makes the task fail. -/
def chunkLoaded (engine : Engine γ) (task : Task)
    (loaded : Except ReadError (Option String × Bool)) (w : World γ) : Outcome × World γ :=
  match loaded with
  | .error e =>
    (⟨task.path, .failed, [], some e.message⟩,
      w.note (.warning ("Cannot read " ++ task.path ++ " for chunking: " ++ e.message)))
  | .ok (content, isBinary) =>
    let (chunks, session) := engine.chunk task.path content task.language isBinary w.session
    (⟨task.path, .succeeded, chunks, none⟩, { w with session })

def run (engine : Engine γ) (scan : ScanSettings) (task : Task) (w : World γ) :
    Except FileError Outcome × World γ :=
  match task.refusal? with
  | some e => (.error e, w)
  | none =>
    let (loaded, disk) := task.load scan w.disk
    let (outcome, w) := task.chunkLoaded engine loaded { w with disk }
    (.ok outcome, w)

/-- Chunks one file with an engine of its own, which is made once the file is read. -/
def runAlone (engine : Engine γ) (scan : ScanSettings) (task : Task) (w : World γ) :
    Except FileError Outcome × World γ :=
  match task.refusal? with
  | some e => (.error e, w)
  | none =>
    let (loaded, disk) := task.load scan w.disk
    let fresh : World γ := { w with disk }
    let fresh := if loaded.isOk then fresh.withEngine engine else fresh
    let (outcome, after) := task.chunkLoaded engine loaded fresh
    (.ok outcome, { after with session := { after.session with loaded := w.session.loaded } })

end Task
end SourceIndex
