import SourceIndex.Json.Writer
import SourceIndex.Store.Basic
/-!
# Writing the stored index

A file of the index is written whole under another name and then moved to its place, so that a
reader finds either the old content or the new one. The manifest comes last: until it is moved, the
index counts as what it was before.
-/

namespace SourceIndex

def Json.lineOf (value : Json) : String := value.line ++ "\n"

inductive Write
  | directory (path : Path)
  /-- A file gets some values, one on each line. -/
  | file (path : Path) (values : List Json)
  | move (source target : Path)
  deriving Repr

namespace Write

def linesOf (values : List Json) : String := String.join (values.map Json.lineOf)

/-- Why a change of the disk failed, if it did, and the disk that it leaves. -/
abbrev Effect := Option IndexError × Disk

/-- The effect of an operation that leaves the disk as it was if it fails. -/
def Effect.ofResult (d : Disk) : Except FileError Disk → Effect
  | .ok after => (none, after)
  | .error e => (some (.file e), d)

/-- The disk after some values were written to a file. Writing ends before the first value that
holds an integer of too many digits. -/
def writeValues (d : Disk) (p : Path) (values : List Json) (now : Int) : Effect :=
  let written := values.takeWhile Json.isWritable
  match d.writeFile p (Text.Utf8.encode (linesOf written)) now with
  | .error e => (some (.file e), d)
  | .ok after =>
    if values.all Json.isWritable then (none, after)
    else (some (.document (.content .integerTooLong)), after)

def apply (now : Moment) (d : Disk) : Write → Effect
  | directory path => .ofResult d (d.makeDirectories path)
  | file path values => writeValues d path values now.nanos
  | move source target => .ofResult d (d.replaceFile source target)

/-- The disk after changes in order, up to the first one that fails. -/
def applyAll (now : Moment) : List Write → Disk → Effect
  | [], d => (none, d)
  | write :: rest, d =>
    match write.apply now d with
    | (some e, d) => (some e, d)
    | (none, d) => applyAll now rest d

/-- The path that a file is written to before it is moved to its place. -/
def temporary (p : Path) : Path := p.parent.child (p.name ++ ".tmp")

/-- The changes that put values into a file at once. -/
def atOnce (p : Path) (values : List Json) : List Write :=
  [file (temporary p) values, move (temporary p) p]

end Write

namespace Store

def writes (s : Store) (manifest : Manifest) (tree : HashTree) (chunks : List Chunk) :
    List Write :=
  -- Each file changes at once, but not all of them together.
  .directory s.directory :: Write.atOnce s.treePath [tree.toJson] ++
    Write.atOnce s.chunksPath (chunks.map Chunk.toJson) ++
    Write.atOnce s.manifestPath [manifest.toJson]

end Store
end SourceIndex
