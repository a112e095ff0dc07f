import SourceIndex.CommandLine.Run
import Std.Time.DateTime.Timestamp
/-!
# The program

The program reads what the command needs to know of the file system into a disk, runs the command
on it, and writes the changed files back. No grammars are built in.
-/

namespace SourceIndex.Program

/-! ### Reading the file system -/

abbrev Found := List (Place × Item)

def entryAt (place : Place) : IO.FS.DirEntry :=
  ⟨(Disk.pathTo place.dropLast).text, place.getLast?.getD "."⟩

def nanosOf (time : IO.FS.SystemTime) : Int := time.sec * 1000000000 + time.nsec.toNat

/-- What stands at a place, if anything. A link is taken to lead straight to its real target, and
to itself if there is none. -/
def itemAt? (place : Place) : IO (Option Item) := do
  let path := (entryAt place).path
  try
    let info ← path.symlinkMetadata
    match info.type with
    | .dir => return some .directory
    | .file => return some (.file (← IO.FS.readBinFile path).toList (nanosOf info.modified))
    | .symlink =>
      let target ←
        try pure (← IO.FS.realPath path).toString catch _ => pure (place.getLast?.getD "")
      return some (.link target)
    | .other => return some .special
  catch _ => return none

def readWay (place : Place) (found : Found) : IO Found :=
  (List.range place.length).foldlM (fun found n => do
    let step := place.take (n + 1)
    match ← itemAt? step with
    | some item => return (step, item) :: found
    | none => return found) found

/-- Adds all that stands at a place and below it. -/
partial def readBelow (place : Place) (found : Found) : IO Found := do
  match ← itemAt? place with
  | none => return found
  | some .directory =>
    let names ← try pure (← (entryAt place).path.readDir).toList catch _ => pure []
    names.foldlM (fun found entry => readBelow (place ++ [entry.fileName]) found)
      ((place, .directory) :: found)
  | some item => return (place, item) :: found

/-- Adds all that stands on the way to a path, on the way to its real place, and below that. -/
def readPath (here : Path) (text : String) (found : Found) : IO Found := do
  let path := here.join (Path.ofText text)
  let found ← readWay path.segments found
  try
    let real := Path.ofText (← IO.FS.realPath path.text).toString
    readBelow real.segments (← readWay real.segments found)
  catch _ => return found

def pathsOf (a : CommandLine.Arguments) : List String :=
  match a.diff with
  | some (old, new) => [old, new]
  | none => a.root :: a.dataDir.toList

def readDisk (a : CommandLine.Arguments) : IO Disk := do
  let here := Path.ofText (← IO.currentDir).toString
  let found ← (pathsOf a).foldlM (fun found text => readPath here text found)
    (← readWay here.segments [])
  return found.foldr (fun entry disk => disk.put entry.1 entry.2) ⟨[], here.segments, {}⟩

/-! ### Writing back -/

/-- Writes what stands on one disk and did not on another, in the order in which it was put
there. A file is moved to its place when it is complete. -/
def writeBack (before after : Disk) : IO Unit :=
  after.items.forM fun (place, item) => do
    if before.item? place ≠ some item then
      let path := (Disk.pathTo place).text
      match item with
      | .directory => IO.FS.createDirAll path
      | .file data _ =>
        IO.FS.writeBinFile (path ++ ".tmp") ⟨data.toArray⟩
        IO.FS.rename (path ++ ".tmp") path
      | .link _ | .special => pure ()

def showLog (verbosity : CommandLine.Verbosity) (log : List LogLine) : IO Unit :=
  log.forM fun line =>
    if verbosity.shows line.level then
      IO.eprintln (line.level.name ++ ": " ++ line.text)
    else pure ()

def run (a : CommandLine.Arguments) : IO UInt32 := do
  let now : Moment := ⟨(← Std.Time.Timestamp.now).toMillisecondsSinceUnixEpoch.toInt.toNat⟩
  let disk ← readDisk a
  let (response, world) := CommandLine.run a Grammars.absent now ⟨disk, { state := () }⟩
  writeBack disk world.disk
  showLog a.verbosity world.session.log
  match response with
  | .ok response =>
    IO.print response.output
    return response.exit.toUInt32
  | .error e =>
    IO.eprintln e.message
    return CommandLine.failure.toUInt32

end SourceIndex.Program

open SourceIndex in
def main (argv : List String) : IO UInt32 := do
  match CommandLine.Request.ofWords argv with
  | .run a => Program.run a
  | .help =>
    IO.print CommandLine.usage
    return CommandLine.success.toUInt32
  | .misuse =>
    IO.eprint CommandLine.usage
    return CommandLine.usageError.toUInt32
