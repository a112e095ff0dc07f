import SourceIndex.Content.Basic
import SourceIndex.FileSystem.Access
import SourceIndex.Scan.Basic
import SourceIndex.Select.Policy
import SourceIndex.Select.Value
/-!
# Walking a workspace

The walk takes directories from a stack. The entries of a directory are visited in the order of
their names: directories are stacked, files are read, and links are put aside until no directory is
left, so that a file is recorded where it really is if it can be reached there. Then the links are
followed one by one, and a directory behind a link is walked before the next link.
-/

namespace SourceIndex.Scan

/-! ### Rules and state -/

structure Rules where
  root : Path
  dataDir : Path
  settings : ScanSettings
  /-- The suffixes of the files that are wanted. -/
  extensions : List String
  /-- The files of an earlier scan. -/
  previous : Entries FileNode

/-- A directory that is still to be walked. -/
structure Frame where
  directory : Path
  /-- What stands before the names of its entries in their relative paths. -/
  lead : String
  /-- How many directories lie between it and the root. -/
  depth : Nat
  /-- How many of those are behind links. -/
  linkDepth : Nat
  realPath : Path
  /-- The real paths of the directories from the root down to it. -/
  chain : List Path
  deriving DecidableEq, Repr

structure Pending where
  path : Path
  relative : String
  parent : Frame
  deriving DecidableEq, Repr

/-- What a walk has found so far. Files and errors stand in the order in which they were found. -/
structure Tally where
  seen : List Path := []
  files : List ScannedFile := []
  errors : List ScanError := []
  counts : ScanCounts := {}
  log : List LogLine := []
  disk : Disk

namespace Tally

def note (t : Tally) (line : LogLine) : Tally := { t with log := t.log ++ [line] }

def skipFile (t : Tally) : Tally :=
  { t with counts := { t.counts with skippedFiles := t.counts.skippedFiles + 1 } }

def skipDirectory (t : Tally) : Tally :=
  { t with counts := { t.counts with skippedDirectories := t.counts.skippedDirectories + 1 } }

def skipLink (t : Tally) : Tally :=
  { t with counts := { t.counts with skippedLinks := t.counts.skippedLinks + 1 } }

def rejectLink (t : Tally) (relative reason : String) : Tally :=
  (t.note (.warning ("Skipping symlink " ++ relative ++ ": " ++ reason))).skipLink

def fail (t : Tally) (relative : String) (e : ReadError) : Tally :=
  let kind := ErrorKind.ofReadError e
  let t := t.note
    (.warning ("Failed to scan " ++ relative ++ " (" ++ kind.name ++ "): " ++ e.message))
  { t with
    errors := t.errors ++ [⟨relative, kind, e.message⟩]
    counts := { t.counts with failed := t.counts.failed + 1 } }

def add (t : Tally) (file : FileRecord) (content : Option String) : Tally :=
  { t with
    files := t.files ++ [⟨file, content⟩]
    counts := { t.counts with processed := t.counts.processed + 1 } }

end Tally

/-! ### Files -/

/-- Whether a file is wanted, judged by its path alone. -/
def acceptsFile (rules : Rules) (relative : String) : Bool :=
  !Policy.hasIgnoredSegment relative rules.settings.ignoredDirectories &&
    rules.extensions.contains (Path.lowerSuffix relative) &&
    !Policy.isJunk relative &&
    !Policy.isExcluded relative rules.settings.ignorePatterns &&
    (!rules.settings.filterByValue || Value.isValuable relative)

/-- What stands for the content of a file of which all bytes are known; nothing if it is binary and
such files are not listed. -/
def listedContent? (settings : ScanSettings) (relative : String) (data : Bytes) :
    Content → Option String
  | .text _ content => some content
  | .binary =>
    if !settings.keepBinary then none
    else if settings.shortMarker then some (Content.placeholder relative data.length)
    else some (Content.payload data)

def recordOf (relative : String) (modified : Int) (c : Classified) : FileRecord :=
  { path := relative
    hash := c.hash
    size := c.size
    modified
    isBinary := c.content == .binary
    encoding := match c.content with
      | .binary => none
      | .text encoding _ => some encoding.name }

def readFile (rules : Rules) (path : Path) (relative : String) (modified : Int) (t : Tally) :
    Tally :=
  let (outcome, disk) := t.disk.readBounded path rules.settings.maxFileBytes
  let t := { t with disk }
  match outcome with
  | .error e => t.fail relative e
  | .ok data =>
    match Content.classify data relative with
    | .error e => t.fail relative (.encoding e)
    | .ok c =>
      match listedContent? rules.settings relative data c.content with
      | none => t.skipFile
      | some content => t.add (recordOf relative modified c) (some content)

/-- The file of an earlier scan that has the same path, size and time. -/
def unchanged? (rules : Rules) (relative : String) (size modified : Int) : Option FileNode :=
  (Entries.get? relative rules.previous).filter fun node =>
    node.size = size && node.modified = modified

def reuseFile (rules : Rules) (relative : String) (size modified : Int) (node : FileNode)
    (t : Tally) : Tally :=
  if node.isBinary && !rules.settings.keepBinary then t.skipFile
  else t.add ⟨relative, node.hash, size, modified, node.isBinary, node.encoding⟩ none

def recordFile (rules : Rules) (path : Path) (relative : String) (size modified : Int)
    (t : Tally) : Tally :=
  if rules.settings.maxFileBytes < size then
    (t.note (.warning
      ("Skipping " ++ relative ++ ": " ++ toString size ++ " bytes exceeds limit " ++
        toString rules.settings.maxFileBytes))).skipFile
  else
    match unchanged? rules relative size modified with
    | some node => reuseFile rules relative size modified node t
    | none => readFile rules path relative modified t

def sizeAndTime : Item → Int × Int
  | .file data modified => (data.length, modified)
  | _ => (0, 0)

def visitFile (rules : Rules) (path : Path) (relative : String) (realPath : Path) (t : Tally) :
    Tally :=
  let t := { t with counts := { t.counts with scanned := t.counts.scanned + 1 } }
  if !acceptsFile rules relative then t.skipFile
  -- A file that is reached under several paths is recorded under the first one.
  else if t.seen.contains realPath then t.skipFile
  else
    let t := { t with seen := realPath :: t.seen }
    match t.disk.stat path with
    | .error e => t.fail relative (.file e)
    | .ok item =>
      let (size, modified) := sizeAndTime item
      recordFile rules path relative size modified t

/-! ### Directories -/

def acceptsDirectory (rules : Rules) (name relative : String) (realPath : Path) : Bool :=
  !rules.settings.ignoredDirectories.contains name &&
    realPath != rules.dataDir &&
    !Policy.isExcluded (relative ++ "/") rules.settings.ignorePatterns &&
    !Policy.isExcluded relative rules.settings.ignorePatterns

/-- The frame of a directory that was found in another one, unless it is not wanted or too deep. -/
def childFrame (rules : Rules) (parent : Frame) (path : Path) (relative : String)
    (realPath : Path) (isLink : Bool) (t : Tally) : Option Frame × Tally :=
  if !acceptsDirectory rules path.name relative realPath then (none, t.skipDirectory)
  else
    let depth := parent.depth + 1
    if rules.settings.maxDepth < (depth : Int) then
      (none, (t.note (.warning
        ("Skipping " ++ relative ++ ": depth " ++ toString depth ++ " exceeds limit " ++
          toString rules.settings.maxDepth))).skipDirectory)
    else
      (some
        { directory := path
          lead := relative ++ "/"
          depth
          linkDepth := parent.linkDepth + (if isLink then 1 else 0)
          realPath
          chain := if parent.chain.contains realPath then parent.chain
            else parent.chain ++ [realPath] },
        t)

/-- What visiting one entry of a directory adds: directories to walk and links to put aside. -/
structure Finds where
  frames : List Frame := []
  links : List Pending := []

/-- The finds of a step, or why it breaks the walk off. -/
abbrev Finding := Except FileError Finds

/-- What stands for an entry that has no real path. If the system refused to tell, that is
recorded; on any other ground the walk breaks off. -/
def unresolved (relative : String) (e : FileError) (t : Tally) : Finding × Tally :=
  match e with
  | .system .. => (.ok {}, t.fail relative (.file e))
  | _ => (.error e, t)

def visitEntry (rules : Rules) (frame : Frame) (name : String) (item : Item) (t : Tally) :
    Finding × Tally :=
  let relative := frame.lead ++ name
  let path := frame.directory.child name
  match item with
  | .link _ =>
    if rules.settings.followLinks then (.ok { links := [⟨path, relative, frame⟩] }, t)
    else (.ok {}, t.skipLink)
  | .directory =>
    match t.disk.resolve false path with
    | .error e => unresolved relative e t
    | .ok realPath =>
      let (child, t) := childFrame rules frame path relative realPath false t
      (.ok { frames := child.toList }, t)
  | .file .. =>
    match t.disk.resolve false path with
    | .error e => unresolved relative e t
    | .ok realPath => (.ok {}, visitFile rules path relative realPath t)
  | .special => (.ok {}, t.skipFile)

def visitEntries (rules : Rules) (frame : Frame) :
    List (String × Item) → Tally → Finding × Tally
  | [], t => (.ok {}, t)
  | (name, item) :: rest, t =>
    match visitEntry rules frame name item t with
    | (.error e, t) => (.error e, t)
    | (.ok first, t) =>
      match visitEntries rules frame rest t with
      | (.error e, t) => (.error e, t)
      | (.ok others, t) =>
        (.ok ⟨first.frames ++ others.frames, first.links ++ others.links⟩, t)

def scanDirectory (rules : Rules) (frame : Frame) (t : Tally) : Finding × Tally :=
  match t.disk.list frame.directory with
  | .error e =>
    (.ok {}, (t.note (.warning
      ("Cannot read directory " ++ frame.directory.text ++ ": " ++ e.message))).skipDirectory)
  | .ok entries => visitEntries rules frame entries t

/-! ### Links -/

/-- Visits what a link leads to; gives the frame of a directory that is to be walked. -/
def visitLink (rules : Rules) (link : Pending) (t : Tally) : Option Frame × Tally :=
  let limit := rules.settings.maxLinkDepth
  let parent := link.parent
  if limit < (parent.linkDepth + 1 : Nat) then
    (none, t.rejectLink link.relative ("symlink depth exceeds limit " ++ toString limit))
  else
    let found := (t.disk.resolve true link.path).bind fun target =>
      (t.disk.stat target).map fun item => (target, item)
    match found with
    | .error _ => (none, t.rejectLink link.relative "broken link")
    | .ok (target, item) =>
      if target = link.path then (none, t.rejectLink link.relative "link points to itself")
      else if !rules.root.isWithin target then
        (none, t.rejectLink link.relative
          ("target " ++ target.text ++ " is outside the workspace"))
      else
        match item with
        | .directory =>
          -- The way down to the link would go on for ever.
          if parent.chain.contains target || target.isWithin parent.realPath then
            (none, t.rejectLink link.relative ("cycle through " ++ target.text))
          else childFrame rules parent link.path link.relative target true t
        | .file .. => (none, visitFile rules link.path link.relative target t)
        | _ =>
          (none, t.rejectLink link.relative "target is not a regular file or directory")

/-! ### The walk -/

/-- A walk that is under way: the directories that are still to be walked, the next one first, the
links that were put aside, and what was found so far. Nothing is left to be walked of a walk that
is broken. -/
structure Walk where
  stack : List Frame
  pending : List Pending
  tally : Tally
  /-- Why the walk broke off, if it did. -/
  broken : Option FileError := none

def rootFrame (root : Path) : Frame :=
  { directory := root, lead := "", depth := 0, linkDepth := 0, realPath := root, chain := [root] }

def Walk.start (rules : Rules) (disk : Disk) : Walk :=
  { stack := [rootFrame rules.root], pending := [], tally := { disk } }

/-- The next state of a walk; none at its end. -/
def Walk.next? (rules : Rules) (w : Walk) : Option Walk :=
  match w.stack with
  | frame :: rest =>
    match scanDirectory rules frame w.tally with
    | (.error e, tally) => some { stack := [], pending := [], tally, broken := some e }
    | (.ok finds, tally) =>
      some { stack := finds.frames ++ rest, pending := w.pending ++ finds.links, tally }
  -- Links have to wait until no directory is left, so that a file with a path of its own has it.
  | [] =>
    match w.pending with
    | link :: rest =>
      let (child, tally) := visitLink rules link w.tally
      some { stack := child.toList, pending := rest, tally }
    | [] => none

end SourceIndex.Scan
