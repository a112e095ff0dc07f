import SourceIndex.Bytes
import SourceIndex.FileSystem.Error
import SourceIndex.Path.Basic
import SourceIndex.Text.Lines
import SourceIndex.Text.Utf8
/-!
# Disks

A disk is a finite set of files, directories and links, each at its place. A place is the list of
the names on the way down from the root, none of which is a link. Looking a path up follows links,
at most forty of them.

A disk may have defects: operations on certain paths fail although something is there.
-/

namespace SourceIndex

inductive Item
  /-- A file with its bytes and the time of its last modification in nanoseconds. -/
  | file (data : Bytes) (modified : Int)
  | directory
  | link (target : String)
  /-- A pipe, a device or the like. -/
  | special
  deriving DecidableEq, Repr

/-- The names on the way down from the root. -/
abbrev Place := List String

/-- Operations that fail on certain paths, with the causes. -/
structure Defects where
  read : List (String × Nat) := []
  /-- Files to which so many bytes are added before each reading. -/
  growth : List (String × Nat) := []
  list : List (String × Nat) := []
  stat : List (String × Nat) := []
  resolve : List (String × Nat) := []
  isDirectory : List (String × Nat) := []
  /-- Directories that may not be read. -/
  access : List String := []
  deriving DecidableEq, Repr

/-- A file system. Its items stand in the order in which they were put there, and relative paths
start from `here`. -/
structure Disk where
  items : List (Place × Item)
  here : Place := []
  defects : Defects := {}
  deriving DecidableEq, Repr

namespace Disk

/-! ### Places -/

/-- What stands at a place; the root is a directory. -/
def item? (d : Disk) (place : Place) : Option Item :=
  if place = [] then some .directory
  else (d.items.find? fun entry => entry.1 == place).map (·.2)

/-- The disk with an item put at a place, which comes last from then on. -/
def put (d : Disk) (place : Place) (item : Item) : Disk :=
  { d with items := (d.items.filter fun entry => entry.1 != place) ++ [(place, item)] }

/-- The disk without what stands at a place and below it. -/
def erase (d : Disk) (place : Place) : Disk :=
  { d with items := d.items.filter fun entry => !place.isPrefixOf entry.1 }

/-- The names in a directory, in order, each once. -/
def names (d : Disk) (place : Place) : List String :=
  ((d.items.filterMap fun entry =>
    if entry.1.dropLast = place then entry.1.getLast? else none).eraseDups).mergeSort
      fun a b => !(b < a)

/-! ### Following links -/

/-- The most links that are followed. -/
def maxLinks : Nat := 40

def maxNameBytes : Nat := 255

/-- The most bytes of a path, the zero byte after it counted. -/
def maxPathBytes : Nat := 4096

/-- Where following a target starts, and the names that lead on from there. A slash at the end
asks for a directory, as a single dot does. -/
def targetNames (target : String) (place : Place) : Place × List String :=
  let names := (Text.splitOn '/' target).filter (· ≠ "")
  let whole := if target.toList.getLast? = some '/' then names ++ ["."] else names
  (if target.toList.head? = some '/' then [] else place, whole)

/-- What a path leads to: a place and what stands there. There may be nothing at the last name. -/
abbrev Found := Except Nat (Place × Option Item)

/-- Goes down from a directory by names. `onLink` goes on after a link, from where its target
starts; `follow` tells whether a link at the last name is followed. -/
def descend (d : Disk) (follow : Bool) (onLink : Place → List String → Found) (place : Place) :
    List String → Found
  | [] => .ok (place, d.item? place)
  | name :: rest =>
    if name = "." then descend d follow onLink place rest
    else if name = ".." then descend d follow onLink place.dropLast rest
    else if maxNameBytes < Text.Utf8.size name then .error FileError.nameTooLong
    else
      let next := place ++ [name]
      match d.item? next with
      | none => if rest.isEmpty then .ok (next, none) else .error FileError.noEntry
      | some (.link target) =>
        if rest.isEmpty && !follow then .ok (next, some (.link target))
        else
          let (start, names) := targetNames target place
          onLink start (names ++ rest)
      | some .directory => descend d follow onLink next rest
      | some item =>
        if rest.isEmpty then .ok (next, some item) else .error FileError.notDirectory

/-- Goes down from a directory by names and over at most `links` links. -/
def walk (d : Disk) (follow : Bool) : Nat → Place → List String → Found
  | 0 => d.descend follow fun _ _ => .error FileError.tooManyLinks
  | links + 1 => d.descend follow (walk d follow links)

def startOf (d : Disk) (p : Path) : Place := if p.isAbsolute then [] else d.here

def find (d : Disk) (follow : Bool) (p : Path) : Found :=
  if maxPathBytes ≤ Text.Utf8.size p.text then .error FileError.nameTooLong
  else d.walk follow maxLinks (d.startOf p) p.segments

/-! ### Tests -/

def defect? (p : Path) (defects : List (String × Nat)) : Option Nat :=
  (defects.find? fun entry => entry.1 == p.text).map (·.2)

def hasZero (p : Path) : Bool := p.text.toList.contains '\x00'

def lookUp (d : Disk) (p : Path) : Except FileError Item :=
  if hasZero p then .error .zeroInPath
  else
    match d.find true p with
    | .error code => .error (.system code p.text)
    | .ok (_, none) => .error (.system FileError.noEntry p.text)
    | .ok (_, some item) => .ok item

/-- What a path leads to, as it is told when nothing is wrong with asking. -/
def stat (d : Disk) (p : Path) : Except FileError Item :=
  match defect? p d.defects.stat with
  | some code => .error (.system code p.text)
  | none => d.lookUp p

/-- The answer of a test for a path that could not be looked up: no, unless the cause is a serious
one. -/
def testFailed : FileError → Except FileError Bool
  | .system code path =>
    if FileError.meansAbsent code then .ok false else .error (.system code path)
  | .zeroInPath => .ok false
  | .linkCircle => .error .linkCircle
  | .tooDeep => .error .tooDeep

def hasAnything (d : Disk) (p : Path) : Except FileError Bool :=
  match d.stat p with
  | .ok _ => .ok true
  | .error e => testFailed e

def hasDirectory (d : Disk) (p : Path) : Except FileError Bool :=
  match defect? p d.defects.isDirectory with
  | some code => .error (.system code p.text)
  | none =>
    match d.stat p with
    | .ok item => .ok (item = .directory)
    | .error e => testFailed e

def mayRead (d : Disk) (p : Path) : Bool :=
  !d.defects.access.contains p.text && (d.lookUp p).isOk

def list (d : Disk) (p : Path) : Except FileError (List (String × Item)) :=
  match defect? p d.defects.list with
  | some code => .error (.system code p.text)
  | none =>
    if hasZero p then .error .zeroInPath
    else
      match d.find true p with
      | .error code => .error (.system code p.text)
      | .ok (_, none) => .error (.system FileError.noEntry p.text)
      | .ok (place, some .directory) =>
        .ok ((d.names place).filterMap fun name =>
          (d.item? (place ++ [name])).map fun item => (name, item))
      | .ok _ => .error (.system FileError.notDirectory p.text)

end Disk
end SourceIndex
