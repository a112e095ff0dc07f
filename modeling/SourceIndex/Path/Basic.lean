import SourceIndex.Text.Lines
import SourceIndex.Text.Lower
/-!
# Paths

A path is a number of leading slashes and a list of segments. Segments that are empty or a single
dot are left out when a path is read, two dots stay. A path starts with no slash, with one, or with
exactly two, which are told apart from one; more than two count as one.

The name of a file is the last segment of its path. Its suffix starts at the last dot, if that is
neither the first nor the last character of the name.
-/

namespace SourceIndex

/-- A path as its segments after its leading slashes. -/
structure Path where
  slashes : Nat
  segments : List String
  deriving DecidableEq, Repr, Inhabited

namespace Path

def leadingSlashes : List Char → Nat
  | '/' :: '/' :: '/' :: _ => 1
  | '/' :: '/' :: _ => 2
  | '/' :: _ => 1
  | _ => 0

def ofText (s : String) : Path :=
  ⟨leadingSlashes s.toList,
    (Text.splitOn '/' s).filter fun segment => segment != "" && segment != "."⟩

/-- The text of a path; a single dot for the path without slashes and segments. -/
def text (p : Path) : String :=
  if p.slashes = 0 && p.segments.isEmpty then "."
  else String.ofList (List.replicate p.slashes '/') ++ Text.joinWith '/' p.segments

def isAbsolute (p : Path) : Bool := p.slashes != 0

/-- The path reached from `p` by another one, which stands for itself if it is absolute. -/
def join (p q : Path) : Path :=
  if q.isAbsolute then q else { p with segments := p.segments ++ q.segments }

def child (p : Path) (name : String) : Path := { p with segments := p.segments ++ [name] }

/-- The directory that holds the entry; a root is its own parent. -/
def parent (p : Path) : Path := { p with segments := p.segments.dropLast }

/-- Whether a path equals another one or lies below it, judged by the segments alone. -/
def isWithin (root p : Path) : Bool :=
  root.slashes == p.slashes && root.segments.isPrefixOf p.segments

/-! ### File names -/

/-- The last segment of a path; empty for a path without segments. -/
def name (p : Path) : String := p.segments.getLast?.getD ""

/-- The suffix of a name, with its dot. -/
def suffixChars (cs : List Char) : List Char :=
  let tail := (cs.reverse.takeWhile (· ≠ '.')).reverse
  if tail.isEmpty || cs.length ≤ tail.length + 1 then [] else '.' :: tail

def nameOf (path : String) : String := (ofText path).name

def suffixOf (path : String) : String := String.ofList (suffixChars (nameOf path).toList)

def lowerName (path : String) : String := Text.lower (nameOf path)

def lowerSuffix (path : String) : String := Text.lower (suffixOf path)

end Path
end SourceIndex
