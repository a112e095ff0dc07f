import SourceIndex.FileSystem.Disk
import SourceIndex.Path.Key
/-!
# Real paths

Resolving a path takes all links out of it. What is not there stays as it is written, unless the
whole path has to be there. A link that leads back to itself is left in place, and the texts that
were still to be resolved are put after it as they are written.
-/

namespace SourceIndex.Disk

/-! ### Steps -/

/-- How far resolving has come: to a place, or to a link that leads back to itself, with the text
that is left then. The places of the links met so far are kept with what they lead to, once that is
known. -/
inductive Resolved
  | at (place : Place) (met : List (Place × Option Place))
  | stuck (text : String)
  | failed (e : FileError)

def pathTo (place : Place) : Path := ⟨1, place⟩

/-- Why nothing is found at a place that holds no item. -/
def absence (d : Disk) (place : Place) : Nat :=
  match d.find false (pathTo place) with
  | .error code => code
  | .ok _ => FileError.noEntry

/-- Whether a place holds a link, and its target; a cause if nothing is found there. -/
def linkAt (d : Disk) (place : Place) : Except Nat (Option String) :=
  if maxPathBytes ≤ Text.Utf8.size (pathTo place).text then .error FileError.nameTooLong
  else
    match d.item? place with
    | some (.link target) => .ok (some target)
    | some _ => .ok none
    | none => .error (d.absence place)

/-- Where resolving a target starts, and what stands between its slashes from there on. -/
def targetPieces (target : String) (place : Place) : Place × List String :=
  match target.toList with
  | '/' :: rest => ([], Text.splitOn '/' (String.ofList rest))
  | _ => (place, Text.splitOn '/' target)

/-- A text of a path with another one after it, which stands for itself if it starts with a
slash. -/
def joinTexts (first second : String) : String :=
  if second.toList.head? = some '/' then second
  else if first.toList.getLast? = some '/' then first ++ second
  else first ++ "/" ++ second

/-- The text that is left when resolving is stuck at a text, with what comes after it. -/
def stuckAt (text : String) (rest : List String) : Resolved :=
  .stuck (joinTexts text (Text.joinWith '/' rest))

/-! ### Resolving -/

/-- Resolves pieces of a path from a place on. `onLink` resolves the target of a link that is met
for the first time. -/
def resolveFrom (d : Disk) (strict : Bool)
    (onLink : List (Place × Option Place) → Place → List String → Resolved)
    (met : List (Place × Option Place)) (place : Place) : List String → Resolved
  | [] => .at place met
  | name :: rest =>
    if name = "" || name = "." then resolveFrom d strict onLink met place rest
    else if name = ".." then resolveFrom d strict onLink met place.dropLast rest
    else
      let next := place ++ [name]
      match d.linkAt next with
      | .error code =>
        if strict then .failed (.system code (pathTo next).text)
        else resolveFrom d strict onLink met next rest
      | .ok none => resolveFrom d strict onLink met next rest
      | .ok (some target) =>
        match met.find? fun entry => entry.1 == next with
        | some (_, some known) => resolveFrom d strict onLink met known rest
        | some (_, none) =>
          if strict then .failed .linkCircle else stuckAt (pathTo next).text rest
        | none =>
          -- Until it is known where the link leads, coming back to it is a circle.
          let (start, pieces) := targetPieces target place
          match onLink ((next, none) :: met) start pieces with
          | .at known met => resolveFrom d strict onLink ((next, some known) :: met) known rest
          | .stuck text => stuckAt text rest
          | .failed e => .failed e

/-- How many links may be resolved within each other. -/
def maxNestedLinks : Nat := 980

/-- Resolves pieces of a path from a place on, with links in the targets of links at most `depth`
deep. -/
def resolvePieces (d : Disk) (strict : Bool) :
    Nat → List (Place × Option Place) → Place → List String → Resolved
  | 0 => d.resolveFrom strict fun _ _ _ => .failed .tooDeep
  | depth + 1 => d.resolveFrom strict (resolvePieces d strict depth)

def realPath (d : Disk) (strict : Bool) (p : Path) : Except FileError Path :=
  match d.resolvePieces strict maxNestedLinks [] (d.startOf p) p.segments with
  | .at place _ => .ok (pathTo place)
  | .stuck text => .ok (Path.ofText (String.ofList (Key.normalChars text.toList)))
  | .failed e => .error e

/-- The real path of a path. If `strict`, everything on the way has to be there. -/
def resolve (d : Disk) (strict : Bool) (p : Path) : Except FileError Path :=
  match defect? p d.defects.resolve with
  | some code => .error (.system code p.text)
  | none =>
    if hasZero p then .error .zeroInPath
    else
      match d.realPath strict p with
      | .error e => .error e
      | .ok real =>
        if strict then .ok real
        else
          match d.stat real with
          | .error (.system code _) =>
            if code = FileError.tooManyLinks then .error .linkCircle else .ok real
          | _ => .ok real

end SourceIndex.Disk
