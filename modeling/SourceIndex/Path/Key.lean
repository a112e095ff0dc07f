import SourceIndex.Path.Basic
/-!
# Directory keys

Files and directories are known by normal texts of their paths. Normalizing takes a backslash for
a slash, leaves out empty and single-dot segments, and lets two dots take back the segment before
them. The key of a directory ends in a slash; the workspace root has the keys `./` and the empty
text. From every key, going to the parent key again and again ends at the root.
-/

namespace SourceIndex.Key

/-! ### Normal paths -/

/-- The segments kept so far (last one first) after one more segment. Two dots take back the last
segment; at the root they are dropped, and at the start of a relative path they stay. -/
def keep (rooted : Bool) (kept : List (List Char)) (segment : List Char) : List (List Char) :=
  if segment = [] || segment = ['.'] then kept
  else if segment = ['.', '.'] then
    match kept with
    | [] => if rooted then [] else [segment]
    | last :: rest => if last = ['.', '.'] then segment :: kept else rest
  else segment :: kept

def normalSegments (cs : List Char) : List (List Char) :=
  ((Text.pieces '/' cs).foldl (keep (Path.leadingSlashes cs != 0)) []).reverse

def slashed (cs : List Char) : List Char := cs.map fun c => if c = '\\' then '/' else c

def normalChars (cs : List Char) : List Char :=
  let whole :=
    List.replicate (Path.leadingSlashes cs) '/' ++ Text.joinPieces '/' (normalSegments cs)
  if whole.isEmpty then ['.'] else whole

/-- The normal text of a path; the empty text stays empty. -/
def normalize (path : String) : String :=
  if path = "" then "" else String.ofList (normalChars (slashed path.toList))

/-! ### Keys -/

def ofDirectory (path : String) : String :=
  if path = "" then ""
  else
    let normal := normalize path
    if normal.toList.getLast? = some '/' then normal else normal ++ "/"

def dropSlashes (cs : List Char) : List Char := (cs.reverse.dropWhile (· = '/')).reverse

/-- The text before the last slash; slashes alone stay. -/
def directoryChars (cs : List Char) : List Char :=
  let head := (cs.reverse.dropWhile (· ≠ '/')).reverse
  let bare := dropSlashes head
  if bare.isEmpty then head else bare

def above (normal : String) : String :=
  let directory := String.ofList (directoryChars normal.toList)
  ofDirectory (if directory = "" then "." else directory)

def ofFile (path : String) : String := if path = "" then "" else above (normalize path)

/-- Whether a path is the workspace root in any of its spellings. -/
def isRoot (path : String) : Bool :=
  let normal := normalize path
  normal = "" || normal = "."

/-- The key of the parent of a directory; empty for the root. -/
def parent (key : String) : String :=
  if key = "" || isRoot key then ""
  else
    let bare := String.ofList (dropSlashes (normalize key).toList)
    if bare = "" || bare = "." then "" else above bare

def depth (path : String) : Nat :=
  if path = "" || isRoot path then 0
  else
    let segments := Text.splitOn '/' (normalize path)
    (segments.filter fun segment => segment != "" && segment != ".").length

def same (left right : String) : Bool :=
  dropSlashes (normalize left).toList = dropSlashes (normalize right).toList

end SourceIndex.Key
