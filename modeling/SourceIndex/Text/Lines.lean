/-!
# Lines

Lines are ended by line feeds. `split` cuts at every line feed, so that joining gives the text
back; `lines` leaves out the empty rest after a final line feed; `readLines` also takes a carriage
return, alone or before a line feed, as the end of a line, the way a text file is read.
-/

namespace SourceIndex.Text

/-! ### Cutting at a separator -/

def pieces (separator : Char) (cs : List Char) : List (List Char) :=
  cs.foldr
    (fun c found =>
      if c = separator then [] :: found
      else match found with
        | piece :: rest => (c :: piece) :: rest
        | [] => [[c]])
    [[]]

def joinPieces (separator : Char) (found : List (List Char)) : List Char :=
  List.intercalate [separator] found

def splitOn (separator : Char) (s : String) : List String :=
  (pieces separator s.toList).map String.ofList

def joinWith (separator : Char) (parts : List String) : String :=
  String.ofList (joinPieces separator (parts.map String.toList))

/-! ### Lines -/

/-- The lines of a text, with the empty one after a final line feed left out. -/
def lines (s : String) : List String :=
  let all := splitOn '\n' s
  if all.getLast? = some "" then all.dropLast else all

def unlines (ls : List String) : String := joinWith '\n' ls

/-- Every carriage return, with the line feed after it if there is one, as one line feed. -/
def universalChars (cs : List Char) : List Char :=
  (cs.foldr
    (fun c (found : List Char × Bool) =>
      if c = '\r' then (if found.2 then found.1 else '\n' :: found.1, false)
      else (c :: found.1, c = '\n'))
    ([], false)).1

/-- The text of a file as it is read: all line ends are line feeds. -/
def universal (s : String) : String := String.ofList (universalChars s.toList)

end SourceIndex.Text
