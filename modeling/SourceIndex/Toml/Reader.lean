import SourceIndex.Toml.Document
/-!
# Reading settings files

A settings file is a sequence of lines: entries of the table that is open, headers that open a
table or the next table of a list, comments and blank lines.
-/

namespace SourceIndex.Toml

/-! ### Values -/

def skipComment (cs : List Char) : Except ReadFault (List Char) :=
  match cs with
  | '#' :: rest =>
    if (rest.takeWhile (· ≠ '\n')).any isControl then .error .malformed
    else .ok (rest.dropWhile (· ≠ '\n'))
  | _ => .ok cs

def skipLines : Nat → List Char → Except ReadFault (List Char)
  | 0, cs => .ok cs
  | fuel + 1, cs =>
    match cs.dropWhile isSpaceOrEnd with
    | '#' :: rest =>
      match skipComment ('#' :: rest) with
      | .error fault => .error fault
      | .ok more => skipLines fuel more
    | rest => .ok rest

def skipBetween (cs : List Char) : Except ReadFault (List Char) :=
  match cs.dropWhile isSpaceOrEnd with
  | '#' :: rest => skipLines (rest.length + 1) ('#' :: rest)
  | rest => .ok rest

def isCompound : Setting → Bool
  | .list _ | .table _ => true
  | _ => false

/-- The items of a list up to its closing bracket, after those in `done` (last one first). -/
def items (value : List Char → Reading Setting) (done : List Setting) :
    Nat → List Char → Reading Setting
  | 0, _ => .error .malformed
  | fuel + 1, cs =>
    match skipBetween cs with
    | .error fault => .error fault
    | .ok (']' :: rest) => .ok (.list done.reverse, rest)
    | .ok cs =>
      match value cs with
      | .error fault => .error fault
      | .ok (item, rest) =>
        match skipBetween rest with
        | .error fault => .error fault
        | .ok (']' :: rest) => .ok (.list (item :: done).reverse, rest)
        | .ok (',' :: rest) => items value (item :: done) fuel rest
        | .ok _ => .error .malformed

def pair (value : List Char → Reading Setting) (cs : List Char) :
    Reading (List String × Setting) :=
  match key cs with
  | .error fault => .error fault
  | .ok (path, rest) =>
    match rest with
    | '=' :: rest => (value (skipSpace rest)).map fun (item, rest) => ((path, item), rest)
    | _ => .error .malformed

def inlineEntries (value : List Char → Reading Setting) (table : Entries Setting)
    (marks : Marks) : Nat → List Char → Reading Setting
  | 0, _ => .error .malformed
  | fuel + 1, cs =>
    match pair value cs with
    | .error fault => .error fault
    | .ok ((path, item), rest) =>
      if marks.has path .frozen then .error .malformed
      else
        match changeAt false (addEntry (path.getLast?.getD "") item) path.dropLast table with
        | none => .error .malformed
        | some table =>
          match skipSpace rest with
          | '\x7d' :: rest => .ok (.table table, rest)
          | ',' :: rest =>
            let marks := if isCompound item then marks.set path .frozen true else marks
            inlineEntries value table marks fuel (skipSpace rest)
          | _ => .error .malformed

def numberOrMoment (cs : List Char) : Reading Setting :=
  match dateTime? cs with
  | some reading => reading
  | none =>
    match time? cs with
    | some rest => .ok (.moment, rest)
    | none =>
      match prefixed? cs with
      | some (n, rest) => .ok (.int n, rest)
      | none =>
        match decimal? cs with
        | some reading => reading.map fun (n, rest) => (.number n, rest)
        | none =>
          match named? cs with
          | some (n, rest) => .ok (.number n, rest)
          | none => .error .malformed

def flag? (cs : List Char) : Option (Bool × List Char) :=
  match cs with
  | 't' :: 'r' :: 'u' :: 'e' :: rest => some (true, rest)
  | 'f' :: 'a' :: 'l' :: 's' :: 'e' :: rest => some (false, rest)
  | _ => none

/-- How deeply values may be nested: the most that the lists and the inline tables around a value
may cost together. -/
def maxNesting : Nat := 984

/-- What a list costs that a value stands in. -/
def listCost : Nat := 2

def tableCost : Nat := 3

/-- The value at the front of a text, for the nesting of which `room` is left. Every list or table
takes some of it, so that `levels` above the room at the start is enough. -/
def valueWithin : Nat → Nat → List Char → Reading Setting
  | 0, _, _ => .error .tooDeep
  | levels + 1, room, cs =>
    match text? cs with
    | some reading => reading.map fun (s, rest) => (.text (String.ofList s), rest)
    | none =>
      match flag? cs with
      | some (b, rest) => .ok (.flag b, rest)
      | none =>
        match cs with
        | '[' :: rest =>
          if room < listCost then .error .tooDeep
          else items (valueWithin levels (room - listCost)) [] (rest.length + 1) rest
        | '\x7b' :: rest =>
          match skipSpace rest with
          | '\x7d' :: rest => .ok (.table [], rest)
          | rest =>
            if room < tableCost then .error .tooDeep
            else inlineEntries (valueWithin levels (room - tableCost)) [] [] (rest.length + 1) rest
        | _ => numberOrMoment cs

def value : List Char → Reading Setting := valueWithin (maxNesting + 1) maxNesting

/-! ### Lines -/

/-- What is known of a file that is being read: its tables, the path of the open one, and the
marks, of which some hold only from the next header on. -/
structure Progress where
  tables : Entries Setting := []
  header : List String := []
  marks : Marks := []
  waiting : List (List String) := []

/-- The marks with those that were waiting for the next header. -/
def Progress.settle (p : Progress) : Progress :=
  { p with
    marks := p.waiting.foldl (fun marks path => marks.set path .explicit false) p.marks
    waiting := [] }

/-- All starts of a path that are shorter than it and not empty, put after another path. -/
def innerPaths (header path : List String) : List (List String) :=
  ((List.range path.length).drop 1).map fun n => header ++ path.take n

def Progress.addPair (p : Progress) (path : List String) (item : Setting) : Option Progress :=
  let inner := innerPaths p.header path
  let above := p.header ++ path.dropLast
  if inner.any (p.marks.has · .explicit) || !above.isEmpty && p.marks.has above .frozen then none
  else
    (changeAt true (addEntry (path.getLast?.getD "") item) above p.tables).map fun tables =>
      { p with
        tables
        marks := if isCompound item then p.marks.set (p.header ++ path) .frozen true else p.marks
        waiting := p.waiting ++ inner }

def Progress.openTable (p : Progress) (path : List String) : Option Progress :=
  if p.marks.has path .explicit || p.marks.has path .frozen then none
  else
    (changeAt true some path p.tables).map fun tables =>
      { p with tables, header := path, marks := p.marks.set path .explicit false }

def Progress.openListed (p : Progress) (path : List String) : Option Progress :=
  if p.marks.has path .frozen then none
  else
    (changeAt true (appendTable (path.getLast?.getD "")) path.dropLast p.tables).map fun tables =>
      { p with
        tables
        header := path
        marks := (p.marks.clear path).set path .explicit false }

/-- Reads a header: a key in one pair of brackets or in two. -/
def header (p : Progress) (brackets : Nat) (openIt : Progress → List String → Option Progress)
    (cs : List Char) : Reading Progress :=
  match key (skipSpace cs) with
  | .error fault => .error fault
  | .ok (path, rest) =>
    match openIt p path with
    | none => .error .malformed
    | some p =>
      let closing := List.replicate brackets ']'
      if closing.isPrefixOf rest then .ok (p, rest.drop brackets) else .error .malformed

/-- Reads the statement at the front of a text that starts with neither a blank nor a line end. -/
def statement (p : Progress) (cs : List Char) : Reading Progress :=
  match cs with
  | '[' :: '[' :: rest => header p.settle 2 Progress.openListed rest
  | '[' :: rest => header p.settle 1 Progress.openTable rest
  | '#' :: _ => .ok (p, cs)
  | _ =>
    match pair value cs with
    | .error fault => .error fault
    | .ok ((path, item), rest) =>
      match p.addPair path item with
      | none => .error .malformed
      | some p => .ok (p, rest)

/-- Reads line after line. Every line takes a character, so `fuel` of the text's length is
enough. -/
def lines (p : Progress) : Nat → List Char → Except ReadFault Progress
  | 0, _ => .ok p
  | fuel + 1, cs =>
    match skipSpace cs with
    | [] => .ok p
    | '\n' :: rest => lines p fuel rest
    | cs =>
      match statement p cs with
      | .error fault => .error fault
      | .ok (p, rest) =>
        match skipComment (skipSpace rest) with
        | .error fault => .error fault
        | .ok [] => .ok p
        | .ok ('\n' :: rest) => lines p fuel rest
        | .ok _ => .error .malformed

def plainLineEnds : List Char → List Char
  | [] => []
  | c :: cs => if c = '\r' && cs.head? = some '\n' then plainLineEnds cs else c :: plainLineEnds cs

def read (s : String) : Except ReadFault (Entries Setting) :=
  let cs := plainLineEnds s.toList
  (lines {} (cs.length + 1) cs).map (·.tables)

end SourceIndex.Toml
