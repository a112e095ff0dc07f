import SourceIndex.Toml.Scalar
/-!
# The tables of a settings file

While a settings file is read, its tables are filled by paths of names, and some paths are marked:
a frozen one may not be touched again, and one that was opened explicitly may not be opened twice.
-/

namespace SourceIndex.Toml

/-! ### Tables -/

/-- Changes the table that a path leads to; tables on the way are made if they are not there. Of a
list of tables the last one is meant, if `throughLists`. -/
def changeAt (throughLists : Bool) (change : Entries Setting → Option (Entries Setting)) :
    List String → Entries Setting → Option (Entries Setting)
  | [], table => change table
  | name :: path, table =>
    match (Entries.get? name table).getD (.table []) with
    | .table inner =>
      (changeAt throughLists change path inner).map fun inner =>
        Entries.put name (.table inner) table
    | .list items =>
      match throughLists, items.getLast? with
      | true, some (.table inner) =>
        (changeAt throughLists change path inner).map fun inner =>
          Entries.put name (.list (items.dropLast ++ [.table inner])) table
      | _, _ => none
    | _ => none

/-- A table with one more entry, if the name is free. -/
def addEntry (name : String) (value : Setting) (table : Entries Setting) :
    Option (Entries Setting) :=
  if Entries.has name table then none else some (Entries.put name value table)

/-- A table with an empty table put at the end of one of its lists. -/
def appendTable (name : String) (table : Entries Setting) : Option (Entries Setting) :=
  match Entries.get? name table with
  | none => some (Entries.put name (.list [.table []]) table)
  | some (.list items) => some (Entries.put name (.list (items ++ [.table []])) table)
  | some _ => none

/-! ### Marks -/

inductive Mark
  | frozen
  | explicit
  deriving DecidableEq, Repr

/-- Marked paths; a mark may count for all longer paths, too. -/
abbrev Marks := List (List String × Mark × Bool)

namespace Marks

def set (path : List String) (mark : Mark) (below : Bool) (marks : Marks) : Marks :=
  (path, mark, below) :: marks

/-- Takes all marks off a path and all longer ones. -/
def clear (path : List String) (marks : Marks) : Marks :=
  marks.filter fun entry => !path.isPrefixOf entry.1

def has (path : List String) (mark : Mark) (marks : Marks) : Bool :=
  marks.any fun (marked, found, below) =>
    found == mark && (marked == path || below && marked.isPrefixOf path)

end Marks
end SourceIndex.Toml
