import SourceIndex.Chunk.Basic
import SourceIndex.Entries
import SourceIndex.Structure.Language
/-!
# Nodes

The nodes of a syntax tree, as a grammar gives them, and what is read off them: the kind of the
declaration and the name that it declares.
-/

namespace SourceIndex

/-- A row and a column, both counted from zero. -/
structure Point where
  row : Int
  column : Int
  deriving DecidableEq, Repr, Inhabited

/-- A node of a syntax tree. Its bytes are `startByte` up to `endByte` of the parsed text, the last
one excluded. -/
structure Node where
  type : String
  startByte : Int
  endByte : Int
  start : Point
  stop : Point
  /-- The children that have a role, by its name. -/
  fields : List (String × Node)
  /-- The children that are no mere punctuation. -/
  named : List Node
  deriving Repr, Inhabited

namespace Node

def field? (n : Node) (role : String) : Option Node := Entries.get? role n.fields

/-- The declaration inside a wrapper, or the node itself. -/
def unwrap? (table : NodeTable) (n : Node) : Option Node :=
  if table.wrappers.contains n.type then
    match n.field? "definition" with
    | some inner => some inner
    | none => n.field? "declaration"
  else some n

def isAssignment (table : NodeTable) (n : Node) : Bool :=
  table.statements.contains n.type &&
    match n.named with
    | first :: _ => table.assignments.contains first.type
    | [] => false

def kind (table : NodeTable) (n : Node) : ChunkKind :=
  match n.unwrap? table with
  | none => .other
  | some target =>
    if table.imports.contains target.type then .imports
    else if table.classes.contains target.type then .classes
    else if table.functions.contains target.type then .functions
    else if table.bindings.contains target.type then .bindings
    else if target.isAssignment table then .bindings
    else .other

/-- The node of the name that a declaration declares: its name, or the left side of an assignment,
or the name of the first declarator in it. -/
def nameNode? (table : NodeTable) (declaration : Node) : Option Node :=
  let target :=
    if table.statements.contains declaration.type then declaration.named.head?.getD declaration
    else declaration
  match target.field? "name" with
  | some found => some found
  | none =>
    match target.field? "left" with
    | some found => some found
    | none =>
      (target.named.find? fun child => child.type == "variable_declarator").bind
        fun child => child.field? "name"

def sliceText (source : Bytes) (start stop : Int) : String :=
  Text.Utf8.decodeLenient (source.slice start stop)

/-- The name that a top-level node declares; imports and other nodes declare none. -/
def declaredName? (table : NodeTable) (source : Bytes) (n : Node) : Option String :=
  match n.kind table with
  | .imports | .other => none
  | _ =>
    ((n.unwrap? table).bind (nameNode? table)).map fun found =>
      sliceText source found.startByte found.endByte

end Node
end SourceIndex
