import SourceIndex.Structure.Node
/-!
# Spans

A span is the range of bytes and lines of one or more top-level declarations of one kind.
Neighbouring spans of one kind become one if at most one line lies between them.
-/

namespace SourceIndex

/-- A range of a parsed text. Lines are counted from one. -/
structure Span where
  kind : ChunkKind
  startByte : Int
  endByte : Int
  startLine : Int
  endLine : Int
  name : Option String
  deriving DecidableEq, Repr

namespace Span

/-- The span of a top-level node. One that ends before the first column of a later row ends with
the row before, without its line feed. -/
def ofNode (table : NodeTable) (source : Bytes) (n : Node) : Span :=
  let trailing := n.stop.column = 0 && n.start.row < n.stop.row
  { kind := n.kind table
    startByte := n.startByte
    endByte := if trailing then n.endByte - 1 else n.endByte
    startLine := n.start.row + 1
    endLine := if trailing then n.stop.row else n.stop.row + 1
    name := n.declaredName? table source }

def startsNoLater (a b : Span) : Bool :=
  a.startLine < b.startLine || a.startLine = b.startLine && a.startByte ≤ b.startByte

def sort (spans : List Span) : List Span := spans.mergeSort startsNoLater

/-- Whether a span goes on where another one ended: it is of the same kind and at most one line
lies between them. -/
def joins (current next : Span) : Bool :=
  next.kind = current.kind && next.startLine ≤ current.endLine + 2

/-- The first of two names that is there and not empty; else the second one. -/
def firstName (a b : Option String) : Option String :=
  match a with
  | some name => if name = "" then b else a
  | none => b

def join (current next : Span) : Span :=
  { current with
    endByte := max current.endByte next.endByte
    endLine := max current.endLine next.endLine
    name := firstName current.name next.name }

/-- The spans from `current` on, joined where they join, after those in `done` (last one first). -/
def mergeFrom (done : List Span) (current : Span) : List Span → List Span
  | [] => (current :: done).reverse
  | next :: rest =>
    if joins current next then mergeFrom done (join current next) rest
    else mergeFrom (current :: done) next rest

def merge (spans : List Span) : List Span :=
  match sort spans with
  | [] => []
  | first :: rest => mergeFrom [] first rest

end Span
end SourceIndex
