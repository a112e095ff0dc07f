import SourceIndex.Digest.Sha256
import SourceIndex.Text.Utf8
/-!
# Chunks

A chunk is a range of lines of one file together with its text. Its id is the digest of its
address, which is the path and the two line numbers, so that a chunk keeps its id while its text
changes.
-/

namespace SourceIndex

/-- What a chunk holds: declarations of one kind, anything else, a plain range of lines, or a whole
file. -/
inductive ChunkKind
  | imports
  | classes
  | functions
  | bindings
  | other
  | plain
  | file
  deriving DecidableEq, Repr

namespace ChunkKind

def name : ChunkKind → String
  | imports => "import"
  | classes => "class"
  | functions => "function"
  | bindings => "variable"
  | other => "other"
  | plain => "default"
  | file => "file"

def all : List ChunkKind := [imports, classes, functions, bindings, other, plain, file]

def ofName? (s : String) : Option ChunkKind := all.find? fun kind => kind.name == s

end ChunkKind

/-- A range of lines of one file. Lines are counted from one, and both ends belong to it. -/
structure Chunk where
  id : String
  path : String
  language : String
  startLine : Int
  endLine : Int
  content : String
  kind : ChunkKind
  /-- The name of the parser that cut the chunk. -/
  parser : String
  /-- The declared name, if the chunk starts with a named declaration. -/
  name : Option String
  deriving DecidableEq, Repr

namespace Chunk

/-- The address of a range of lines: the path and the two line numbers with bars between them. -/
def address (path : String) (startLine endLine : Int) : Bytes :=
  Text.Utf8.encode path ++ Text.Utf8.encode "|" ++ Text.Utf8.encode (toString startLine) ++
    Text.Utf8.encode "|" ++ Text.Utf8.encode (toString endLine)

def idOf (path : String) (startLine endLine : Int) : String :=
  Digest.Sha256.hash (address path startLine endLine)

def ofRange (path language : String) (startLine endLine : Int) (content : String)
    (kind : ChunkKind) (parser : String) (name : Option String) : Chunk :=
  ⟨idOf path startLine endLine, path, language, startLine, endLine, content, kind, parser, name⟩

def startsNoLater (a b : Chunk) : Bool :=
  a.startLine < b.startLine || a.startLine = b.startLine && a.endLine ≤ b.endLine

def sortByLines (chunks : List Chunk) : List Chunk := chunks.mergeSort startsNoLater

/-- Chunks in the order of their paths, those of one file in the order of their lines. -/
def sortByAddress (chunks : List Chunk) : List Chunk :=
  chunks.mergeSort fun a b => a.path < b.path || a.path = b.path && a.startsNoLater b

end Chunk
end SourceIndex
