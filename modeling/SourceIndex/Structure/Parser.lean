import SourceIndex.Chunk.Window
import SourceIndex.Structure.Ladder
import SourceIndex.Structure.Span
/-!
# Chunks by syntax

The chunks of a file in a language with a grammar: its top-level declarations, neighbours of one
kind together, none larger than the ceiling unless it is a single line.
-/

namespace SourceIndex.Structure

/-- Why a file cannot be chunked by its syntax at all. -/
inductive ParseFailure
  | unsupported (language : String)
  | noGrammar (grammar reason : String)
  deriving DecidableEq, Repr

def ParseFailure.message : ParseFailure → String
  | unsupported language => "No structural grammar for language '" ++ language ++ "'"
  | noGrammar grammar reason =>
    "Cannot load tree-sitter grammar '" ++ grammar ++ "': " ++ reason

def parserName : String := "tree_sitter"

structure Limits where
  maxChunkBytes : Int
  retryLines : Int
  deriving DecidableEq, Repr

def supports (languages : List Language) (language : String) : Bool :=
  match Language.ofName? language with
  | some found => languages.contains found
  | none => false

def spanChunk (path : String) (language : Language) (source : Bytes) (span : Span) : Chunk :=
  .ofRange path language.name span.startLine span.endLine
    (Node.sliceText source span.startByte span.endByte) span.kind parserName span.name

def chunksOf (limits : Limits) (path : String) (language : Language) (text : String)
    (nodes : List Node) : List Chunk :=
  let source := Text.Utf8.encode text
  let spans := nodes.map (Span.ofNode language.table source)
  Chunk.enforceCeiling limits.maxChunkBytes
    ((Span.merge spans).map (spanChunk path language source))

variable {γ : Type}

/-- The chunks of a file in one of the given languages; none if no stage of the ladder gives a
tree. -/
def parse (g : Grammars γ) (languages : List Language) (limits : Limits)
    (path content language : String) (s : Session γ) :
    Except ParseFailure (List Chunk) × Session γ :=
  match Language.ofName? language with
  | none => (.error (.unsupported language), s)
  | some found =>
    if languages.contains found then
      let grammar := found.grammarFor path
      match g.ready grammar s with
      | (some reason, s) => (.error (.noGrammar grammar reason), s)
      | (none, s) =>
        match Ladder.climb g grammar path limits.retryLines
            (Ladder.stages limits.retryLines content) s with
        | (none, s) => (.ok [], s)
        | (some (text, nodes), s) => (.ok (chunksOf limits path found text nodes), s)
    else (.error (.unsupported language), s)

end SourceIndex.Structure
