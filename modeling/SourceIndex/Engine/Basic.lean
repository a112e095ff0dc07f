import SourceIndex.Engine.Registry
/-!
# The chunking engine

The engine turns the content of one file into chunks in the order of their lines. It never fails:
what cannot be parsed is cut into windows of lines, and what cannot be cut either gives no chunk.
-/

namespace SourceIndex

structure Engine (γ : Type) where
  settings : ChunkSettings
  registry : Registry Parser
  grammars : Grammars γ

namespace Engine
variable {γ : Type}

def ofSettings (settings : ChunkSettings) (grammars : Grammars γ) : Engine γ :=
  ⟨settings, settings.registry, grammars⟩

def windows (e : Engine γ) (path content language : String) :
    Except LimitError (List Chunk) :=
  Chunk.splitGeneric path content language e.settings.linesPerChunk e.settings.maxChunkBytes
    Chunk.genericParser

/-- Text cut into windows of lines after a parser failed; nothing if that fails too. -/
def fallBack (e : Engine γ) (path content language : String) (s : Session γ) :
    List Chunk × Session γ :=
  match e.windows path content language with
  | .ok chunks => (chunks, s)
  | .error _ => ([], s.note (.failure ("Generic splitting failed on " ++ path)))

def runParser (e : Engine γ) (parser : Parser) (path content language : String)
    (s : Session γ) : List Chunk × Session γ :=
  match parser with
  | .structural languages =>
    match Structure.parse e.grammars languages ⟨e.settings.maxChunkBytes, e.settings.retryLines⟩
        path content language s with
    | (.ok chunks, s) => (chunks, s)
    | (.error failure, s) =>
      e.fallBack path content language
        (s.note (.warning (failure.message ++ "; splitting " ++ path ++ " generically")))
  | .generic =>
    match e.windows path content language with
    | .ok chunks => (chunks, s)
    | .error _ =>
      e.fallBack path content language
        (s.note (.failure
          ("Parser " ++ parser.name ++ " failed on " ++ path ++ "; splitting generically")))

/-- The language of a file: the one that is given, else the one of its suffix. -/
def languageOf (e : Engine γ) (path : String) (given : Option String) : String :=
  match given with
  | some language => if language = "" then e.settings.languageFor path else language
  | none => e.settings.languageFor path

def chunk (e : Engine γ) (path : String) (content language : Option String) (isBinary : Bool)
    (s : Session γ) : List Chunk × Session γ :=
  match content with
  | none => ([], s)
  | some content =>
    if Text.isBlank content then ([], s)
    else
      let language := e.languageOf path language
      if isBinary then (Chunk.wholeFile path content language, s)
      else
        let parser := (e.registry.select? (Parser.takes language)).getD .generic
        let (chunks, s) := e.runParser parser path content language s
        (Chunk.sortByLines chunks, s)

end Engine
end SourceIndex
