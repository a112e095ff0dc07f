import SourceIndex.Config.Basic
import SourceIndex.Structure.Parser
/-!
# Parsers in order

The parsers for the files of a workspace stand in an order, and the first one that takes a language
gets it. A fallback takes what no other parser takes.
-/

namespace SourceIndex

/-- Parsers in order, and the one for everything else. -/
structure Registry (α : Type) where
  parsers : List α := []
  fallback : Option α := none

namespace Registry
variable {α : Type}

def register (r : Registry α) (parser : α) : Registry α :=
  { r with parsers := r.parsers ++ [parser] }

def registerFallback (r : Registry α) (parser : α) : Registry α :=
  { r with fallback := some parser }

/-- The first parser that takes a language, else the fallback. -/
def select? (takes : α → Bool) (r : Registry α) : Option α :=
  match r.parsers.find? takes with
  | some parser => some parser
  | none => r.fallback

def toList (r : Registry α) : List α := r.parsers ++ r.fallback.toList

def noParser (language : String) : String := "No parser supports language: " ++ language

end Registry

inductive Parser
  | structural (languages : List Language)
  | generic
  deriving DecidableEq, Repr

namespace Parser

def name : Parser → String
  | structural _ => Structure.parserName
  | generic => Chunk.genericParser

def takes (language : String) : Parser → Bool
  | structural languages => Structure.supports languages language
  | generic => true

end Parser

namespace ChunkSettings

def languagesWithGrammar (settings : ChunkSettings) : List Language :=
  (settings.structural.filterMap Language.ofName?).eraseDups

def languageWarnings (settings : ChunkSettings) : List LogLine :=
  (settings.structural.filter fun name => (Language.ofName? name).isNone).map fun name =>
    .warning ("No structural parser for language '" ++ name ++ "'; using generic splitting")

def registry (settings : ChunkSettings) : Registry Parser :=
  let languages := settings.languagesWithGrammar
  { parsers := if languages.isEmpty then [] else [.structural languages]
    fallback := some .generic }

end ChunkSettings
end SourceIndex
