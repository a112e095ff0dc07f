import SourceIndex.Log
import SourceIndex.Structure.Node
/-!
# Grammars

Grammars come from outside. They are loaded by name and then parse texts, and both may fail. What
they do may depend on a state of their own, which changes with every use.
-/

namespace SourceIndex

/-- What comes of parsing a text: a reason why it failed, nothing, or the top-level nodes of a
tree. -/
inductive Parse
  | failed (reason : String)
  | noTree
  | tree (children : List Node)

/-- A source of grammars with a state of type `γ`. Loading gives a reason if it fails. -/
structure Grammars (γ : Type) where
  load : String → γ → Option String × γ
  parse : String → String → γ → Parse × γ

/-- What changes while files are chunked: the state of the grammars, the names of those that are
loaded, and the messages so far. -/
structure Session (γ : Type) where
  state : γ
  loaded : List String := []
  log : List LogLine := []

def Session.note {γ : Type} (s : Session γ) (line : LogLine) : Session γ :=
  { s with log := s.log ++ [line] }

namespace Grammars

/-- The source that has no grammar at all. -/
def absent : Grammars Unit where
  load grammar s := (some ("no grammar for " ++ grammar), s)
  parse _ _ s := (.noTree, s)

variable {γ : Type}

/-- Loads a grammar, unless it is loaded already; gives a reason if that fails. -/
def ready (g : Grammars γ) (grammar : String) (s : Session γ) : Option String × Session γ :=
  if s.loaded.contains grammar then (none, s)
  else
    match g.load grammar s.state with
    | (some reason, state) => (some reason, { s with state })
    | (none, state) => (none, { s with state, loaded := grammar :: s.loaded })

def run (g : Grammars γ) (grammar source : String) (s : Session γ) : Parse × Session γ :=
  let (result, state) := g.parse grammar source s.state
  (result, { s with state })

end Grammars
end SourceIndex
