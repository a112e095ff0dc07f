import SourceIndex.Path.Basic
import SourceIndex.Text.Blank
/-!
# Languages with a grammar

The languages whose files are chunked by their syntax, and the names by which the kinds of their
top-level declarations are told apart.
-/

namespace SourceIndex

/-- A language that is chunked by its syntax. -/
inductive Language
  | python
  | javascript
  | typescript
  deriving DecidableEq, Repr

namespace Language

def name : Language → String
  | python => "python"
  | javascript => "javascript"
  | typescript => "typescript"

def all : List Language := [python, javascript, typescript]

/-- The language with the given name, in any case and with blanks around it. -/
def ofName? (s : String) : Option Language :=
  let wanted := Text.lower (Text.trim s)
  all.find? fun language => language.name == wanted

def grammarFor (language : Language) (path : String) : String :=
  if language = typescript && Path.lowerSuffix path == ".tsx" then "tsx" else language.name

end Language

structure NodeTable where
  imports : List String
  classes : List String
  functions : List String
  bindings : List String
  /-- Statements that may be an assignment. -/
  statements : List String
  /-- Expressions that are one. -/
  assignments : List String
  /-- Nodes around a declaration. -/
  wrappers : List String

def Language.table : Language → NodeTable
  | python =>
    { imports := ["import_statement", "import_from_statement", "future_import_statement"]
      classes := ["class_definition"]
      functions := ["function_definition"]
      bindings := ["assignment"]
      statements := ["expression_statement"]
      assignments := ["assignment", "augmented_assignment"]
      wrappers := ["decorated_definition"] }
  | javascript =>
    { imports := ["import_statement"]
      classes := ["class_declaration"]
      functions := ["function_declaration", "generator_function_declaration"]
      bindings := ["lexical_declaration", "variable_declaration"]
      statements := ["expression_statement"]
      assignments := ["assignment_expression"]
      wrappers := ["export_statement"] }
  | typescript =>
    { imports := ["import_statement", "import_alias"]
      classes :=
        ["class_declaration", "abstract_class_declaration", "interface_declaration",
         "type_alias_declaration", "enum_declaration"]
      functions :=
        ["function_declaration", "generator_function_declaration", "function_signature"]
      bindings := ["lexical_declaration", "variable_declaration"]
      statements := ["expression_statement"]
      assignments := ["assignment_expression"]
      wrappers := ["export_statement"] }

end SourceIndex
