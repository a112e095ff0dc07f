import SourceIndex.Entries
import SourceIndex.Number.Basic
/-!
# Documents

The values that the stored index and the reports are made of.
-/

namespace SourceIndex

/-- A value of a document. An object keeps its entries in order, with every key once. -/
inductive Json
  | null
  | bool (b : Bool)
  | number (n : Number)
  | text (s : String)
  | list (items : List Json)
  | object (fields : List (String × Json))
  deriving Repr, Inhabited

namespace Json

def int (n : Int) : Json := .number (.whole n)

def nat (n : Nat) : Json := .int n

def optionalText : Option String → Json
  | some s => .text s
  | none => .null

def texts (items : List String) : Json := .list (items.map .text)

end Json
end SourceIndex
