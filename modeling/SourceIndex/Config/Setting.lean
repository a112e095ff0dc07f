import SourceIndex.Entries
import SourceIndex.Json.Basic
/-!
# Settings

The values that a settings file is made of.
-/

namespace SourceIndex

/-- A value of a settings file. `nothing` stands for a value that is given as none, `moment` for a
date or a time of day. -/
inductive Setting
  | nothing
  | flag (b : Bool)
  | number (n : Number)
  | text (s : String)
  | moment
  | list (items : List Setting)
  | table (fields : List (String × Setting))
  deriving Repr, Inhabited

namespace Setting

mutual

def ofJson : Json → Setting
  | .null => .nothing
  | .bool b => .flag b
  | .number n => .number n
  | .text s => .text s
  | .list items => .list (ofItems items)
  | .object fields => .table (ofFields fields)

def ofItems : List Json → List Setting
  | [] => []
  | item :: items => ofJson item :: ofItems items

def ofFields : List (String × Json) → Entries Setting
  | [] => []
  | (key, value) :: fields => (key, ofJson value) :: ofFields fields

end

def int (n : Int) : Setting := .number (.whole n)

def texts (items : List String) : Setting := .list (items.map .text)

end Setting
end SourceIndex
