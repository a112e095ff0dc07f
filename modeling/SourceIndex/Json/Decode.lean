import SourceIndex.Json.Plain
import SourceIndex.Number.Integer
/-!
# Reading records out of documents

The stored records are read leniently: a text is wanted and any value gives one, an integer is
wanted and numbers, truth values and texts with an integer in them give one. What cannot be read is
told apart by its cause.
-/

namespace SourceIndex.Json

inductive DecodeFault
  /-- A field is missing. -/
  | missing (field : String)
  /-- A value is of a kind that the wanted one cannot be taken from. -/
  | wrongKind
  /-- A text or a number does not hold what is wanted. -/
  | badValue
  /-- An infinite number stands where an integer is wanted. -/
  | infinite
  /-- A value that is no object is asked for its fields. -/
  | noFields
  /-- A part of a hash tree that has to be an object is none. -/
  | notAnObject (part : String)
  deriving DecidableEq, Repr

/-- The integer that a value stands for. Fractions are cut off. -/
def toInt : Json → Except DecodeFault Int
  | .bool b => .ok (if b then 1 else 0)
  | .number (.whole n) => .ok n
  | .number (.real .nan) => .error .badValue
  | .number (.real (.infinite _)) => .error .infinite
  | .number (.real x) => .ok (x.truncate?.getD 0)
  | .text s =>
    match Integer.ofText? s with
    | some n => .ok n
    | none => .error .badValue
  | .null | .list _ | .object _ => .error .wrongKind

/-- Whether a value counts as true: all do but nothing, zero and what is empty. -/
def truth : Json → Bool
  | .null => false
  | .bool b => b
  | .number n => n.compare? (.whole 0) != some .eq
  | .text s => s != ""
  | .list items => !items.isEmpty
  | .object fields => !fields.isEmpty

/-- The items that a value consists of: those of a list, the characters of a text, the keys of an
object. -/
def items : Json → Except DecodeFault (List Json)
  | .list items => .ok items
  | .text s => .ok (s.toList.map fun c => .text (String.ofList [c]))
  | .object fields => .ok (fields.map fun field => .text field.1)
  | .null | .bool _ | .number _ => .error .wrongKind

def field (key : String) (fields : Entries Json) : Except DecodeFault Json :=
  match Entries.get? key fields with
  | some value => .ok value
  | none => .error (.missing key)

def textField (key : String) (fields : Entries Json) : Except DecodeFault String :=
  (field key fields).map plain

def intField (key : String) (fields : Entries Json) : Except DecodeFault Int :=
  (field key fields).bind toInt

def itemsField (key : String) (fields : Entries Json) : Except DecodeFault (List Json) :=
  (field key fields).bind items

end SourceIndex.Json
