import SourceIndex.Json.Basic
import SourceIndex.Number.Integer
/-!
# Writing documents

A document is written in ASCII with the fields of every object in the order of their keys: on one
line, or indented by two spaces a level. An integer that is too long to be read is too long to be
written, too.
-/

namespace SourceIndex.Json

/-! ### Texts and numbers -/

def codeDigits (code : Nat) : List Char :=
  [4096, 256, 16, 1].map fun weight => Nat.digitChar (code / weight % 16)

def writeChar (c : Char) : List Char :=
  let n := c.toNat
  if c = '"' then ['\\', '"']
  else if c = '\\' then ['\\', '\\']
  else if c = '\n' then ['\\', 'n']
  else if c = '\r' then ['\\', 'r']
  else if c = '\t' then ['\\', 't']
  else if n = 0x08 then ['\\', 'b']
  else if n = 0x0C then ['\\', 'f']
  else if 0x20 ≤ n && n < 0x7F then [c]
  else if n < 0x10000 then '\\' :: 'u' :: codeDigits n
  else
    '\\' :: 'u' :: codeDigits (0xD800 + (n - 0x10000) / 0x400) ++
      '\\' :: 'u' :: codeDigits (0xDC00 + (n - 0x10000) % 0x400)

def writeText (s : String) : List Char := '"' :: s.toList.flatMap writeChar ++ ['"']

/-- A number; the ones that are not finite have names. -/
def writeNumber : Number → List Char
  | .real .nan => "NaN".toList
  | .real (.infinite negative) => (if negative then "-Infinity" else "Infinity").toList
  | n => n.text.toList

/-! ### Values -/

/-- How lists and objects are laid out. -/
inductive Layout
  | line
  | indented
  deriving DecidableEq

def Layout.lead (layout : Layout) (level : Nat) : List Char :=
  match layout with
  | .line => []
  | .indented => '\n' :: List.replicate (2 * level) ' '

def Layout.gap (layout : Layout) (level : Nat) : List Char :=
  match layout with
  | .line => [',', ' ']
  | .indented => ',' :: layout.lead level

def enclose (layout : Layout) (level : Nat) (first last : Char) (items : List (List Char)) :
    List Char :=
  if items.isEmpty then [first, last]
  else
    first :: layout.lead (level + 1) ++ List.intercalate (layout.gap (level + 1)) items ++
      layout.lead level ++ [last]

mutual

def writeValue (layout : Layout) (level : Nat) : Json → List Char
  | .null => "null".toList
  | .bool b => (if b then "true" else "false").toList
  | .number n => writeNumber n
  | .text s => writeText s
  | .list items => enclose layout level '[' ']' (writeItems layout (level + 1) items)
  | .object fields =>
    enclose layout level '{' '}'
      ((Entries.sort (writeFields layout (level + 1) fields)).map fun (key, value) =>
        writeText key ++ ':' :: ' ' :: value)

def writeItems (layout : Layout) (level : Nat) : List Json → List (List Char)
  | [] => []
  | item :: items => writeValue layout level item :: writeItems layout level items

def writeFields (layout : Layout) (level : Nat) : List (String × Json) → Entries (List Char)
  | [] => []
  | (key, value) :: fields =>
    (key, writeValue layout level value) :: writeFields layout level fields

end

/-! ### Long integers -/

/-- Whether an integer has so few digits that it is written. -/
def isShort (n : Int) : Bool := (Nat.toDigits 10 n.natAbs).length ≤ Integer.maxDigits

mutual

def isWritable : Json → Bool
  | .number (.whole n) => isShort n
  | .list items => areWritable items
  | .object fields => areFieldsWritable fields
  | .null | .bool _ | .number (.real _) | .text _ => true

def areWritable : List Json → Bool
  | [] => true
  | item :: items => isWritable item && areWritable items

def areFieldsWritable : List (String × Json) → Bool
  | [] => true
  | (_, value) :: fields => isWritable value && areFieldsWritable fields

end

/-! ### Documents -/

def line (value : Json) : String := String.ofList (writeValue .line 0 value)

def indented (value : Json) : String := String.ofList (writeValue .indented 0 value)

end SourceIndex.Json
