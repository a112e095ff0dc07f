import SourceIndex.Json.Basic
import SourceIndex.Text.Printable
/-!
# Plain text of values

How a value reads when a text is wanted: a text stands for itself, all other values are spelled
out, and texts inside lists and objects are quoted.
-/

namespace SourceIndex

/-! ### Quoting -/

namespace Text

def hexDigits (width code : Nat) : List Char :=
  let digits := Nat.toDigits 16 code
  List.replicate (width - digits.length) '0' ++ digits

def quoteChar (quote c : Char) : List Char :=
  if c = quote || c = '\\' then ['\\', c]
  else if c = '\n' then ['\\', 'n']
  else if c = '\r' then ['\\', 'r']
  else if c = '\t' then ['\\', 't']
  else if isPrintable c then [c]
  else if c.toNat < 0x100 then '\\' :: 'x' :: hexDigits 2 c.toNat
  else if c.toNat < 0x10000 then '\\' :: 'u' :: hexDigits 4 c.toNat
  else '\\' :: 'U' :: hexDigits 8 c.toNat

/-- A text in quotes: in double ones if it holds single ones only, else in single ones. -/
def quoted (s : String) : String :=
  let cs := s.toList
  let quote := if cs.contains '\'' && !cs.contains '"' then '"' else '\''
  String.ofList (quote :: cs.flatMap (quoteChar quote) ++ [quote])

end Text

namespace Json

/-! ### Values -/

def commaList (items : List String) : String := ", ".intercalate items

mutual

def spelled : Json → String
  | .null => "None"
  | .bool b => if b then "True" else "False"
  | .number n => n.text
  | .text s => Text.quoted s
  | .list items => "[" ++ commaList (spelledItems items) ++ "]"
  | .object fields => "\x7b" ++ commaList (spelledFields fields) ++ "\x7d"

def spelledItems : List Json → List String
  | [] => []
  | item :: items => spelled item :: spelledItems items

def spelledFields : List (String × Json) → List String
  | [] => []
  | (key, value) :: fields => (Text.quoted key ++ ": " ++ spelled value) :: spelledFields fields

end

def plain : Json → String
  | .text s => s
  | value => value.spelled

end Json
end SourceIndex
