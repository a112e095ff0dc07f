import SourceIndex.Json.Basic
import SourceIndex.Number.Integer
/-!
# Reading documents

A document is one value with white space around it. Beyond the standard grammar the names `NaN`,
`Infinity` and `-Infinity` are numbers. A number with a fraction or an exponent is a floating-point
number, any other an integer. Of a repeated key the last value stays, in the place of the first.
-/

namespace SourceIndex.Json

/-- Why a text is no document: it breaks the grammar, it holds an integer of too many digits, or
its values are nested too deeply. -/
inductive ReadFault
  | malformed
  | integerTooLong
  | tooDeep
  deriving DecidableEq, Repr

/-- What reading at the front of a text gives: a value and the rest of the text. -/
abbrev Reading (α : Type) := Except ReadFault (α × List Char)

/-- How many objects and lists may enclose a value. -/
def maxDepth : Nat := 980

/-! ### White space and letters -/

def isSpace (c : Char) : Bool := c = ' ' || c = '\t' || c = '\n' || c = '\r'

def skipSpace (cs : List Char) : List Char := cs.dropWhile isSpace

def after? (start cs : List Char) : Option (List Char) :=
  if start.isPrefixOf cs then some (cs.drop start.length) else none

/-! ### Texts -/

def hexValue? (c : Char) : Option Nat :=
  if '0' ≤ c && c ≤ '9' then some (c.toNat - 48)
  else if 'a' ≤ c && c ≤ 'f' then some (c.toNat - 87)
  else if 'A' ≤ c && c ≤ 'F' then some (c.toNat - 55)
  else none

def readCode : List Char → Reading Nat
  | a :: b :: c :: d :: rest =>
    match hexValue? a, hexValue? b, hexValue? c, hexValue? d with
    | some a, some b, some c, some d => .ok (((a * 16 + b) * 16 + c) * 16 + d, rest)
    | _, _, _, _ => .error .malformed
  | _ => .error .malformed

/-- The character that stands for a code without a partner; U+FFFD for a lone surrogate. -/
def charOfCode (code : Nat) : Char :=
  if 0xD800 ≤ code && code < 0xE000 then '\ufffd' else Char.ofNat code

/-- The character of an escape of the form `\uXXXX`, after its `u`. Two escapes that are a high and
a low surrogate make one character. -/
def readUnicode (cs : List Char) : Reading Char :=
  match readCode cs with
  | .error fault => .error fault
  | .ok (code, rest) =>
    if 0xD800 ≤ code && code < 0xDC00 then
      match rest with
      | '\\' :: 'u' :: more =>
        match readCode more with
        | .error fault => .error fault
        | .ok (next, tail) =>
          if 0xDC00 ≤ next && next < 0xE000 then
            .ok (Char.ofNat (0x10000 + (code - 0xD800) * 0x400 + (next - 0xDC00)), tail)
          else .ok (charOfCode code, rest)
      | _ => .ok (charOfCode code, rest)
    else .ok (charOfCode code, rest)

/-- The character of an escape of one letter. -/
def escaped? : Char → Option Char
  | '"' => some '"'
  | '\\' => some '\\'
  | '/' => some '/'
  | 'b' => some '\x08'
  | 'f' => some '\x0c'
  | 'n' => some '\n'
  | 'r' => some '\r'
  | 't' => some '\t'
  | _ => none

/-- The characters of a text up to its closing quote, after those in `done` (last one first). Each
step takes at least one character off the text, so `fuel` above its length is enough. -/
def readText (done : List Char) : Nat → List Char → Reading (List Char)
  | 0, _ => .error .malformed
  | _, [] => .error .malformed
  | fuel + 1, c :: rest =>
    if c = '"' then .ok (done.reverse, rest)
    else if c = '\\' then
      match rest with
      | [] => .error .malformed
      | 'u' :: more =>
        match readUnicode more with
        | .ok (found, tail) => readText (found :: done) fuel tail
        | .error fault => .error fault
      | letter :: more =>
        match escaped? letter with
        | some found => readText (found :: done) fuel more
        | none => .error .malformed
    else if c.toNat < 0x20 then .error .malformed
    else readText (c :: done) fuel rest

/-! ### Numbers -/

def isDigit (c : Char) : Bool := '0' ≤ c && c ≤ '9'

def digitsValue (ds : List Char) : Nat := Integer.ofDigits (ds.map fun d => d.toNat - 48)

/-- The digits of a fraction at the front of a text; none if no digit follows a point. -/
def readFraction (cs : List Char) : List Char × List Char :=
  match cs with
  | '.' :: rest => if (rest.takeWhile isDigit).isEmpty then ([], cs)
    else (rest.takeWhile isDigit, rest.dropWhile isDigit)
  | _ => ([], cs)

def readExponent (cs : List Char) : Option Int × List Char :=
  match cs with
  | mark :: rest =>
    if mark = 'e' || mark = 'E' then
      let (negative, digits) := match rest with
        | '-' :: more => (true, more)
        | '+' :: more => (false, more)
        | more => (false, more)
      let power := digits.takeWhile isDigit
      if power.isEmpty then (none, cs)
      else
        (some (if negative then -(digitsValue power : Int) else digitsValue power),
          digits.dropWhile isDigit)
    else (none, cs)
  | [] => (none, cs)

/-- The digits of the integer part at the front of a text: a zero alone or digits that start with
another one. -/
def readWhole (cs : List Char) : List Char × List Char :=
  match cs with
  | '0' :: rest => (['0'], rest)
  | _ => (cs.takeWhile isDigit, cs.dropWhile isDigit)

def readNumber (negative : Bool) (cs : List Char) : Reading Number :=
  let (whole, rest) := readWhole cs
  if whole.isEmpty then .error .malformed
  else
    let (fraction, rest) := readFraction rest
    let (exponent, rest) := readExponent rest
    if fraction.isEmpty && exponent.isNone then
      if Integer.maxDigits < whole.length then .error .integerTooLong
      else
        let n : Int := digitsValue whole
        .ok (.whole (if negative then -n else n), rest)
    else
      .ok (.real (Binary64.ofDecimal negative (digitsValue (whole ++ fraction))
        (exponent.getD 0 - fraction.length)), rest)

/-! ### Values -/

/-- The values of a list up to its closing bracket, after those in `done` (last one first). Here
and below `fuel` above the length of the text is enough. -/
def readItems (value : List Char → Reading Json) : Nat → List Json → List Char →
    Reading (List Json)
  | 0, _, _ => .error .malformed
  | fuel + 1, done, cs =>
    match value cs with
    | .error fault => .error fault
    | .ok (item, rest) =>
      match skipSpace rest with
      | ',' :: more => readItems value fuel (item :: done) (skipSpace more)
      | ']' :: more => .ok ((item :: done).reverse, more)
      | _ => .error .malformed

/-- The fields of an object up to its closing brace, after those in `done` (last one first). -/
def readFields (value : List Char → Reading Json) : Nat → List (String × Json) → List Char →
    Reading (List (String × Json))
  | 0, _, _ => .error .malformed
  | fuel + 1, done, cs =>
    match cs with
    | '"' :: rest =>
      match readText [] (fuel + 1) rest with
      | .error fault => .error fault
      | .ok (key, rest) =>
        match skipSpace rest with
        | ':' :: rest =>
          match value (skipSpace rest) with
          | .error fault => .error fault
          | .ok (item, rest) =>
            let done := (String.ofList key, item) :: done
            match skipSpace rest with
            | ',' :: more => readFields value fuel done (skipSpace more)
            | '}' :: more => .ok (done.reverse, more)
            | _ => .error .malformed
        | _ => .error .malformed
    | _ => .error .malformed

def readName (name : String) (value : Json) (cs : List Char) : Reading Json :=
  match after? name.toList cs with
  | some rest => .ok (value, rest)
  | none => .error .malformed

/-- The value at the front of a text, which may be enclosed in and enclose `depth` more lists and
objects. -/
def readValue (fuel : Nat) : Nat → List Char → Reading Json
  | depth, cs =>
    match cs with
    | [] => .error .malformed
    | '"' :: rest => (readText [] fuel rest).map fun (s, rest) =>
      (.text (String.ofList s), rest)
    | 'n' :: _ => readName "null" .null cs
    | 't' :: _ => readName "true" (.bool true) cs
    | 'f' :: _ => readName "false" (.bool false) cs
    | 'N' :: _ => readName "NaN" (.number (.real .nan)) cs
    | 'I' :: _ => readName "Infinity" (.number (.real (.infinite false))) cs
    | '-' :: 'I' :: _ => readName "-Infinity" (.number (.real (.infinite true))) cs
    | '-' :: rest => (readNumber true rest).map fun (n, rest) => (.number n, rest)
    | '[' :: rest =>
      match depth with
      | 0 => .error .tooDeep
      | depth + 1 =>
        match skipSpace rest with
        | ']' :: more => .ok (.list [], more)
        | more => (readItems (readValue fuel depth) fuel [] more).map fun (items, rest) =>
          (.list items, rest)
    | '{' :: rest =>
      match depth with
      | 0 => .error .tooDeep
      | depth + 1 =>
        match skipSpace rest with
        | '}' :: more => .ok (.object [], more)
        | more => (readFields (readValue fuel depth) fuel [] more).map
          fun (fields, rest) => (.object (Entries.ofList fields), rest)
    | _ => (readNumber false cs).map fun (n, rest) => (.number n, rest)

def read (s : String) : Except ReadFault Json :=
  let cs := s.toList
  match readValue (cs.length + 1) maxDepth (skipSpace cs) with
  | .error fault => .error fault
  | .ok (value, rest) => if (skipSpace rest).isEmpty then .ok value else .error .malformed

end SourceIndex.Json
