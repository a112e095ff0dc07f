import SourceIndex.Config.Setting
import SourceIndex.Json.Reader
/-!
# Scalars of settings files

Numbers, dates and times, texts and keys at the front of a settings file's text.
-/

namespace SourceIndex.Toml

/-- Why a text is no settings file: it breaks the grammar, it holds a decimal integer of too many
digits, or its values are nested too deeply. -/
inductive ReadFault
  | malformed
  | integerTooLong
  | tooDeep
  deriving DecidableEq, Repr

/-- What reading at the front of a text gives: a value and the rest of the text. -/
abbrev Reading (α : Type) := Except ReadFault (α × List Char)

/-! ### Characters -/

def isSpace (c : Char) : Bool := c = ' ' || c = '\t'

def isSpaceOrEnd (c : Char) : Bool := isSpace c || c = '\n'

def skipSpace (cs : List Char) : List Char := cs.dropWhile isSpace

/-- Whether a character may not stand in a text or a comment as it is. -/
def isControl (c : Char) : Bool := c.toNat < 0x20 && c != '\t' || c.toNat = 0x7F

/-- Whether a character may not stand in a text of several lines as it is. -/
def isControlInLines (c : Char) : Bool := isControl c && c != '\n'

def isKeyChar (c : Char) : Bool := c.isAlphanum || c = '-' || c = '_'

def isDigit (c : Char) : Bool := '0' ≤ c && c ≤ '9'

def isHexDigit (c : Char) : Bool := (Json.hexValue? c).isSome

/-! ### Numbers -/

/-- The digits at the front of a text, between which single underscores may stand, and the rest. -/
def digitRun (isOne : Char → Bool) : List Char → List Char × List Char
  | '_' :: c :: rest =>
    if isOne c then
      let (more, tail) := digitRun isOne rest
      (c :: more, tail)
    else ([], '_' :: c :: rest)
  | c :: rest =>
    if isOne c then
      let (more, tail) := digitRun isOne rest
      (c :: more, tail)
    else ([], c :: rest)
  | [] => ([], [])

def digits? (isOne : Char → Bool) (cs : List Char) : Option (List Char × List Char) :=
  match cs with
  | c :: _ => if isOne c then some (digitRun isOne cs) else none
  | [] => none

def inBase (base : Nat) (ds : List Char) : Nat :=
  ds.foldl (fun n d => base * n + (Json.hexValue? d).getD 0) 0

/-- An integer in hexadecimal, binary or octal digits, after the letter that tells the base. -/
def based? (base : Nat) (isOne : Char → Bool) (cs : List Char) : Option (Int × List Char) :=
  (digits? isOne cs).map fun (ds, rest) => ((inBase base ds : Nat), rest)

def prefixed? : List Char → Option (Int × List Char)
  | '0' :: 'x' :: cs => based? 16 isHexDigit cs
  | '0' :: 'b' :: cs => based? 2 (fun c => c = '0' || c = '1') cs
  | '0' :: 'o' :: cs => based? 8 (fun c => '0' ≤ c && c ≤ '7') cs
  | _ => none

def sign (cs : List Char) : Bool × List Char :=
  match cs with
  | '-' :: rest => (true, rest)
  | '+' :: rest => (false, rest)
  | _ => (false, cs)

/-- The digits of the integer part: a zero alone, or digits that start with another one. -/
def wholeDigits? (cs : List Char) : Option (List Char × List Char) :=
  match cs with
  | '0' :: rest => some (['0'], rest)
  | _ => digits? isDigit cs

/-- The digits of a fraction; none if no digit follows a point. -/
def fraction (cs : List Char) : List Char × List Char :=
  match cs with
  | '.' :: rest => (digits? isDigit rest).getD ([], cs)
  | _ => ([], cs)

def exponent (cs : List Char) : Option Int × List Char :=
  match cs with
  | mark :: rest =>
    if mark = 'e' || mark = 'E' then
      let (negative, body) := sign rest
      match digits? isDigit body with
      | some (ds, tail) =>
        let n : Int := inBase 10 ds
        (some (if negative then -n else n), tail)
      | none => (none, cs)
    else (none, cs)
  | [] => (none, cs)

def decimal? (cs : List Char) : Option (Reading Number) :=
  let (negative, body) := sign cs
  (wholeDigits? body).map fun (whole, rest) =>
    let (fractionDigits, rest) := fraction rest
    let (power, rest) := exponent rest
    if fractionDigits.isEmpty && power.isNone then
      if Integer.maxDigits < whole.length then .error .integerTooLong
      else
        let n : Int := inBase 10 whole
        .ok (.whole (if negative then -n else n), rest)
    else
      .ok (.real (Binary64.ofDecimal negative (inBase 10 (whole ++ fractionDigits))
        (power.getD 0 - fractionDigits.length)), rest)

def named? (cs : List Char) : Option (Number × List Char) :=
  let (negative, body) := sign cs
  match body with
  | 'i' :: 'n' :: 'f' :: rest => some (.real (.infinite negative), rest)
  | 'n' :: 'a' :: 'n' :: rest => some (.real .nan, rest)
  | _ => none

/-! ### Dates and times -/

def fixedDigits? (count : Nat) (cs : List Char) : Option (Nat × List Char) :=
  let ds := cs.take count
  if ds.length = count && ds.all isDigit then some (inBase 10 ds, cs.drop count) else none

def twoDigits? (low high : Nat) (cs : List Char) : Option (Nat × List Char) :=
  (fixedDigits? 2 cs).filter fun found => low ≤ found.1 && found.1 ≤ high

def after? (c : Char) : List Char → Option (List Char)
  | d :: rest => if d = c then some rest else none
  | [] => none

def time? (cs : List Char) : Option (List Char) := do
  let (_, cs) ← twoDigits? 0 23 cs
  let cs ← after? ':' cs
  let (_, cs) ← twoDigits? 0 59 cs
  let cs ← after? ':' cs
  let (_, cs) ← twoDigits? 0 59 cs
  match cs with
  | '.' :: d :: rest => return if isDigit d then rest.dropWhile isDigit else cs
  | _ => return cs

def date? (cs : List Char) : Option ((Nat × Nat × Nat) × List Char) := do
  let (year, cs) ← fixedDigits? 4 cs
  let cs ← after? '-' cs
  let (month, cs) ← twoDigits? 1 12 cs
  let cs ← after? '-' cs
  let (day, cs) ← twoDigits? 1 31 cs
  return ((year, month, day), cs)

def offset (cs : List Char) : List Char :=
  match cs with
  | 'Z' :: rest | 'z' :: rest => rest
  | c :: rest =>
    if c = '+' || c = '-' then
      (do
        let (_, cs) ← twoDigits? 0 23 rest
        let cs ← after? ':' cs
        let (_, cs) ← twoDigits? 0 59 cs
        return cs : Option (List Char)).getD cs
    else cs
  | [] => []

def daysIn (year month : Nat) : Nat :=
  if month = 2 then
    if year % 4 = 0 && (year % 100 != 0 || year % 400 = 0) then 29 else 28
  else if month = 4 || month = 6 || month = 9 || month = 11 then 30
  else 31

def dateTime? (cs : List Char) : Option (Reading Setting) :=
  (date? cs).map fun ((year, month, day), rest) =>
    let tail := match rest with
      | c :: more =>
        if c = 'T' || c = 't' || c = ' ' then ((time? more).map offset).getD rest else rest
      | [] => []
    if 1 ≤ year && day ≤ daysIn year month then .ok (.moment, tail) else .error .malformed

/-! ### Texts -/

/-- The characters up to the first of the given ones in a row, and what follows those. -/
def upTo? (stop : List Char) : List Char → Option (List Char × List Char)
  | [] => none
  | c :: rest =>
    if stop.isPrefixOf (c :: rest) then some ([], (c :: rest).drop stop.length)
    else (upTo? stop rest).map fun (before, tail) => (c :: before, tail)

def literal (stop : List Char) (isBad : Char → Bool) (cs : List Char) : Reading (List Char) :=
  match upTo? stop cs with
  | none => .error .malformed
  | some (body, rest) => if body.any isBad then .error .malformed else .ok (body, rest)

def hexEscape (count : Nat) (cs : List Char) : Reading (List Char) :=
  let ds := cs.take count
  if ds.length = count && ds.all isHexDigit then
    let n := inBase 16 ds
    if n < 0xD800 || 0xE000 ≤ n && n < 0x110000 then .ok ([Char.ofNat n], cs.drop count)
    else .error .malformed
  else .error .malformed

/-- The characters of an escape, after its backslash. In a text of several lines a backslash at
the end of a line leaves out all white space that follows. -/
def escape (several : Bool) : List Char → Reading (List Char)
  | [] => .error .malformed
  | c :: rest =>
    if several && isSpaceOrEnd c then
      if c = '\n' then .ok ([], rest.dropWhile isSpaceOrEnd)
      else
        match skipSpace rest with
        | [] => .ok ([], [])
        | '\n' :: more => .ok ([], more.dropWhile isSpaceOrEnd)
        | _ => .error .malformed
    else
      match c with
      | 'b' => .ok (['\x08'], rest)
      | 't' => .ok (['\t'], rest)
      | 'n' => .ok (['\n'], rest)
      | 'f' => .ok (['\x0c'], rest)
      | 'r' => .ok (['\r'], rest)
      | '"' => .ok (['"'], rest)
      | '\\' => .ok (['\\'], rest)
      | 'u' => hexEscape 4 rest
      | 'U' => hexEscape 8 rest
      | _ => .error .malformed

/-- The characters of a text with escapes up to the quotes that close it, after those in `done`
(last one first). Every step takes a character off, so `fuel` of the text's length is enough. -/
def basic (several : Bool) (done : List Char) : Nat → List Char → Reading (List Char)
  | 0, _ => .error .malformed
  | _, [] => .error .malformed
  | fuel + 1, c :: rest =>
    if c = '"' then
      if !several then .ok (done.reverse, rest)
      else
        match rest with
        | '"' :: '"' :: more => .ok (done.reverse, more)
        | _ => basic several (c :: done) fuel rest
    else if c = '\\' then
      match escape several rest with
      | .error fault => .error fault
      | .ok (found, rest) => basic several (found.reverse ++ done) fuel rest
    else if (if several then isControlInLines c else isControl c) then .error .malformed
    else basic several (c :: done) fuel rest

def basicLine (cs : List Char) : Reading (List Char) := basic false [] (cs.length + 1) cs

/-- The text with up to two more quotes that stand after the closing ones. -/
def extraQuotes (quote : Char) (body rest : List Char) : List Char × List Char :=
  match rest with
  | a :: b :: more =>
    if a = quote then
      if b = quote then (body ++ [quote, quote], more) else (body ++ [quote], b :: more)
    else (body, rest)
  | [a] => if a = quote then (body ++ [quote], []) else (body, rest)
  | [] => (body, rest)

/-- A text of several lines, after its opening quotes. A line end right after those is left out. -/
def severalLines (quote : Char) (cs : List Char) : Reading (List Char) :=
  let cs := match cs with
    | '\n' :: rest => rest
    | _ => cs
  let body :=
    if quote = '"' then basic true [] (cs.length + 1) cs
    else literal [quote, quote, quote] isControlInLines cs
  body.map fun (body, rest) => extraQuotes quote body rest

def text? : List Char → Option (Reading (List Char))
  | '"' :: '"' :: '"' :: rest => some (severalLines '"' rest)
  | '"' :: rest => some (basicLine rest)
  | '\'' :: '\'' :: '\'' :: rest => some (severalLines '\'' rest)
  | '\'' :: rest => some (literal ['\''] isControl rest)
  | _ => none

/-! ### Keys -/

def keyPart (cs : List Char) : Reading String :=
  match cs with
  | '\'' :: rest => (literal ['\''] isControl rest).map fun (s, rest) => (String.ofList s, rest)
  | '"' :: rest => (basicLine rest).map fun (s, rest) => (String.ofList s, rest)
  | _ =>
    let body := cs.takeWhile isKeyChar
    if body.isEmpty then .error .malformed
    else .ok (String.ofList body, cs.dropWhile isKeyChar)

/-- The parts of a key up to something that is no point, after those in `done` (last one first). -/
def keyParts (done : List String) : Nat → List Char → Reading (List String)
  | 0, _ => .error .malformed
  | fuel + 1, cs =>
    match keyPart cs with
    | .error fault => .error fault
    | .ok (part, rest) =>
      match skipSpace rest with
      | '.' :: more => keyParts (part :: done) fuel (skipSpace more)
      | rest => .ok ((part :: done).reverse, rest)

def key (cs : List Char) : Reading (List String) := keyParts [] (cs.length + 1) cs

end SourceIndex.Toml
