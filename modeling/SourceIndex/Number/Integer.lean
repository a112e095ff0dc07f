import SourceIndex.Text.Blank
import SourceIndex.Text.Ranges
/-!
# Integers in text

An integer is read from text with blanks around it, an optional sign, and decimal digits of any
script, between which single underscores may stand. At most 4300 digits are read.

The digits are those of Unicode 14: the code points of the digit zero of every script that writes
numbers in base ten. The nine digits after each zero follow it directly.
-/

/-! ### Decimal digits -/

namespace SourceIndex.Text

def decimalZeros : List Nat :=
  [0x30, 0x660, 0x6F0, 0x7C0, 0x966, 0x9E6, 0xA66, 0xAE6, 0xB66, 0xBE6, 0xC66, 0xCE6, 0xD66,
   0xDE6, 0xE50, 0xED0, 0xF20, 0x1040, 0x1090, 0x17E0, 0x1810, 0x1946, 0x19D0, 0x1A80, 0x1A90,
   0x1B50, 0x1BB0, 0x1C40, 0x1C50, 0xA620, 0xA8D0, 0xA900, 0xA9D0, 0xA9F0, 0xAA50, 0xABF0, 0xFF10,
   0x104A0, 0x10D30, 0x11066, 0x110F0, 0x11136, 0x111D0, 0x112F0, 0x11450, 0x114D0, 0x11650,
   0x116C0, 0x11730, 0x118E0, 0x11950, 0x11C50, 0x11D50, 0x11DA0, 0x16A60, 0x16AC0, 0x16B50,
   0x1D7CE, 0x1D7D8, 0x1D7E2, 0x1D7EC, 0x1D7F6, 0x1E140, 0x1E2F0, 0x1E950, 0x1FBF0]

def decimalValue? (c : Char) : Option Nat :=
  (decimalZeros.find? fun start => start ≤ c.toNat && c.toNat ≤ start + 9).map (c.toNat - ·)

end SourceIndex.Text

/-! ### Integers -/

namespace SourceIndex.Integer

/-- The blank characters that may stand around an integer; information separators may not. -/
def isPadding (c : Char) : Bool := Text.isBlankChar c && !(0x1C ≤ c.toNat && c.toNat ≤ 0x1F)

def maxDigits : Nat := 4300

def digitValues? : List Char → Option (List Nat)
  | [] => none
  | [c] => (Text.decimalValue? c).map ([·])
  | c :: '_' :: rest => do
    let d ← Text.decimalValue? c
    let ds ← digitValues? rest
    return d :: ds
  | c :: rest => do
    let d ← Text.decimalValue? c
    let ds ← digitValues? rest
    return d :: ds

def ofDigits (ds : List Nat) : Nat := ds.foldl (fun n d => 10 * n + d) 0

def natural? (cs : List Char) : Option Nat := do
  let ds ← digitValues? cs
  if ds.length ≤ maxDigits then return ofDigits ds else none

def ofText? (s : String) : Option Int :=
  let body := ((s.toList.dropWhile isPadding).reverse.dropWhile isPadding).reverse
  match body with
  | '-' :: rest => (natural? rest).map fun n => -(n : Int)
  | '+' :: rest => (natural? rest).map Int.ofNat
  | rest => (natural? rest).map Int.ofNat

end SourceIndex.Integer
