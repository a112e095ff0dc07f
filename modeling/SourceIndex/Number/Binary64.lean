/-!
# Binary floating-point numbers

Numbers with a 53-bit significand, as settings and measurements hold them. Every operation computes
the exact result first and rounds it once, to the nearest number and on a tie to the one with an
even significand.
-/

namespace SourceIndex

/-- A floating-point number. `finite` stands for `significand * 2 ^ exponent`; the significand is
below `2 ^ 53`, the exponent from -1074 to 971, and a significand below `2 ^ 52` has the exponent
-1074. -/
inductive Binary64
  | nan
  | infinite (negative : Bool)
  | finite (negative : Bool) (significand : Nat) (exponent : Int)
  deriving DecidableEq, Repr, Inhabited

namespace Binary64

def zero : Binary64 := .finite false 0 (-1074)

/-! ### Rounding -/

def twoTo (n : Nat) : Nat := Nat.pow 2 n

def tenTo (n : Nat) : Nat := Nat.pow 10 n

/-- The quotient of two naturals, rounded to the nearest natural, a half to the even one. -/
def roundDiv (num den : Nat) : Nat :=
  let q := num / den
  let twice := 2 * (num % den)
  if twice < den then q else if den < twice then q + 1 else q + q % 2

def roundShifted (num den : Nat) (shift : Int) : Nat :=
  roundDiv (num * twoTo shift.toNat) (den * twoTo (-shift).toNat)

/-- The exponent that gives the quotient of two positive naturals a significand of 53 bits, or the
least exponent if that is larger. -/
def exponentOf (num den : Nat) : Int :=
  let guess : Int := (num.log2 : Int) - (den.log2 : Int) - 52
  let isBelow := num * twoTo (-guess).toNat < twoTo 52 * den * twoTo guess.toNat
  let low := if isBelow then guess - 1 else guess
  max low (-1074)

/-- The number nearest to the quotient of two naturals. -/
def ofRatio (negative : Bool) (num den : Nat) : Binary64 :=
  if num = 0 then .finite negative 0 (-1074)
  else
    let e := exponentOf num den
    let m := roundShifted num den (-e)
    let (m, e) := if m = twoTo 53 then (twoTo 52, e + 1) else (m, e)
    if 971 < e then .infinite negative else .finite negative m e

def ofInt? (n : Int) : Option Binary64 :=
  match ofRatio (n < 0) n.natAbs 1 with
  | .infinite _ => none
  | x => some x

/-- The number nearest to `digits * 10 ^ exponent`. -/
def ofDecimal (negative : Bool) (digits : Nat) (exponent : Int) : Binary64 :=
  let magnitude : Int := (Nat.toDigits 10 digits).length + exponent
  if digits = 0 || magnitude < -330 then .finite negative 0 (-1074)
  else if 330 < magnitude then .infinite negative
  else ofRatio negative (digits * tenTo exponent.toNat) (tenTo (-exponent).toNat)

/-! ### Exact values -/

def compareScaled (a i b j : Int) : Ordering :=
  let low := min i j
  compare (a * twoTo (i - low).toNat) (b * twoTo (j - low).toNat)

def scaled (negative : Bool) (significand : Nat) : Int :=
  if negative then -(significand : Int) else significand

def compare? : Binary64 → Binary64 → Option Ordering
  | .nan, _ => none
  | _, .nan => none
  | .infinite a, .infinite b => some (compare (if a then -1 else (1 : Int)) (if b then -1 else 1))
  | .infinite a, .finite .. => some (if a then .lt else .gt)
  | .finite .., .infinite b => some (if b then .gt else .lt)
  | .finite a m e, .finite b n f => some (compareScaled (scaled a m) e (scaled b n) f)

def truncate? : Binary64 → Option Int
  | .finite negative m e => some (scaled negative (m * twoTo e.toNat / twoTo (-e).toNat))
  | _ => none

/-! ### Arithmetic -/

def scale (factor : Nat) : Binary64 → Binary64
  | .finite negative m e =>
    ofRatio negative (m * factor * twoTo e.toNat) (twoTo (-e).toNat)
  | x => if factor = 0 then .nan else x

/-- The nearest integer to a finite number's magnitude times `10 ^ places`, a half to the even
one. -/
def decimalPart (m : Nat) (e : Int) (places : Nat) : Nat :=
  roundShifted (m * tenTo places) 1 e

/-- The number nearest to the number rounded to some decimal places. -/
def roundPlaces (places : Nat) : Binary64 → Binary64
  | .finite negative m e => ofRatio negative (decimalPart m e places) (tenTo places)
  | x => x

end Binary64
end SourceIndex
