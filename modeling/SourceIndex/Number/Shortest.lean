import SourceIndex.Number.Binary64
/-!
# Number text

A number is written with the fewest decimal digits that read back to it, and of those with the
digits nearest to it. From `10 ^ -4` up to `10 ^ 16` the digits are placed around a point, with at
least one digit after it; beyond that they are followed by a power of ten.
-/

namespace SourceIndex.Binary64

/-! ### Digits -/

def compareDecimal (digits : Nat) (i : Int) (n : Nat) (j : Int) : Ordering :=
  compare (digits * tenTo i.toNat * twoTo (-j).toNat) (n * twoTo j.toNat * tenTo (-i).toNat)

/-- Whether `digits * 10 ^ i` reads back as `m * 2 ^ e`: it lies between the points halfway to the
two neighbours, and on such a point only if the significand is even. -/
def readsBack (m : Nat) (e : Int) (digits : Nat) (i : Int) : Bool :=
  let narrow := m = twoTo 52 && -1074 < e
  let low := compareDecimal digits i (if narrow then 4 * m - 1 else 4 * m - 2) (e - 2)
  let high := compareDecimal digits i (4 * m + 2) (e - 2)
  let even := m % 2 = 0
  (low = .gt || (even && low = .eq)) && (high = .lt || (even && high = .eq))

/-- How many digits the integer part of `m * 2 ^ e` has; zero or negative for small values. -/
def magnitude (m : Nat) (e : Int) : Int :=
  let shifted := m * tenTo 350 * twoTo e.toNat / twoTo (-e).toNat
  ((Nat.toDigits 10 shifted).length : Int) - 350

/-- The multiple of `10 ^ i` next to `m * 2 ^ e` that reads back as it, if there is one; the nearer
one of two, and of two equally near ones the even one. -/
def candidate? (m : Nat) (e i : Int) : Option Nat :=
  let num := m * twoTo e.toNat * tenTo (-i).toNat
  let den := twoTo (-e).toNat * tenTo i.toNat
  let below := num / den
  let lowFits := readsBack m e below i
  let highFits := readsBack m e (below + 1) i
  let nearest := roundDiv num den
  if lowFits && highFits then some nearest
  else if lowFits then some below
  else if highFits then some (below + 1)
  else none

/-- The fewest digits that read back as `m * 2 ^ e`, with the power of ten they stand before. -/
def shortest (m : Nat) (e : Int) : Nat × Int :=
  let top := magnitude m e
  let found := (List.range 17).findSome? fun (n : Nat) =>
    let i := top - (n + 1 : Nat)
    (candidate? m e i).map (·, i)
  found.getD (m * Nat.pow 5 (-e).toNat * twoTo e.toNat, min e 0)

/-! ### Layout -/

/-- The digits of a natural without the zeros at the end, and how many zeros those were. -/
def significant (n : Nat) : List Char × Nat :=
  let digits := Nat.toDigits 10 n
  let zeros := (digits.reverse.takeWhile (· = '0')).length
  (digits.take (digits.length - zeros), zeros)

/-- The digits with a point after the first `places` of them and zeros where none are left. -/
def positional (digits : List Char) (places : Int) : List Char :=
  if places ≤ 0 then ['0', '.'] ++ List.replicate (-places).toNat '0' ++ digits
  else
    let whole := digits.take places.toNat
    let rest := digits.drop places.toNat
    whole ++ List.replicate (places.toNat - whole.length) '0' ++ ['.'] ++
      (if rest.isEmpty then ['0'] else rest)

def scientific (digits : List Char) (power : Int) : List Char :=
  let mantissa := match digits with
    | [] => []
    | [d] => [d]
    | d :: rest => d :: '.' :: rest
  let size := Nat.toDigits 10 power.natAbs
  mantissa ++ ['e', if power < 0 then '-' else '+'] ++
    List.replicate (2 - size.length) '0' ++ size

def magnitudeText (m : Nat) (e : Int) : List Char :=
  let (n, i) := shortest m e
  let (digits, zeros) := significant n
  let places := (digits.length : Int) + zeros + i
  if -4 < places && places ≤ 16 then positional digits places else scientific digits (places - 1)

def text : Binary64 → String
  | .nan => "nan"
  | .infinite negative => if negative then "-inf" else "inf"
  | .finite negative m e =>
    String.ofList ((if negative then ['-'] else []) ++
      if m = 0 then ['0', '.', '0'] else magnitudeText m e)

/-- The number as a percentage without decimal places, a half to the even neighbour. -/
def percent (x : Binary64) : String :=
  (match x.scale 100 with
    | .finite negative m e => (if negative then "-" else "") ++ toString (decimalPart m e 0)
    | other => other.text) ++ "%"

end SourceIndex.Binary64
