import SourceIndex.Number.Shortest
/-!
# Numbers

A number of a document is an integer of any size or a floating-point number, and the two are told
apart: a number written with a point or an exponent is no integer.
-/

namespace SourceIndex

inductive Number
  | whole (n : Int)
  | real (x : Binary64)
  deriving DecidableEq, Repr, Inhabited

namespace Number

/-- How two numbers compare by their exact values; not at all if one is not a number. -/
def compare? : Number → Number → Option Ordering
  | .whole a, .whole b => some (compare a b)
  | .real x, .real y => x.compare? y
  | .whole a, .real y => exact a y
  | .real x, .whole b => (exact b x).map Ordering.swap
where
  exact (a : Int) : Binary64 → Option Ordering
    | .nan => none
    | .infinite negative => some (if negative then .gt else .lt)
    | .finite negative m e => some (Binary64.compareScaled a 0 (Binary64.scaled negative m) e)

def lt (a b : Number) : Bool := a.compare? b = some .lt

def le (a b : Number) : Bool := a.compare? b = some .lt || a.compare? b = some .eq

def text : Number → String
  | .whole n => toString n
  | .real x => x.text

/-- The number as a percentage without decimal places, if it is not too large. -/
def percent? : Number → Option String
  | .whole n => (Binary64.ofInt? n).map Binary64.percent
  | .real x => some x.percent

end Number
end SourceIndex
