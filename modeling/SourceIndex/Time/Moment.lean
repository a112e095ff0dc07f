/-!
# Moments

A moment is counted in milliseconds from the start of the year 1970 and written as a date and a
time of day. The years of the count begin in March, so that the day that is put in stands at their
end.
-/

namespace SourceIndex

/-- A moment, in milliseconds from the start of 1970. -/
structure Moment where
  millis : Nat
  deriving DecidableEq, Repr

namespace Moment

structure Date where
  year : Nat
  month : Nat
  day : Nat
  deriving DecidableEq, Repr

/-- The days from the first of March of the year 0 to the start of 1970. -/
def daysToStart : Nat := 719468

/-- The year, counted from March, and the day in it, of a day in a span of four hundred years. -/
def yearOfDay (day : Nat) : Nat × Nat :=
  let year := (day - day / 1460 + day / 36524 - day / 146096) / 365
  (year, day - (365 * year + year / 4 - year / 100))

/-- The date of the day that lies so many days after the start of 1970. -/
def dateOfDay (days : Nat) : Date :=
  let day := days + daysToStart
  let (year, dayOfYear) := yearOfDay (day % 146097)
  let shifted := (5 * dayOfYear + 2) / 153
  let month := if shifted < 10 then shifted + 3 else shifted - 9
  ⟨year + 400 * (day / 146097) + (if month ≤ 2 then 1 else 0), month,
    dayOfYear - (153 * shifted + 2) / 5 + 1⟩

def padded (width n : Nat) : String :=
  let digits := Nat.toDigits 10 n
  String.ofList (List.replicate (width - digits.length) '0' ++ digits)

/-- The text of a moment, such as `2024-02-29T23:59:59.999Z`. -/
def text (m : Moment) : String :=
  let seconds := m.millis / 1000
  let date := dateOfDay (seconds / 86400)
  let time := seconds % 86400
  padded 4 date.year ++ "-" ++ padded 2 date.month ++ "-" ++ padded 2 date.day ++ "T" ++
    padded 2 (time / 3600) ++ ":" ++ padded 2 (time / 60 % 60) ++ ":" ++ padded 2 (time % 60) ++
    "." ++ padded 3 (m.millis % 1000) ++ "Z"

/-- A moment in nanoseconds, as the times of files are counted. -/
def nanos (m : Moment) : Int := m.millis * 1000000

end Moment
end SourceIndex
