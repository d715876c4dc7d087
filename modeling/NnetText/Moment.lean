/-!
# Moments

A moment is counted from the beginning of the year 1970. In structured logs it is written as a
date and a time of day in the common calendar, with as many groups of three places behind the
seconds as it needs.
-/

namespace NnetText

/-- A point in time. -/
structure Moment where
  /-- Whole seconds since the beginning of 1970. -/
  seconds : Nat
  /-- The part of a second. -/
  nanoseconds : Nat
deriving DecidableEq, Repr

namespace Moment

/-- The beginning of 1970. -/
def epoch : Moment := ⟨0, 0⟩

/-- The year, month and day of a number of days since the beginning of 1970. Years are counted
from March on, so that the day that leap years have more is the last one of its year, and in
cycles of 400 years, which all have the same length. -/
def date (days : Nat) : Nat × Nat × Nat :=
  let shifted := days + 719468
  let cycle := shifted / 146097
  let dayOfCycle := shifted % 146097
  let yearOfCycle :=
    (dayOfCycle - dayOfCycle / 1460 + dayOfCycle / 36524 - dayOfCycle / 146096) / 365
  let dayOfYear := dayOfCycle - (365 * yearOfCycle + yearOfCycle / 4 - yearOfCycle / 100)
  let fromMarch := (5 * dayOfYear + 2) / 153
  let day := dayOfYear - (153 * fromMarch + 2) / 5 + 1
  let month := if fromMarch < 10 then fromMarch + 3 else fromMarch - 9
  let year := yearOfCycle + 400 * cycle + (if month ≤ 2 then 1 else 0)
  (year, month, day)

/-- A number with zeros in front up to a width. -/
def padded (width n : Nat) : String :=
  let digits := toString n
  String.ofList (List.replicate (width - digits.length) '0') ++ digits

/-- The places behind the seconds. -/
def fraction (nanoseconds : Nat) : String :=
  if nanoseconds = 0 then ""
  else if nanoseconds % 1000000 = 0 then "." ++ padded 3 (nanoseconds / 1000000)
  else if nanoseconds % 1000 = 0 then "." ++ padded 6 (nanoseconds / 1000)
  else "." ++ padded 9 nanoseconds

/-- **The moment in writing.** -/
def text (m : Moment) : String :=
  let (year, month, day) := date (m.seconds / 86400)
  let rest := m.seconds % 86400
  padded 4 year ++ "-" ++ padded 2 month ++ "-" ++ padded 2 day ++ "T" ++
    padded 2 (rest / 3600) ++ ":" ++ padded 2 (rest / 60 % 60) ++ ":" ++ padded 2 (rest % 60) ++
    fraction m.nanoseconds ++ "Z"

end Moment

end NnetText
