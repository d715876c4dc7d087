import NnetText.Number.Fixed

/-!
# Durations

How long something took, as a clock reports it: whole seconds and a part of a second in
nanoseconds.
-/

namespace NnetText

/-- A span of time. -/
structure Duration where
  seconds : Nat
  nanoseconds : Nat
deriving DecidableEq, Repr

namespace Duration

/-- No time at all. -/
def zero : Duration := ⟨0, 0⟩

/-- The span in seconds, as a number. -/
def toSeconds (d : Duration) : Double :=
  (Format.double.ofInt d.seconds).add
    ((Format.double.ofInt d.nanoseconds).div (Format.double.ofInt 1000000000))

/-- The span in milliseconds, with two places. -/
def milliseconds (d : Duration) : String :=
  (d.toSeconds.mul (Format.double.ofInt 1000)).fixed 2

end Duration

end NnetText
