import NnetText.Number.Binary

/-!
# Limits

How much of a model is taken in is bounded, and the bounds are fixed when the program is made, by
a profile. So is the arithmetic that the program computes with, by the system it is made for.
Everything that depends on one of them takes the whole record, so that a statement about a bound
or about a computed number is a statement for every profile and every arithmetic.
`Limits.standard` is one such record among others.
-/

namespace NnetText

/-- The bounds on what is taken in and kept, and the arithmetic of the system. -/
structure Limits where
  /-- The largest model file, in bytes. -/
  fileSize : Nat
  /-- The largest number of lines of a model file. -/
  lineCount : Nat
  /-- The largest number of elements of a vector or a matrix. -/
  tensorElements : Nat
  /-- The largest number of components of a section. -/
  components : Nat
  /-- The number of events the log keeps. -/
  logBuffer : Nat
  /-- The name of the set of bounds. -/
  profile : String
  /-- The document the bounds were taken from. -/
  origin : String
  /-- What the constants of normalization layers are computed with. -/
  arithmetic : Arithmetic Single

namespace Limits

/-- A profile with bounds that are small enough to be reached by a short model, and an arithmetic
that rounds every operation once. -/
def standard : Limits where
  fileSize := 6000
  lineCount := 150
  tensorElements := 256
  components := 24
  logBuffer := 100
  profile := "oracle"
  origin := "../oracle/limits/oracle.toml"
  arithmetic := .single

/-- The same bounds with the arithmetic of the system that the program runs on. -/
def onSystem (limits : Limits) : Limits := { limits with arithmetic := .system }

end Limits

end NnetText
