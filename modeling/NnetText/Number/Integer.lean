import NnetText.Number.Power

/-!
# Integer literals

An integer is written as an optional sign and decimal digits, and has to fit in a signed word
of 64 bits. The characters are judged from left to right and the first fault is the one
reported: a number that is already too large is reported before a bad character behind it.
-/

namespace NnetText

/-- Why a token is no integer. -/
inductive IntegerFault where
  | empty
  | invalidDigit
  | tooLarge
  | tooSmall
deriving DecidableEq, Repr

namespace IntegerFault

/-- The words of the fault. -/
def message : IntegerFault → String
  | empty => "cannot parse integer from empty string"
  | invalidDigit => "invalid digit found in string"
  | tooLarge => "number too large to fit in target type"
  | tooSmall => "number too small to fit in target type"

end IntegerFault

namespace Integer

/-- The largest integer there is. -/
def maxValue : Int := twoPow 63 - 1

/-- The smallest integer there is. -/
def minValue : Int := -twoPow 63

/-- The value of a decimal digit. -/
def digit? (c : Char) : Option Nat :=
  if c.isDigit then some (c.toNat - '0'.toNat) else none

/-- The number whose digits so far stand for `value`, continued by more digits, none of whose
beginnings may exceed `limit`. -/
def parseDigits (limit : Nat) (overflow : IntegerFault) (value : Nat) :
    List Char → Except IntegerFault Nat
  | [] => .ok value
  | c :: cs =>
    match digit? c with
    | none => .error .invalidDigit
    | some d =>
      if 10 * value + d ≤ limit then parseDigits limit overflow (10 * value + d) cs
      else .error overflow

/-- The natural number written by one digit or more. -/
def parseMagnitude (limit : Nat) (overflow : IntegerFault) : List Char → Except IntegerFault Nat
  | [] => .error .invalidDigit
  | cs => parseDigits limit overflow 0 cs

/-- **An integer literal.** -/
def parse (token : String) : Except IntegerFault Int :=
  match token.toList with
  | [] => .error .empty
  | '-' :: cs => (parseMagnitude (twoPow 63) .tooSmall cs).map (fun n => -(n : Int))
  | '+' :: cs => (parseMagnitude (twoPow 63 - 1) .tooLarge cs).map (fun n => (n : Int))
  | cs => (parseMagnitude (twoPow 63 - 1) .tooLarge cs).map (fun n => (n : Int))

end Integer

end NnetText
