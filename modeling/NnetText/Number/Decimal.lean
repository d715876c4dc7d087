import NnetText.Number.Binary
import NnetText.Number.Numeral

/-!
# Decimal literals

A floating-point number is written as an optional sign followed by one of the words `inf`,
`infinity` and `nan`, in any case, or by decimal digits with an optional point among them and an
optional power of ten behind them. One digit at least has to stand before the power. The value
is rounded to the format once. A power that is written with needlessly many digits is cut short
once it exceeds every format by far.
-/

namespace NnetText

/-- Why a token is no floating-point number. -/
inductive DecimalFault where
  | empty
  | invalid
deriving DecidableEq, Repr

namespace DecimalFault

/-- The words of the fault. -/
def message : DecimalFault → String
  | empty => "cannot parse float from empty string"
  | invalid => "invalid float literal"

end DecimalFault

/-- A decimal number as written: a whole coefficient and the power of ten it is scaled by. -/
structure Decimal where
  coefficient : Nat
  exponent : Int
deriving DecidableEq, Repr

namespace Decimal

/-- No digit is added to an exponent that has come up to this bound. -/
def exponentBound : Nat := 65536

/-- The exponent written by a list of digits: a digit counts only as long as the number in front
of it is below the bound. -/
def exponentValue (digits : List Char) : Nat :=
  digits.foldl (fun n c => if n < exponentBound then 10 * n + Numeral.digit c else n) 0

/-- The power of ten behind the digits: nothing at all, or a letter, an optional sign and one
digit or more up to the end. -/
def exponentPart? : List Char → Option Int
  | [] => some 0
  | e :: cs =>
    if e = 'e' || e = 'E' then
      let (negative, digits) :=
        match cs with
        | '-' :: ds => (true, ds)
        | '+' :: ds => (false, ds)
        | ds => (false, ds)
      if digits.isEmpty || !digits.all Char.isDigit then none
      else if negative then some (-(exponentValue digits : Int)) else some (exponentValue digits)
    else none

/-- The digits behind a point, if there is one, and what follows them. -/
def fractionPart : List Char → List Char × List Char
  | '.' :: cs => (cs.takeWhile Char.isDigit, cs.dropWhile Char.isDigit)
  | cs => ([], cs)

/-- An unsigned decimal number, up to the end of the text. -/
def parse? (cs : List Char) : Option Decimal :=
  let whole := cs.takeWhile Char.isDigit
  let (fraction, rest) := fractionPart (cs.dropWhile Char.isDigit)
  if whole.isEmpty && fraction.isEmpty then none
  else
    (exponentPart? rest).map fun e =>
      ⟨Numeral.ofChars 10 (whole ++ fraction), e - fraction.length⟩

/-- Powers of two this far from one leave every format behind. -/
def farPower : Int := 2000

/-- The nearest number of a format. A decimal far beyond the largest number is infinite and one
far below the smallest is zero, so that no power of ten is computed needlessly: a power of ten
lies between the third and the fourth power of as many twos. -/
def toBinary (f : Format) (negative : Bool) (d : Decimal) : Binary f :=
  let bits : Int := d.coefficient.log2
  let e := d.exponent
  if d.coefficient = 0 then f.zero negative
  else if 0 ≤ e then
    if farPower < bits + 3 * e then f.infinity negative
    else f.ofRatio negative (d.coefficient * tenPow e.toNat) 1
  else if bits + 1 + 3 * e < -farPower then f.zero negative
  else if farPower < bits + 4 * e then f.infinity negative
  else f.ofRatio negative d.coefficient (tenPow (-e).toNat)

end Decimal

namespace Format

/-- The word for something that is not written in digits. -/
def parseWord? (f : Format) (negative : Bool) (cs : List Char) : Option (Binary f) :=
  let word := String.ofList (cs.map Char.toLower)
  if word = "inf" || word = "infinity" then some (f.infinity negative)
  else if word = "nan" then some f.nan
  else none

/-- An unsigned literal. -/
def parseUnsigned (f : Format) (negative : Bool) (cs : List Char) :
    Except DecimalFault (Binary f) :=
  match Decimal.parse? cs with
  | some d => .ok (d.toBinary f negative)
  | none =>
    match f.parseWord? negative cs with
    | some x => .ok x
    | none => .error .invalid

/-- **A floating-point literal.** -/
def parse (f : Format) (token : String) : Except DecimalFault (Binary f) :=
  match token.toList with
  | [] => .error .empty
  | '-' :: cs => f.parseUnsigned true cs
  | '+' :: cs => f.parseUnsigned false cs
  | cs => f.parseUnsigned false cs

end Format

end NnetText
