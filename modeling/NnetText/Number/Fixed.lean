import NnetText.Number.Binary

/-!
# Numbers with a fixed number of places

Sizes, times and rates are shown with two places behind the point. The exact value of a number is
rounded to the last place, a tie to the even digit.
-/

namespace NnetText

/-- The numeral of `n` hundredths, and likewise for any number of places. -/
def placeNumeral (places n : Nat) : String :=
  let digits := Nat.toDigits 10 n
  let padded := List.replicate (places + 1 - digits.length) '0' ++ digits
  let whole := padded.length - places
  String.ofList (padded.take whole ++ '.' :: padded.drop whole)

/-- A quotient with a fixed number of places, one at least. -/
def fixedRatio (places num den : Nat) : String :=
  placeNumeral places (roundDiv (num * tenPow places) den)

/-- A number with a fixed number of places, one at least. -/
def Binary.fixed {f : Format} (places : Nat) (x : Binary f) : String :=
  match x.meaning with
  | .nan => "NaN"
  | .infinite negative => if negative then "-inf" else "inf"
  | .finite negative m e =>
    (if negative then "-" else "") ++
      fixedRatio places (m * twoPow e.toNat) (twoPow (-e).toNat)

end NnetText
