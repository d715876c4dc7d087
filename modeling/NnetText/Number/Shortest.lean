import NnetText.Number.Binary

/-!
# The shortest digits of a number

A number is written with as few decimal digits as read back as the same number, and among the
numerals of that length with the one nearest to it. The reals that round to a number form an
interval around it, whose ends belong to it when the coefficient is even. For one digit, two
digits and so on, the two numerals that enclose the number are tested against the interval, in
exact arithmetic; the first length at which one of them lies inside is the answer.

How the digits are laid out is a matter of the document they are written into, and a `Layout`
says it: from which size on a power of ten is written, whether a positive power carries a sign,
and which way an exact tie goes.
-/

namespace NnetText

/-- Decimal digits, the first of which stands for the power `exponent` of ten. -/
structure Digits where
  digits : List Char
  exponent : Int
deriving DecidableEq, Repr

/-- Which of two equally near numerals is taken. -/
inductive Tie where
  | even
  | up
deriving DecidableEq, Repr

namespace Shortest

/-- A quotient of natural numbers times a power of ten. -/
def scaleRatio (num den : Nat) (power : Int) : Nat × Nat :=
  if 0 ≤ power then (num * tenPow power.toNat, den) else (num, den * tenPow (-power).toNat)

/-- The interval of the reals that round to a number, over one denominator: the lower end, the
number, the upper end, and whether the ends belong to it. -/
structure Interval where
  low : Nat
  value : Nat
  high : Nat
  den : Nat
  closed : Bool

/-- The interval around `m · 2 ^ e`. Below a power of two the neighbour is half as far. -/
def interval (f : Format) (m : Nat) (e : Int) : Interval :=
  let up := twoPow e.toNat
  let den := 4 * twoPow (-e).toNat
  let narrow := m = twoPow f.fractionBits ∧ f.leastExponent < e
  { low := (4 * m - if narrow then 1 else 2) * up
    value := 4 * m * up
    high := (4 * m + 2) * up
    den
    closed := m % 2 == 0 }

/-- Whether the numeral `n` on the grid of `10 ^ grid` lies in the interval. -/
def Interval.contains (i : Interval) (n : Nat) (grid : Int) : Bool :=
  let (num, den) := scaleRatio n 1 grid
  let point := num * i.den
  if i.closed then i.low * den ≤ point && point ≤ i.high * den
  else i.low * den < point && point < i.high * den

/-- The numeral nearest to the number on the grid of `10 ^ grid`, if one lies in the interval. -/
def Interval.nearest? (i : Interval) (tie : Tie) (grid : Int) : Option Nat :=
  let (num, den) := scaleRatio i.value i.den (-grid)
  let below := num / den
  let twice := 2 * (num % den)
  let preferUp := den < twice || (twice == den && (tie == .up || below % 2 == 1))
  match i.contains below grid, i.contains (below + 1) grid with
  | true, true => some (if preferUp then below + 1 else below)
  | true, false => some below
  | false, true => some (below + 1)
  | false, false => none

/-- The exponent of the largest power of ten that is at most `num / den`, for positive ones. Below
one it is the negated number of digits of the inverse quotient, less the unit that an exact
power of ten would leave over. -/
def floorLog10 (num den : Nat) : Int :=
  if den ≤ num then ((Nat.toDigits 10 (num / den)).length - 1 : Nat)
  else -((Nat.toDigits 10 ((den - 1) / num)).length : Int)

/-- A numeral without its final zeros. -/
def trimZeros (digits : List Char) : List Char :=
  (digits.reverse.dropWhile (· == '0')).reverse

/-- The digits of the numeral `n` on the grid of `10 ^ grid`. -/
def digitsOf (n : Nat) (grid : Int) : Digits :=
  let digits := Nat.toDigits 10 n
  ⟨trimZeros digits, grid + (digits.length - 1 : Nat)⟩

/-- The shortest digits, sought from a grid downwards; `steps` bounds the number of digits. -/
def search (i : Interval) (tie : Tie) (grid : Int) : Nat → Digits
  | 0 => digitsOf (i.value / i.den) 0
  | steps + 1 =>
    match i.nearest? tie grid with
    | some n => digitsOf n grid
    | none => search i tie (grid - 1) steps

/-- **The shortest digits** of the positive number `m · 2 ^ e`. No number of a format needs more
decimal digits than its fraction has bits. -/
def digits (f : Format) (tie : Tie) (m : Nat) (e : Int) : Digits :=
  let i := interval f m e
  search i tie (floorLog10 i.value i.den) (f.fractionBits + 2)

end Shortest

/-- How the digits of a number are laid out. -/
structure Layout where
  /-- The least exponent of a first digit that is still written in place. -/
  leastPlain : Int
  /-- The greatest exponent of a first digit that is still written in place. -/
  greatestPlain : Int
  /-- Whether a positive power of ten carries a sign. -/
  plusSign : Bool
  /-- Which of two equally near numerals is taken. -/
  tie : Tie

namespace Layout

/-- Digits in place, with a point and at least one digit behind it. -/
def plain (d : Digits) : List Char :=
  let count := d.digits.length
  if d.exponent < 0 then
    '0' :: '.' :: (List.replicate (-d.exponent - 1).toNat '0' ++ d.digits)
  else
    let whole := d.exponent.toNat + 1
    if count ≤ whole then d.digits ++ List.replicate (whole - count) '0' ++ ['.', '0']
    else d.digits.take whole ++ '.' :: d.digits.drop whole

/-- One digit, a point if more follow, and a power of ten. -/
def scientific (plusSign : Bool) (d : Digits) : List Char :=
  let mantissa :=
    match d.digits with
    | first :: second :: rest => first :: '.' :: second :: rest
    | ds => ds
  let sign := if 0 ≤ d.exponent && plusSign then "+" else ""
  mantissa ++ 'e' :: (sign ++ toString d.exponent).toList

/-- The text of some digits. -/
def lay (l : Layout) (d : Digits) : List Char :=
  if l.leastPlain ≤ d.exponent && d.exponent ≤ l.greatestPlain then plain d
  else scientific l.plusSign d

/-- The text of a finite number; zero has one digit on either side of its point. -/
def finite (l : Layout) (f : Format) (negative : Bool) (m : Nat) (e : Int) : String :=
  let body := if m = 0 then "0.0".toList else l.lay (Shortest.digits f l.tie m e)
  String.ofList (if negative then '-' :: body else body)

end Layout

end NnetText
