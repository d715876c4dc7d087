import NnetText.Number.Power

/-!
# Binary floating point, word by word

Weights and attribute values are binary floating-point numbers, single or double. A number is
kept as its word, so that equality of words is decidable and nothing about the arithmetic is
hidden: `Binary.meaning` reads a word as a coefficient times a power of two, and
`Format.ofRatio` turns an exact quotient of natural numbers back into a word, rounding once, to
the nearest, a tie to the even coefficient. Every operation is exact arithmetic between these
two steps.

Systems agree about sums and products, but not about the last place of a power. So what is
computed from weights takes its arithmetic as a value (`Arithmetic`). In `Arithmetic.single` the
power too is rounded once and can be evaluated in a proof; `Arithmetic.system` takes it from the
system, and is what the program runs with.
-/

namespace NnetText

/-- A binary interchange format: how many bits the fraction and the exponent have. -/
structure Format where
  fractionBits : Nat
  exponentBits : Nat
deriving DecidableEq, Repr

namespace Format

/-- Single precision. -/
def single : Format := ⟨23, 8⟩

/-- Double precision. -/
def double : Format := ⟨52, 11⟩

/-- The length of a word: a sign, an exponent and a fraction. -/
def width (f : Format) : Nat := 1 + f.exponentBits + f.fractionBits

/-- The exponent of the least place of the smallest numbers. -/
def leastExponent (f : Format) : Int :=
  2 - twoPow (f.exponentBits - 1) - f.fractionBits

end Format

/-- A number of the given format, as its word. -/
structure Binary (f : Format) where
  bits : BitVec f.width
deriving DecidableEq, Repr

/-- Single-precision numbers. -/
abbrev Single := Binary Format.single

/-- Double-precision numbers. -/
abbrev Double := Binary Format.double

/-- What a word stands for; `finite s m e` is `m · 2 ^ e`, negative if `s` holds. -/
inductive Meaning where
  | nan
  | infinite (negative : Bool)
  | finite (negative : Bool) (coefficient : Nat) (exponent : Int)
deriving DecidableEq, Repr

/-! ### Rounding -/

/-- A quotient rounded to the nearest integer, a tie to the even one. -/
def roundDiv (num den : Nat) : Nat :=
  let q := num / den
  let r := num % den
  if den < 2 * r || (2 * r == den && q % 2 == 1) then q + 1 else q

/-- `num / den · 2 ^ shift`, rounded to the nearest integer. -/
def roundScaled (num den : Nat) (shift : Int) : Nat :=
  if 0 ≤ shift then roundDiv (num * twoPow shift.toNat) den
  else roundDiv num (den * twoPow (-shift).toNat)

/-- The exponent of the largest power of two that is at most `num / den`, for positive ones. -/
def floorLog2Ratio (num den : Nat) : Int :=
  let guess : Int := (Nat.log2 num : Int) - Nat.log2 den
  let fits :=
    if 0 ≤ guess then den * twoPow guess.toNat ≤ num else den ≤ num * twoPow (-guess).toNat
  if fits then guess else guess - 1

namespace Format

variable (f : Format)

/-- The word with the given sign whose other bits are `magnitude`. -/
def word (negative : Bool) (magnitude : Nat) : Binary f :=
  ⟨BitVec.ofNat f.width (if negative then twoPow (f.width - 1) + magnitude else magnitude)⟩

/-- The bits of positive infinity; every larger magnitude is no number. -/
def infinityBits : Nat := (twoPow f.exponentBits - 1) * twoPow f.fractionBits

/-- Infinity of either sign. -/
def infinity (negative : Bool) : Binary f := f.word negative f.infinityBits

/-- Zero of either sign. -/
def zero (negative : Bool) : Binary f := f.word negative 0

/-- The word that stands for "no number". -/
def nan : Binary f := f.word false (f.infinityBits + twoPow (f.fractionBits - 1))

/-- **The number nearest to a quotient.** The unit of the last place is fixed by the size of the
quotient and never falls below the least exponent; the rounded coefficient may reach the next
power of two, in which case it carries into the exponent by itself. -/
def ofRatio (negative : Bool) (num den : Nat) : Binary f :=
  if num = 0 then f.zero negative
  else
    let unit := max (floorLog2Ratio num den - f.fractionBits) f.leastExponent
    let coefficient := roundScaled num den (-unit)
    let magnitude := coefficient + (unit - f.leastExponent).toNat * twoPow f.fractionBits
    f.word negative (min magnitude f.infinityBits)

/-- The number nearest to a coefficient times a power of two. -/
def ofScaled (negative : Bool) (coefficient : Nat) (exponent : Int) : Binary f :=
  if 0 ≤ exponent then f.ofRatio negative (coefficient * twoPow exponent.toNat) 1
  else f.ofRatio negative coefficient (twoPow (-exponent).toNat)

/-- The number nearest to an integer. -/
def ofInt (n : Int) : Binary f :=
  f.ofRatio (n < 0) n.natAbs 1

/-- The word of a meaning, rounded where the format cannot hold it. -/
def ofMeaning : Meaning → Binary f
  | .nan => f.nan
  | .infinite s => f.infinity s
  | .finite s m e => f.ofScaled s m e

end Format

/-! ### Reading a word -/

namespace Binary

variable {f : Format}

/-- Whether the sign bit is set. -/
def negative (x : Binary f) : Bool := x.bits.msb

/-- The word without its sign. -/
def magnitude (x : Binary f) : Nat := x.bits.toNat % twoPow (f.width - 1)

/-- **What a word stands for.** -/
def meaning (x : Binary f) : Meaning :=
  let biased := x.magnitude / twoPow f.fractionBits
  let fraction := x.magnitude % twoPow f.fractionBits
  if biased = twoPow f.exponentBits - 1 then
    if fraction = 0 then .infinite x.negative else .nan
  else if biased = 0 then .finite x.negative fraction f.leastExponent
  else .finite x.negative (twoPow f.fractionBits + fraction) (f.leastExponent + (biased - 1 : Nat))

/-- Whether a word is no number. -/
def isNan (x : Binary f) : Bool := f.infinityBits < x.magnitude

/-- Whether a word stands for a number. -/
def isFinite (x : Binary f) : Bool := x.magnitude < f.infinityBits

/-! ### Arithmetic -/

/-- The same number in another format. -/
def convert (g : Format) (x : Binary f) : Binary g :=
  g.ofMeaning x.meaning

/-- The opposite number. -/
def neg (x : Binary f) : Binary f :=
  f.word (!x.negative) x.magnitude

/-- The sum of two coefficients on the same power of two. -/
private def addFinite (f : Format) (s t : Bool) (m n : Nat) (e : Int) : Binary f :=
  let signed (b : Bool) (k : Nat) : Int := if b then -(k : Int) else k
  let total := signed s m + signed t n
  if total = 0 then f.zero (s && t) else f.ofScaled (total < 0) total.natAbs e

/-- The sum, rounded once. -/
def add (x y : Binary f) : Binary f :=
  match x.meaning, y.meaning with
  | .nan, _ => f.nan
  | _, .nan => f.nan
  | .infinite s, .infinite t => if s = t then f.infinity s else f.nan
  | .infinite s, .finite .. => f.infinity s
  | .finite .., .infinite t => f.infinity t
  | .finite s m d, .finite t n e =>
    let low := min d e
    addFinite f s t (m * twoPow (d - low).toNat) (n * twoPow (e - low).toNat) low

/-- The product, rounded once. -/
def mul (x y : Binary f) : Binary f :=
  match x.meaning, y.meaning with
  | .nan, _ => f.nan
  | _, .nan => f.nan
  | .infinite s, .infinite t => f.infinity (s ^^ t)
  | .infinite s, .finite t n _ => if n = 0 then f.nan else f.infinity (s ^^ t)
  | .finite s m _, .infinite t => if m = 0 then f.nan else f.infinity (s ^^ t)
  | .finite s m d, .finite t n e => f.ofScaled (s ^^ t) (m * n) (d + e)

/-- The quotient, rounded once. -/
def div (x y : Binary f) : Binary f :=
  match x.meaning, y.meaning with
  | .nan, _ => f.nan
  | _, .nan => f.nan
  | .infinite _, .infinite _ => f.nan
  | .infinite s, .finite t _ _ => f.infinity (s ^^ t)
  | .finite s _ _, .infinite t => f.zero (s ^^ t)
  | .finite s m d, .finite t n e =>
    if n = 0 then if m = 0 then f.nan else f.infinity (s ^^ t)
    else if e ≤ d then f.ofRatio (s ^^ t) (m * twoPow (d - e).toNat) n
    else f.ofRatio (s ^^ t) m (n * twoPow (e - d).toNat)

/-- Equality of numbers: a word that is no number differs from itself, and the two zeros are
equal. -/
def equal (x y : Binary f) : Bool :=
  !x.isNan && !y.isNan && (x.bits == y.bits || (x.magnitude == 0 && y.magnitude == 0))

end Binary

/-! ### The inverse square root -/

/-- The integer part of a square root. -/
def floorSqrt (n : Nat) : Nat :=
  if n = 0 then 0
  else
    let r := 2 * floorSqrt (n / 4)
    if (r + 1) * (r + 1) ≤ n then r + 1 else r
termination_by n
decreasing_by omega

/-- The inverse square root of `coefficient · 2 ^ exponent`, rounded once. The root is taken of a
quotient large enough for its integer part to hold more places than the format, and one more
bit says whether anything was cut off. -/
def Format.invSqrtScaled (f : Format) (coefficient : Nat) (exponent : Int) : Binary f :=
  let places : Int := 2 * (f.fractionBits + 4) + Nat.log2 coefficient
  let half := (places + exponent + 1) / 2
  let numerator := twoPow (2 * half - exponent).toNat
  let root := floorSqrt (numerator / coefficient)
  let exact := root * root * coefficient = numerator
  f.ofScaled false (2 * root + if exact then 0 else 1) (-half - 1)

/-- The power to minus one half. Both zeros give infinity, both infinities zero, and a negative
number gives no number. -/
def Binary.invSqrt {f : Format} (x : Binary f) : Binary f :=
  match x.meaning with
  | .nan => f.nan
  | .infinite _ => f.zero false
  | .finite s m e =>
    if m = 0 then f.infinity false
    else if s then f.nan
    else f.invSqrtScaled m e

/-! ### Arithmetic as a value -/

/-- **The operations of an arithmetic**, over whatever it takes for numbers. -/
structure Arithmetic (α : Type) where
  add : α → α → α
  mul : α → α → α
  neg : α → α
  /-- The power to minus one half. -/
  invSqrt : α → α

/-- Single precision with every operation rounded once. -/
def Arithmetic.single : Arithmetic Single where
  add := Binary.add
  mul := Binary.mul
  neg := Binary.neg
  invSqrt := Binary.invSqrt

/-- Single precision with the power of the system, whose last place is the system's own. -/
def Arithmetic.system : Arithmetic Single :=
  { Arithmetic.single with
    invSqrt := fun x => ⟨(Float32.pow (.ofBits ⟨x.bits⟩) (-0.5)).toBits.toBitVec⟩ }

end NnetText
