/-!
# Positional notation

The natural number that a list of digits stands for in a base, the highest digit first. A short
list is read digit by digit. A long one is cut in halves first, which are joined by a power of the
base, so that a number of many digits costs little more than the product of two such numbers.
Where a list is cut does not matter (`Numeral.value_eq_horner`).
-/

namespace NnetText.Numeral

/-- The number that digits stand for, read one by one. -/
def horner (base : Nat) (digits : List Nat) : Nat :=
  digits.foldl (fun n d => base * n + d) 0

/-- Digits behind a number shift it by as many places. -/
theorem foldl_eq_shift (base n : Nat) (digits : List Nat) :
    digits.foldl (fun n d => base * n + d) n =
      n * Nat.pow base digits.length + horner base digits := by
  induction digits generalizing n with
  | nil => simp [horner]
  | cons d digits ih =>
    rw [horner, List.foldl_cons, List.foldl_cons, ih, ih (base * 0 + d), List.length_cons,
      Nat.pow_eq, Nat.pow_eq, Nat.pow_succ, Nat.mul_zero, Nat.zero_add, Nat.add_mul,
      Nat.mul_comm base n, Nat.mul_assoc n, Nat.mul_comm base]
    omega

theorem horner_append (base : Nat) (front behind : List Nat) :
    horner base (front ++ behind) =
      horner base front * Nat.pow base behind.length + horner base behind := by
  rw [horner, List.foldl_append, foldl_eq_shift]
  rfl

/-- The number that digits stand for, with the list cut in halves `cuts` times. -/
def halved (base : Nat) : Nat → List Nat → Nat
  | 0, digits => horner base digits
  | cuts + 1, digits =>
    let front := digits.take (digits.length / 2)
    let behind := digits.drop (digits.length / 2)
    halved base cuts front * Nat.pow base behind.length + halved base cuts behind

theorem halved_eq_horner (base cuts : Nat) (digits : List Nat) :
    halved base cuts digits = horner base digits := by
  induction cuts generalizing digits with
  | zero => rfl
  | succ cuts ih => rw [halved, ih, ih, ← horner_append, List.take_append_drop]

/-- **The number that digits stand for.** Pieces of some 64 digits are not cut any further. -/
def value (base : Nat) (digits : List Nat) : Nat :=
  halved base (Nat.log2 (digits.length / 64 + 1)) digits

theorem value_eq_horner (base : Nat) (digits : List Nat) :
    value base digits = horner base digits :=
  halved_eq_horner base _ digits

/-- The value of a digit; letters of either case count on from ten. -/
def digit (c : Char) : Nat :=
  if c.isDigit then c.toNat - '0'.toNat else c.toLower.toNat - 'a'.toNat + 10

/-- The number that characters stand for. -/
def ofChars (base : Nat) (cs : List Char) : Nat := value base (cs.map digit)

end NnetText.Numeral
