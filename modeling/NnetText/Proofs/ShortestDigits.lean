import Mathlib.Algebra.Order.Field.Power
import Mathlib.Data.Nat.Cast.Order.Field
import Mathlib.Data.Rat.Cast.Order
import Mathlib.Tactic.FieldSimp
import Mathlib.Tactic.Linarith
import Mathlib.Tactic.Positivity
import Mathlib.Tactic.Ring
import NnetText.Proofs.Numerals

/-!
# Shortest digits tell numbers apart

The shortest digits of a number stand for a decimal fraction, which is near the number but in
general another one. They still determine it (`Shortest.eq_of_value_digits`). There are three
steps.

* The search for the digits comes to an end: with one digit more than the fraction has bits, the
  grid is finer than the interval is wide, so that a point of the grid lies inside
  (`Shortest.exists_digits`).
* The intervals of two numbers have no point in common (`Shortest.eq_of_holds`). At most their
  ends meet; then the coefficients are neighbours, one of them is odd, and its interval is open.
* The digits without their final zeros, and the exponent of the first of them, are enough to tell
  which point of which grid they came from (`Shortest.value_digitsOf`).

Everything is computed in natural numbers, on quotients over a common denominator. Here the
quotients are taken, and the ends of an interval are rational numbers.
-/

namespace NnetText

theorem cast_tenPow (k : Nat) : ((tenPow k : Nat) : ℚ) = 10 ^ k := by
  rw [tenPow, Nat.pow_eq, Nat.cast_pow]
  rfl

theorem cast_twoPow (k : Nat) : ((twoPow k : Nat) : ℚ) = 2 ^ k := by
  rw [twoPow, Nat.pow_eq, Nat.cast_pow]
  rfl

/-- **The decimal fraction that digits stand for.** -/
def Digits.value (d : Digits) : ℚ :=
  Nat.ofDigitChars 10 d.digits 0 * 10 ^ (d.exponent + 1 - d.digits.length)

namespace Shortest

/-! ### Quotients -/

theorem scaleRatio_pos {den : Nat} (h : 0 < den) (num : Nat) (power : Int) :
    0 < (scaleRatio num den power).2 := by
  rw [scaleRatio]
  split
  · exact h
  · exact Nat.mul_pos h (tenPow_pos _)

/-- **A scaled quotient** is the quotient times the power of ten. -/
theorem scaleRatio_eq (num den : Nat) (power : Int) :
    ((scaleRatio num den power).1 : ℚ) / (scaleRatio num den power).2 =
      num / den * 10 ^ power := by
  rw [scaleRatio]
  split
  · rename_i h
    obtain ⟨k, rfl⟩ := Int.eq_ofNat_of_zero_le h
    rw [Int.toNat_natCast, Nat.cast_mul, cast_tenPow, zpow_natCast, mul_div_right_comm]
  · rename_i h
    obtain ⟨k, hk⟩ := Int.eq_ofNat_of_zero_le (show 0 ≤ -power by omega)
    obtain rfl : power = -(k : Int) := by omega
    rw [neg_neg, Int.toNat_natCast, Nat.cast_mul, cast_tenPow, zpow_neg, zpow_natCast]
    rw [div_mul_eq_div_div, div_eq_mul_inv (num / den : ℚ)]

/-- A power of two as a quotient. -/
theorem twoPow_div_twoPow (e : Int) :
    ((twoPow e.toNat : Nat) : ℚ) / (twoPow (-e).toNat : Nat) = 2 ^ e := by
  rw [cast_twoPow, cast_twoPow]
  rcases le_total 0 e with h | h
  · obtain ⟨k, rfl⟩ := Int.eq_ofNat_of_zero_le h
    simp
  · obtain ⟨k, hk⟩ := Int.eq_ofNat_of_zero_le (show 0 ≤ -e by omega)
    obtain rfl : e = -(k : Int) := by omega
    simp

/-! ### Intervals -/

namespace Interval

variable (i : Interval)

/-- The lower end. -/
def lower : ℚ := i.low / i.den

/-- The number itself. -/
def center : ℚ := i.value / i.den

/-- The upper end. -/
def upper : ℚ := i.high / i.den

/-- **A number lies in the interval**, to which the ends belong or not. -/
def Holds (q : ℚ) : Prop :=
  if i.closed then i.lower ≤ q ∧ q ≤ i.upper else i.lower < q ∧ q < i.upper

variable {i}

theorem Holds.le {q : ℚ} (h : i.Holds q) : i.lower ≤ q ∧ q ≤ i.upper := by
  rw [Holds] at h
  split at h
  · exact h
  · exact ⟨h.1.le, h.2.le⟩

theorem Holds.lt {q : ℚ} (h : i.Holds q) (hopen : i.closed = false) :
    i.lower < q ∧ q < i.upper := by
  rwa [Holds, hopen, if_neg Bool.false_ne_true] at h

theorem holds_of_lt {q : ℚ} (hlower : i.lower < q) (hupper : q < i.upper) : i.Holds q := by
  rw [Holds]
  split
  · exact ⟨hlower.le, hupper.le⟩
  · exact ⟨hlower, hupper⟩

/-- **The test in natural numbers is the test in rational ones.** -/
theorem contains_iff (hden : 0 < i.den) {n : Nat} {grid : Int} :
    i.contains n grid = true ↔ i.Holds (n * 10 ^ grid) := by
  have hscale := scaleRatio_eq n 1 grid
  rw [Nat.cast_one, div_one] at hscale
  have hpos : (0 : ℚ) < (scaleRatio n 1 grid).2 := by
    exact_mod_cast scaleRatio_pos Nat.one_pos n grid
  have hden' : (0 : ℚ) < i.den := by exact_mod_cast hden
  rw [Holds, ← hscale, lower, upper, contains]
  dsimp only
  split
  · rw [Bool.and_eq_true, decide_eq_true_eq, decide_eq_true_eq, div_le_div_iff₀ hden' hpos,
      div_le_div_iff₀ hpos hden']
    norm_cast
  · rw [Bool.and_eq_true, decide_eq_true_eq, decide_eq_true_eq, div_lt_div_iff₀ hden' hpos,
      div_lt_div_iff₀ hpos hden']
    norm_cast

/-- The numerals on a grid that is fine enough: one of them lies in the interval above the number.
-/
theorem isSome_nearest? (hden : 0 < i.den) (tie : Tie) {grid : Int} (hlower : i.lower < i.center)
    (hupper : i.center + 10 ^ grid < i.upper) : (i.nearest? tie grid).isSome = true := by
  have hten : (0 : ℚ) < 10 ^ grid := zpow_pos (by norm_num) grid
  have hscale := scaleRatio_eq i.value i.den (-grid)
  have hpos := scaleRatio_pos hden i.value (-grid)
  rw [nearest?]
  dsimp only
  generalize scaleRatio i.value i.den (-grid) = r at hscale hpos ⊢
  have hpos' : (0 : ℚ) < r.2 := by exact_mod_cast hpos
  -- the number in units of the grid
  have hquotient : (r.1 : ℚ) / r.2 * 10 ^ grid = i.center := by
    rw [hscale, zpow_neg, inv_mul_cancel_right₀ hten.ne', center]
  have habove : (r.1 : ℚ) / r.2 < (r.1 / r.2 + 1 : Nat) := by
    rw [div_lt_iff₀ hpos']
    exact_mod_cast Nat.lt_mul_of_div_lt (Nat.lt_succ_self _) hpos
  have hbelow : ((r.1 / r.2 + 1 : Nat) : ℚ) ≤ (r.1 : ℚ) / r.2 + 1 := by
    rw [Nat.cast_add, Nat.cast_one]
    exact add_le_add_left Nat.cast_div_le 1
  have hholds : i.contains (r.1 / r.2 + 1) grid = true := by
    rw [contains_iff hden]
    refine holds_of_lt ?_ ?_
    · calc i.lower < i.center := hlower
        _ = (r.1 : ℚ) / r.2 * 10 ^ grid := hquotient.symm
        _ < (r.1 / r.2 + 1 : Nat) * 10 ^ grid := mul_lt_mul_of_pos_right habove hten
    · calc ((r.1 / r.2 + 1 : Nat) : ℚ) * 10 ^ grid
          ≤ ((r.1 : ℚ) / r.2 + 1) * 10 ^ grid := mul_le_mul_of_nonneg_right hbelow hten.le
        _ = i.center + 10 ^ grid := by rw [add_mul, hquotient, one_mul]
        _ < i.upper := hupper
  rw [hholds]
  cases i.contains (r.1 / r.2) grid <;> rfl

/-- A numeral that is chosen lies in the interval. -/
theorem contains_of_nearest? {tie : Tie} {n : Nat} {grid : Int}
    (h : i.nearest? tie grid = some n) : i.contains n grid = true := by
  unfold nearest? at h
  dsimp only at h
  split at h
  · rename_i hbelow habove
    obtain rfl := Option.some.inj h
    split
    · exact habove
    · exact hbelow
  · rename_i hbelow _
    obtain rfl := Option.some.inj h
    exact hbelow
  · rename_i habove
    obtain rfl := Option.some.inj h
    exact habove
  · cases h

end Interval

/-! ### The search -/

/-- **The search ends with a numeral in the interval**, if one is found within its steps. -/
theorem exists_search {i : Interval} {tie : Tie} {grid : Int} {steps j : Nat} (hj : j < steps)
    (h : (i.nearest? tie (grid - j)).isSome = true) :
    ∃ n g, search i tie grid steps = digitsOf n g ∧ i.contains n g = true := by
  induction steps generalizing grid j with
  | zero => omega
  | succ steps ih =>
    rw [search]
    cases hn : i.nearest? tie grid with
    | some n => exact ⟨n, grid, rfl, Interval.contains_of_nearest? hn⟩
    | none =>
      rcases j with _ | j
      · rw [Nat.cast_zero, sub_zero, hn] at h
        cases h
      · refine ih (Nat.lt_of_succ_lt_succ hj) ?_
        rwa [Nat.cast_succ, sub_add_eq_sub_sub_swap] at h

/-- **The power of ten that is looked for** is not above the quotient. -/
theorem tenPow_floorLog10_le {num den : Nat} (hnum : 0 < num) (hden : 0 < den) :
    (10 : ℚ) ^ floorLog10 num den ≤ num / den := by
  have hden' : (0 : ℚ) < den := by exact_mod_cast hden
  rw [floorLog10]
  split
  · rename_i hle
    -- the whole part has as many digits as are counted
    have hpos : 0 < num / den := Nat.div_pos hle hden
    have hlength := Nat.length_toDigits_pos (b := 10) (n := num / den)
    have hpow : 10 ^ ((Nat.toDigits 10 (num / den)).length - 1) ≤ num / den := by
      rcases Nat.eq_zero_or_pos ((Nat.toDigits 10 (num / den)).length - 1) with hzero | hpos'
      · rw [hzero]
        exact hpos
      · by_contra hlt
        have hle := (Nat.length_toDigits_le_iff (by decide) hpos').mpr (Nat.lt_of_not_le hlt)
        omega
    calc (10 : ℚ) ^ (((Nat.toDigits 10 (num / den)).length - 1 : Nat) : Int)
        = ((10 ^ ((Nat.toDigits 10 (num / den)).length - 1) : Nat) : ℚ) := by
          rw [zpow_natCast]
          norm_cast
      _ ≤ ((num / den : Nat) : ℚ) := by exact_mod_cast hpow
      _ ≤ num / den := Nat.cast_div_le
  · have hlt := (Nat.length_toDigits_le_iff (b := 10) (by decide) Nat.length_toDigits_pos).mp
      (Nat.le_refl (Nat.toDigits 10 ((den - 1) / num)).length)
    generalize (Nat.toDigits 10 ((den - 1) / num)).length = k at hlt ⊢
    have hle : den ≤ num * 10 ^ k := by
      have hmul := (Nat.div_lt_iff_lt_mul hnum).mp hlt
      rw [Nat.mul_comm] at hmul
      omega
    rw [zpow_neg, zpow_natCast, inv_le_iff_one_le_mul₀' (by positivity), ← mul_div_assoc,
      one_le_div hden', mul_comm]
    exact_mod_cast hle

/-! ### The interval around a number -/

section Around

variable {f : Format} {m m' : Nat} {e e' : Int}

theorem den_interval_pos (f : Format) (m : Nat) (e : Int) : 0 < (interval f m e).den :=
  Nat.mul_pos (by decide) (twoPow_pos _)

/-- The quotients of the interval are multiples of a quarter of the power of two. -/
theorem mul_div_den (k : Nat) (e : Int) :
    ((k * twoPow e.toNat : Nat) : ℚ) / (4 * twoPow (-e).toNat : Nat) = k / 4 * 2 ^ e := by
  rw [← twoPow_div_twoPow, Nat.cast_mul, Nat.cast_mul, mul_div_mul_comm]
  norm_cast

theorem center_interval (f : Format) (m : Nat) (e : Int) :
    (interval f m e).center = m * 2 ^ e := by
  rw [Interval.center, interval, mul_div_den, Nat.cast_mul]
  congr 1
  push_cast
  ring

theorem upper_interval (f : Format) (m : Nat) (e : Int) :
    (interval f m e).upper = (m + 1 / 2) * 2 ^ e := by
  rw [Interval.upper, interval, mul_div_den]
  congr 1
  push_cast
  ring

/-- Below a power of two the interval is narrow, unless the numbers below it are as far apart. -/
theorem lower_interval (h : 0 < m) :
    (interval f m e).lower =
      (m - if m = twoPow f.fractionBits ∧ f.leastExponent < e then 1 / 4 else 1 / 2) * 2 ^ e := by
  rw [Interval.lower, interval, mul_div_den]
  congr 1
  split
  · rw [Nat.cast_sub (by omega)]
    push_cast
    ring
  · rw [Nat.cast_sub (by omega)]
    push_cast
    ring

theorem lower_lt_center (h : 0 < m) : (interval f m e).lower < (interval f m e).center := by
  rw [lower_interval h, center_interval]
  refine mul_lt_mul_of_pos_right ?_ (zpow_pos (by norm_num) e)
  split <;> linarith

/-- **A coefficient and an exponent as a word has them**: the exponent is as small as the
coefficient and the format allow. -/
structure Canonical (f : Format) (m : Nat) (e : Int) : Prop where
  lt : m < 2 * twoPow f.fractionBits
  least : f.leastExponent ≤ e
  normal : f.leastExponent < e → twoPow f.fractionBits ≤ m

/-- **A number of a greater exponent**: its interval begins where that of the smaller number ends,
or behind. If it begins there, then the smaller number has an odd coefficient. -/
theorem upper_le_lower_of_lt (h : Canonical f m e) (h' : Canonical f m' e') (hpos : 0 < m')
    (hlt : e < e') :
    (interval f m e).upper ≤ (interval f m' e').lower ∧
      (m % 2 = 0 → (interval f m e).upper < (interval f m' e').lower) := by
  have hunit : (0 : ℚ) < 2 ^ e := zpow_pos (by norm_num) e
  have htwice : 2 * (2 : ℚ) ^ e ≤ 2 ^ e' := by
    rw [← zpow_one_add₀ (by norm_num)]
    exact zpow_le_zpow_right₀ (by norm_num) (by omega)
  have hleast := lt_of_le_of_lt h.least hlt
  have hnormal := h'.normal hleast
  have hm : (m : ℚ) + 1 ≤ 2 * twoPow f.fractionBits := by exact_mod_cast h.lt
  have hpower : (1 : ℚ) ≤ twoPow f.fractionBits := by exact_mod_cast twoPow_pos f.fractionBits
  rw [upper_interval, lower_interval hpos]
  by_cases hnarrow : m' = twoPow f.fractionBits
  · -- the greater number is a power of two, and its interval narrow
    rw [if_pos ⟨hnarrow, hleast⟩, hnarrow]
    have hend : (2 * (twoPow f.fractionBits : ℚ) - 1 / 2) * 2 ^ e ≤
        (twoPow f.fractionBits - 1 / 4) * 2 ^ e' := by
      calc (2 * (twoPow f.fractionBits : ℚ) - 1 / 2) * 2 ^ e
          = (twoPow f.fractionBits - 1 / 4) * (2 * 2 ^ e) := by ring
        _ ≤ (twoPow f.fractionBits - 1 / 4) * 2 ^ e' :=
          mul_le_mul_of_nonneg_left htwice (by linarith)
    refine ⟨le_trans (mul_le_mul_of_nonneg_right (by linarith) hunit.le) hend, fun heven => ?_⟩
    have hm' : (m : ℚ) + 2 ≤ 2 * twoPow f.fractionBits := by
      have hlt' := h.lt
      exact_mod_cast (show m + 2 ≤ 2 * twoPow f.fractionBits by omega)
    exact lt_of_lt_of_le (mul_lt_mul_of_pos_right (by linarith) hunit) hend
  · rw [if_neg fun hc => hnarrow hc.1]
    have hm' : (twoPow f.fractionBits : ℚ) + 1 ≤ m' := by
      exact_mod_cast (show twoPow f.fractionBits + 1 ≤ m' by omega)
    have hend : ((m : ℚ) + 1 / 2) * 2 ^ e < (m' - 1 / 2) * 2 ^ e' := by
      calc ((m : ℚ) + 1 / 2) * 2 ^ e
          < (2 * m' - 1) * 2 ^ e := mul_lt_mul_of_pos_right (by linarith) hunit
        _ = (m' - 1 / 2) * (2 * 2 ^ e) := by ring
        _ ≤ (m' - 1 / 2) * 2 ^ e' := mul_le_mul_of_nonneg_left htwice (by linarith)
    exact ⟨hend.le, fun _ => hend⟩

/-- **A number of the same exponent and a greater coefficient**: again the intervals meet at most in
their ends, and then one of the coefficients is odd. -/
theorem upper_le_lower_of_coefficient_lt (hlt : m < m') :
    (interval f m e).upper ≤ (interval f m' e).lower ∧
      (m % 2 = 0 → m' % 2 = 0 → (interval f m e).upper < (interval f m' e).lower) := by
  have hunit : (0 : ℚ) < 2 ^ e := zpow_pos (by norm_num) e
  rw [upper_interval, lower_interval (Nat.lt_of_le_of_lt (Nat.zero_le m) hlt)]
  constructor
  · have hm : (m : ℚ) + 1 ≤ m' := by exact_mod_cast hlt
    refine mul_le_mul_of_nonneg_right ?_ hunit.le
    split <;> linarith
  · intro heven heven'
    have hm : (m : ℚ) + 2 ≤ m' := by exact_mod_cast (show m + 2 ≤ m' by omega)
    refine mul_lt_mul_of_pos_right ?_ hunit
    split <;> linarith

/-- Two intervals that meet at most in their ends have no number in common, if one of them is open
where they do. -/
theorem not_holds_of_le {i j : Interval} {q : ℚ} (hle : i.upper ≤ j.lower)
    (hlt : i.closed = true → j.closed = true → i.upper < j.lower) (hi : i.Holds q) :
    ¬j.Holds q := by
  intro hj
  have hupper := hi.le.2
  have hlower := hj.le.1
  cases hci : i.closed with
  | false =>
    have hupper' := (hi.lt hci).2
    linarith
  | true =>
    cases hcj : j.closed with
    | false =>
      have hlower' := (hj.lt hcj).1
      linarith
    | true =>
      have hlt' := hlt hci hcj
      linarith

theorem even_of_closed (h : (interval f m e).closed = true) : m % 2 = 0 :=
  beq_iff_eq.mp h

/-- **The intervals around two numbers have no number in common.** -/
theorem eq_of_holds {q : ℚ} (h : Canonical f m e) (h' : Canonical f m' e') (hpos : 0 < m)
    (hpos' : 0 < m') (hq : (interval f m e).Holds q) (hq' : (interval f m' e').Holds q) :
    m = m' ∧ e = e' := by
  rcases lt_trichotomy e e' with hlt | rfl | hlt
  · obtain ⟨hle, hodd⟩ := upper_le_lower_of_lt h h' hpos' hlt
    exact absurd hq' (not_holds_of_le hle (fun hc _ => hodd (even_of_closed hc)) hq)
  · rcases Nat.lt_trichotomy m m' with hlt | rfl | hlt
    · obtain ⟨hle, hodd⟩ := upper_le_lower_of_coefficient_lt (f := f) (e := e) hlt
      exact absurd hq' (not_holds_of_le hle
        (fun hc hc' => hodd (even_of_closed hc) (even_of_closed hc')) hq)
    · exact ⟨rfl, rfl⟩
    · obtain ⟨hle, hodd⟩ := upper_le_lower_of_coefficient_lt (f := f) (e := e) hlt
      exact absurd hq (not_holds_of_le hle
        (fun hc hc' => hodd (even_of_closed hc) (even_of_closed hc')) hq')
  · obtain ⟨hle, hodd⟩ := upper_le_lower_of_lt h' h hpos hlt
    exact absurd hq (not_holds_of_le hle (fun hc _ => hodd (even_of_closed hc)) hq')

/-- **The shortest digits are those of a numeral in the interval.** With as many digits as the
fraction has bits, and two more, the grid is finer than half the power of two. -/
theorem exists_digits (tie : Tie) (h : Canonical f m e) (hpos : 0 < m) :
    ∃ n g, digits f tie m e = digitsOf n g ∧ (interval f m e).contains n g = true := by
  have hden := den_interval_pos f m e
  have hunit : (0 : ℚ) < 2 ^ e := zpow_pos (by norm_num) e
  have hvalue : 0 < (interval f m e).value :=
    Nat.mul_pos (Nat.mul_pos (by decide) hpos) (twoPow_pos _)
  have hlog := tenPow_floorLog10_le hvalue hden
  change _ ≤ (interval f m e).center at hlog
  rw [center_interval] at hlog
  refine exists_search (Nat.lt_succ_self (f.fractionBits + 1)) ?_
  refine Interval.isSome_nearest? hden tie (lower_lt_center hpos) ?_
  rw [center_interval, upper_interval, add_mul, add_lt_add_iff_left]
  generalize floorLog10 (interval f m e).value (interval f m e).den = k at hlog ⊢
  have hm : (m : ℚ) < 2 ^ (f.fractionBits + 1) := by
    rw [pow_succ', ← cast_twoPow]
    exact_mod_cast h.lt
  have hten : (0 : ℚ) < 10 ^ (f.fractionBits + 1) := by positivity
  have hratio : (2 : ℚ) ^ (f.fractionBits + 1) / 10 ^ (f.fractionBits + 1) ≤ 1 / 5 := by
    rw [← div_pow, show (2 : ℚ) / 10 = 1 / 5 by norm_num]
    exact pow_le_of_le_one (by norm_num) (by norm_num) (Nat.succ_ne_zero _)
  calc (10 : ℚ) ^ (k - ((f.fractionBits + 1 : Nat) : Int))
      = 10 ^ k / 10 ^ (f.fractionBits + 1) := by rw [zpow_sub₀ (by norm_num), zpow_natCast]
    _ ≤ m * 2 ^ e / 10 ^ (f.fractionBits + 1) := div_le_div_of_nonneg_right hlog hten.le
    _ ≤ 2 ^ (f.fractionBits + 1) * 2 ^ e / 10 ^ (f.fractionBits + 1) :=
      div_le_div_of_nonneg_right (mul_le_mul_of_nonneg_right hm.le hunit.le) hten.le
    _ = 2 ^ (f.fractionBits + 1) / 10 ^ (f.fractionBits + 1) * 2 ^ e := by ring
    _ ≤ 1 / 5 * 2 ^ e := mul_le_mul_of_nonneg_right hratio hunit.le
    _ < 1 / 2 * 2 ^ e := mul_lt_mul_of_pos_right (by norm_num) hunit

end Around

/-! ### Digits -/

theorem exists_trimZeros_append (ds : List Char) :
    ∃ k, ds = trimZeros ds ++ List.replicate k '0' := by
  have hzeros : ∀ c ∈ ds.reverse.takeWhile (· == '0'), c = '0' := by
    intro c hc
    simpa using List.mem_takeWhile_imp hc
  have hsplit := congrArg List.reverse
    (List.takeWhile_append_dropWhile (p := (· == '0')) (l := ds.reverse))
  rw [List.eq_replicate_of_mem hzeros, List.reverse_append, List.reverse_replicate,
    List.reverse_reverse] at hsplit
  exact ⟨_, hsplit.symm⟩

/-- **The digits of a numeral stand for it**, on whatever grid it is. -/
theorem value_digitsOf (n : Nat) (grid : Int) : (digitsOf n grid).value = n * 10 ^ grid := by
  obtain ⟨k, hk⟩ := exists_trimZeros_append (Nat.toDigits 10 n)
  have hvalue : (Nat.ofDigitChars 10 (trimZeros (Nat.toDigits 10 n)) 0 : ℚ) * 10 ^ k = n := by
    have hn := Nat.ofDigitChars_ten_toDigits (n := n)
    rw [hk, Nat.ofDigitChars_append, Nat.ofDigitChars_replicate_zero, Nat.mul_comm] at hn
    exact_mod_cast hn
  have hlength := Nat.length_toDigits_pos (b := 10) (n := n)
  have hexponent : grid + ((Nat.toDigits 10 n).length - 1 : Nat) + 1 -
      (trimZeros (Nat.toDigits 10 n)).length = grid + k := by
    have hsum := congrArg List.length hk
    rw [List.length_append, List.length_replicate] at hsum
    omega
  rw [Digits.value, digitsOf]
  dsimp only
  rw [hexponent, zpow_add₀ (by norm_num), zpow_natCast, ← hvalue]
  ring

/-- **Numbers with the same shortest digits are the same.** -/
theorem eq_of_value_digits {f : Format} {m m' : Nat} {e e' : Int} {tie : Tie}
    (h : Canonical f m e) (h' : Canonical f m' e') (hpos : 0 < m) (hpos' : 0 < m')
    (hvalue : (digits f tie m e).value = (digits f tie m' e').value) : m = m' ∧ e = e' := by
  obtain ⟨n, g, hdigits, hcontains⟩ := exists_digits tie h hpos
  obtain ⟨n', g', hdigits', hcontains'⟩ := exists_digits tie h' hpos'
  rw [Interval.contains_iff (den_interval_pos f m e)] at hcontains
  rw [Interval.contains_iff (den_interval_pos f m' e')] at hcontains'
  rw [hdigits, hdigits', value_digitsOf, value_digitsOf] at hvalue
  rw [← hvalue] at hcontains'
  exact eq_of_holds h h' hpos hpos' hcontains hcontains'

end Shortest

end NnetText
