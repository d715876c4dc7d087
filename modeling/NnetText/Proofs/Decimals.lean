import Mathlib.Data.List.Basic
import NnetText.Number.Integer

/-!
# Integers in decimal

An integer written in decimal is read back as the same integer (`Integer.parse_toString`), over
the whole range of a signed word. Reading checks each beginning of the digits against the bound,
and writing gives no reason to object to any of them: a beginning of a numeral stands for no more
than the numeral does.
-/

namespace NnetText

/-! ### The digits of a number -/

theorem isDigit_of_mem_toDigits {n : Nat} {c : Char} (h : c ∈ Nat.toDigits 10 n) :
    c.isDigit = true :=
  Nat.isDigit_of_mem_toDigits (by decide) (by decide) h

/-- **The first digit of a positive number is not zero.** -/
theorem head?_toDigits_ne_zero {n : Nat} (h : 0 < n) : (Nat.toDigits 10 n).head? ≠ some '0' := by
  induction n using Nat.strongRecOn with
  | _ n ih =>
    rw [Nat.toDigits_eq_if (by decide)]
    split
    · rename_i hlt
      exact (by decide : ∀ d < 10, 0 < d → [Nat.digitChar d].head? ≠ some '0') n hlt h
    · -- the first digit is that of the number without its last digit
      rw [List.head?_append_of_ne_nil _ Nat.toDigits_ne_nil]
      exact ih (n / 10) (by omega) (by omega)

/-- The value of digits does not fall below that of the digits in front of them. -/
theorem le_ofDigitChars (value : Nat) (cs : List Char) : value ≤ Nat.ofDigitChars 10 cs value := by
  have hpow : 1 ≤ 10 ^ cs.length := Nat.one_le_pow _ _ (by decide)
  rw [Nat.ofDigitChars_eq_ofDigitChars_zero]
  calc value = 1 * value := (Nat.one_mul value).symm
    _ ≤ 10 ^ cs.length * value := Nat.mul_le_mul_right _ hpow
    _ ≤ _ := Nat.le_add_right _ _

/-- The characters of an integer: a minus sign if it is negative, and the digits of its
magnitude. -/
theorem toList_toString_int (n : Int) :
    (toString n).toList =
      if 0 ≤ n then Nat.toDigits 10 n.toNat else '-' :: Nat.toDigits 10 (-n).toNat := by
  change n.repr.toList = _
  rw [Int.repr_eq_if]
  split <;> simp [Nat.repr_eq_ofList_toDigits]

/-- An integer is written with digits and a minus sign. -/
theorem isDigit_or_minus_of_mem_toString {n : Int} {c : Char} (h : c ∈ (toString n).toList) :
    c.isDigit = true ∨ c = '-' := by
  rw [toList_toString_int] at h
  split at h
  · exact Or.inl (isDigit_of_mem_toDigits h)
  · rcases List.mem_cons.mp h with rfl | h
    · exact Or.inr rfl
    · exact Or.inl (isDigit_of_mem_toDigits h)

theorem toDigits_injective {m n : Nat} (h : Nat.toDigits 10 m = Nat.toDigits 10 n) : m = n := by
  rw [← Nat.ofDigitChars_ten_toDigits (n := m), h, Nat.ofDigitChars_ten_toDigits]

/-- **An integer can be told from its text.** -/
theorem toString_int_injective {m n : Int} (h : toString m = toString n) : m = n := by
  have hchars := congrArg String.toList h
  -- a text that starts with a minus sign does not start with a digit
  have hsign : ∀ j k, Nat.toDigits 10 j ≠ '-' :: Nat.toDigits 10 k := by
    intro j k heq
    have hdigit : ('-').isDigit = true := isDigit_of_mem_toDigits (heq ▸ List.mem_cons_self)
    exact absurd hdigit (by decide)
  rw [toList_toString_int, toList_toString_int] at hchars
  split at hchars <;> split at hchars
  · have := toDigits_injective hchars
    omega
  · exact absurd hchars (hsign _ _)
  · exact absurd hchars.symm (hsign _ _)
  · have := toDigits_injective (List.cons.inj hchars).2
    omega

/-! ### Reading what is written -/

namespace Integer

theorem parseDigits_eq {limit value : Nat} {overflow : IntegerFault} {cs : List Char}
    (hdigits : ∀ c ∈ cs, c.isDigit = true) (hlimit : Nat.ofDigitChars 10 cs value ≤ limit) :
    parseDigits limit overflow value cs = .ok (Nat.ofDigitChars 10 cs value) := by
  induction cs generalizing value with
  | nil => rfl
  | cons c cs ih =>
    have hdigit : digit? c = some (c.toNat - '0'.toNat) := if_pos (hdigits c (by simp))
    rw [Nat.ofDigitChars_cons] at hlimit ⊢
    have hle := Nat.le_trans (le_ofDigitChars _ cs) hlimit
    rw [parseDigits, hdigit]
    dsimp only
    rw [if_pos hle, ih (fun x hx => hdigits x (List.mem_cons_of_mem _ hx)) hlimit]

theorem parseMagnitude_toDigits {limit n : Nat} (overflow : IntegerFault) (h : n ≤ limit) :
    parseMagnitude limit overflow (Nat.toDigits 10 n) = .ok n := by
  have hparse : parseDigits limit overflow 0 (Nat.toDigits 10 n) = .ok n := by
    rw [parseDigits_eq (fun _ => isDigit_of_mem_toDigits)
      (by rwa [Nat.ofDigitChars_ten_toDigits]), Nat.ofDigitChars_ten_toDigits]
  obtain ⟨c, cs, hcs⟩ := List.exists_cons_of_ne_nil (Nat.toDigits_ne_nil (n := n) (b := 10))
  rw [hcs] at hparse ⊢
  exact hparse

/-- A literal that starts with a digit has no sign. -/
theorem parse_of_isDigit {token : String} {c : Char} {cs : List Char}
    (h : token.toList = c :: cs) (hc : c.isDigit = true) :
    parse token =
      (parseMagnitude (twoPow 63 - 1) .tooLarge (c :: cs)).map (fun n => (n : Int)) := by
  unfold parse
  split
  · rename_i hnil
    cases h.symm.trans hnil
  · rename_i ds hminus
    obtain ⟨rfl, -⟩ := List.cons.inj (h.symm.trans hminus)
    cases hc
  · rename_i ds hplus
    obtain ⟨rfl, -⟩ := List.cons.inj (h.symm.trans hplus)
    cases hc
  · rw [h]

theorem parse_of_minus {token : String} {cs : List Char} (h : token.toList = '-' :: cs) :
    parse token = (parseMagnitude (twoPow 63) .tooSmall cs).map (fun n => -(n : Int)) := by
  rw [parse, h]
  rfl

/-- **An integer in decimal is read back**, up to the two ends of the range. -/
theorem parse_toString {n : Int} (hmin : minValue ≤ n) (hmax : n ≤ maxValue) :
    parse (toString n) = .ok n := by
  have hchars := toList_toString_int n
  rw [minValue] at hmin
  rw [maxValue] at hmax
  by_cases hn : 0 ≤ n
  · rw [if_pos hn] at hchars
    obtain ⟨c, cs, hcs⟩ := List.exists_cons_of_ne_nil (Nat.toDigits_ne_nil (n := n.toNat) (b := 10))
    have hc : c.isDigit = true := isDigit_of_mem_toDigits (hcs ▸ List.mem_cons_self)
    rw [parse_of_isDigit (hchars.trans hcs) hc, ← hcs,
      parseMagnitude_toDigits _ (by have := twoPow_pos 63; omega)]
    exact congrArg Except.ok (Int.toNat_of_nonneg hn)
  · rw [if_neg hn] at hchars
    rw [parse_of_minus hchars, parseMagnitude_toDigits _ (by omega)]
    exact congrArg Except.ok (by omega : -((-n).toNat : Int) = n)

end Integer

end NnetText
