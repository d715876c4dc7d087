import Mathlib.Data.List.DropRight
import NnetText.Proofs.JsonReading

/-!
# Numbers in documents

A finite number is written as a numeral that documents may hold (`Layout.isNumeral_finite`),
whatever digits it has. A numeral has a digit on either side of its point, and its whole part does
not start with a zero unless it is zero. Whether that is so depends on the first of the shortest
digits alone (`Digits.Fit`), and this is not a zero: the interval around a positive number holds
positive numbers only (`Shortest.pos_of_contains`).

Nothing is assumed about how far the search for the digits has to go. Where it gives up there may
be no digit at all, but then the exponent is zero, and what is written is `0.0`.
-/

namespace NnetText

open Json

/-! ### Numbers with a point or a power -/

/-- **A number with a point or a power of ten**, without a sign. -/
def IsScaled (cs : List Char) : Prop :=
  ∃ whole rest, cs = whole ++ rest ∧ IsWhole whole ∧ rest ≠ [] ∧
    (∀ c ∈ rest.head?, c.isDigit = false) ∧ isScale rest = true ∧ ∀ c ∈ rest, isWordChar c = true

/-- **Such a number is read as it is written**, with or without a sign. -/
theorem IsScaled.isNumeral {cs : List Char} (h : IsScaled cs) (negative : Bool) :
    IsNumeral (String.ofList (if negative then '-' :: cs else cs)) := by
  obtain ⟨whole, rest, rfl, hwhole, hne, hhead, hscale, hword⟩ := h
  obtain ⟨c, cs, rfl⟩ := List.exists_cons_of_ne_nil hwhole.ne_nil
  have hc : c.isDigit = true := hwhole.digits c List.mem_cons_self
  have hrest : ¬rest.isEmpty = true := by simpa using hne
  have hunsigned := fun negative => unsigned?_append hwhole negative rest hhead
  simp only [if_neg hrest, if_pos hscale] at hunsigned
  have hall : ∀ d ∈ c :: cs ++ rest, isWordChar d = true := by
    intro d hd
    rcases List.mem_append.mp hd with hd | hd
    · exact isWordChar_of_isDigit (hwhole.digits d hd)
    · exact hword d hd
  cases negative with
  | false =>
    refine ⟨by simp, List.all_eq_true.mpr (by simpa using hall), ?_⟩
    rw [String.toList_ofList, if_neg Bool.false_ne_true, List.cons_append,
      scalar?_eq_number? (Or.inl hc), number?_of_isDigit hc, ← List.cons_append, hunsigned]
    rfl
  | true =>
    refine ⟨by simp, ?_, ?_⟩
    · rw [String.toList_ofList, if_pos rfl]
      exact List.all_eq_true.mpr (List.forall_mem_cons.mpr ⟨by decide, hall⟩)
    · rw [String.toList_ofList, if_pos rfl, scalar?_eq_number? (Or.inr rfl), number?, hunsigned]
      rfl

theorem isDigits_of_forall {ds : List Char} (hne : ds ≠ []) (h : ∀ c ∈ ds, c.isDigit = true) :
    isDigits ds = true := by
  simp [isDigits, hne, List.all_eq_true.mpr h]

/-- A letter and an integer are a power of ten, also with a plus sign in front of one that is not
negative. -/
theorem isPower_toString (e : Int) (plus : Bool) :
    isPower ('e' :: ((if 0 ≤ e && plus then "+" else "") ++ toString e).toList) = true := by
  have hdigits : ∀ n, isDigits (Nat.toDigits 10 n) = true := fun n =>
    isDigits_of_forall Nat.toDigits_ne_nil fun _ => isDigit_of_mem_toDigits
  have hplain : ∀ n, behindSign (Nat.toDigits 10 n) = Nat.toDigits 10 n := by
    intro n
    obtain ⟨c, cs, hcs⟩ := List.exists_cons_of_ne_nil (Nat.toDigits_ne_nil (n := n) (b := 10))
    have hc : c.isDigit = true := isDigit_of_mem_toDigits (hcs ▸ List.mem_cons_self)
    rw [hcs]
    unfold behindSign
    split
    · rename_i heq
      obtain ⟨rfl, -⟩ := List.cons.inj heq
      cases hc
    · rename_i heq
      obtain ⟨rfl, -⟩ := List.cons.inj heq
      cases hc
    · rfl
  have hsign : isDigits (behindSign
      ((if 0 ≤ e && plus then "+" else "") ++ toString e).toList) = true := by
    rw [String.toList_append, toList_toString_int]
    by_cases he : 0 ≤ e
    · rw [if_pos he]
      cases plus with
      | true =>
        rw [if_pos (by simpa using he)]
        exact hdigits _
      | false =>
        rw [if_neg (by simp)]
        exact (congrArg isDigits (hplain _)).trans (hdigits _)
    · rw [if_neg he, if_neg (by simp [he])]
      exact hdigits _
  rw [isPower, hsign]
  rfl

/-- Digits behind a point, and a power of ten behind them. -/
theorem isScale_point {ds power : List Char} (hne : ds ≠ []) (h : ∀ c ∈ ds, c.isDigit = true)
    (hhead : ∀ c ∈ power.head?, c.isDigit = false) (hpower : isPower power = true) :
    isScale ('.' :: (ds ++ power)) = true := by
  obtain ⟨htake, hdrop⟩ := takeWhile_isDigit_append h hhead
  rw [isScale, htake, hdrop, hpower]
  simpa using hne

/-! ### Digits laid out -/

/-- Digits that are fit to be laid out: the first is not zero, or there are none and the exponent
is zero. -/
structure Digits.Fit (d : Digits) : Prop where
  digits : ∀ c ∈ d.digits, c.isDigit = true
  first : d.digits.head? ≠ some '0'
  none : d.digits = [] → d.exponent = 0

namespace Layout

theorem isWhole_zero : IsWhole ['0'] :=
  ⟨List.cons_ne_nil _ _, List.forall_mem_singleton.mpr rfl, fun _ => rfl⟩

theorem isWhole_digits {ds : List Char} (hne : ds ≠ []) (h : ∀ c ∈ ds, c.isDigit = true)
    (hfirst : ds.head? ≠ some '0') : IsWhole ds :=
  ⟨hne, h, fun hzero => absurd hzero hfirst⟩

theorem isDigit_of_mem_zeros {n : Nat} {c : Char} (h : c ∈ List.replicate n '0') :
    c.isDigit = true := by
  rw [List.eq_of_mem_replicate h]
  decide

/-- A whole part, a point and digits. -/
theorem isScaled_point {whole ds : List Char} (hwhole : IsWhole whole) (hne : ds ≠ [])
    (h : ∀ c ∈ ds, c.isDigit = true) : IsScaled (whole ++ '.' :: ds) := by
  have hhead : ∀ c ∈ ([] : List Char).head?, c.isDigit = false := by simp
  have hscale := isScale_point hne h hhead rfl
  rw [List.append_nil] at hscale
  refine ⟨whole, '.' :: ds, rfl, hwhole, List.cons_ne_nil _ _, by simp, hscale, ?_⟩
  exact List.forall_mem_cons.mpr ⟨by decide, fun c hc => isWordChar_of_isDigit (h c hc)⟩

theorem isScaled_plain {d : Digits} (h : d.Fit) : IsScaled (plain d) := by
  rw [plain]
  dsimp only
  split_ifs with hsmall hcount
  · -- below one, zeros in front of the digits
    have hne : d.digits ≠ [] := by
      intro hnil
      have := h.none hnil
      omega
    refine isScaled_point isWhole_zero (List.append_ne_nil_of_right_ne_nil _ hne) fun c hc => ?_
    rcases List.mem_append.mp hc with hc | hc
    · exact isDigit_of_mem_zeros hc
    · exact h.digits c hc
  · -- no digit behind the point but a zero
    refine isScaled_point ?_ (List.cons_ne_nil '0' []) (List.forall_mem_singleton.mpr rfl)
    by_cases hnil : d.digits = []
    · rw [hnil, h.none hnil]
      exact isWhole_zero
    · refine isWhole_digits ?_ (fun c hc => ?_) ?_
      · exact List.append_ne_nil_of_left_ne_nil hnil _
      · rcases List.mem_append.mp hc with hc | hc
        · exact h.digits c hc
        · exact isDigit_of_mem_zeros hc
      · rw [List.head?_append_of_ne_nil _ hnil]
        exact h.first
  · -- digits on either side of the point
    have hlength : 0 < (d.digits.drop (d.exponent.toNat + 1)).length := by
      rw [List.length_drop]
      omega
    obtain ⟨first, ds, hds⟩ := List.exists_cons_of_ne_nil (show d.digits ≠ [] by
      intro hnil
      rw [hnil] at hcount
      exact hcount (Nat.zero_le _))
    refine isScaled_point (isWhole_digits ?_ (fun c hc => h.digits c (List.mem_of_mem_take hc)) ?_)
      (List.ne_nil_of_length_pos hlength) fun c hc => h.digits c (List.mem_of_mem_drop hc)
    · rw [hds, List.take_succ_cons]
      exact List.cons_ne_nil _ _
    · have hfirst := h.first
      rw [hds] at hfirst ⊢
      exact hfirst

theorem isScaled_scientific {d : Digits} (h : d.Fit) (hne : d.digits ≠ []) (plus : Bool) :
    IsScaled (scientific plus d) := by
  have hpower := isPower_toString d.exponent plus
  have hword : ∀ c ∈ 'e' :: ((if 0 ≤ d.exponent && plus then "+" else "") ++
      toString d.exponent).toList, isWordChar c = true := by
    refine List.forall_mem_cons.mpr ⟨by decide, fun c hc => ?_⟩
    rw [String.toList_append] at hc
    rcases List.mem_append.mp hc with hc | hc
    · split_ifs at hc
      · rw [List.mem_singleton.mp hc]
        decide
      · cases hc
    · exact isWordChar_of_mem_toString hc
  rw [scientific]
  rcases hds : d.digits with _ | ⟨first, _ | ⟨second, ds⟩⟩
  · exact absurd hds hne
  all_goals
    have hdigits := h.digits
    rw [hds] at hdigits
    obtain ⟨hfirst, hdigits⟩ := List.forall_mem_cons.mp hdigits
    have hwhole : IsWhole [first] := ⟨List.cons_ne_nil _ _, by simpa using hfirst, fun _ => rfl⟩
  · exact ⟨[first], _, rfl, hwhole, List.cons_ne_nil _ _, by simp, hpower, hword⟩
  · refine ⟨[first], _, rfl, hwhole, List.cons_ne_nil _ _, by simp, ?_, ?_⟩
    · exact isScale_point (List.cons_ne_nil second ds) hdigits (by simp) hpower
    · refine List.forall_mem_cons.mpr ⟨by decide, fun c hc => ?_⟩
      rcases List.mem_append.mp hc with hc | hc
      · exact isWordChar_of_isDigit (hdigits c hc)
      · exact hword c hc

/-- **Fit digits are laid out as a number**, if a first digit of the ones is written in place. -/
theorem isScaled_lay {l : Layout} {d : Digits} (hleast : l.leastPlain ≤ 0)
    (hgreatest : 0 ≤ l.greatestPlain) (h : d.Fit) : IsScaled (l.lay d) := by
  rw [lay]
  split_ifs with hplain
  · exact isScaled_plain h
  · refine isScaled_scientific h (fun hnil => ?_) l.plusSign
    rw [h.none hnil] at hplain
    simp [hleast, hgreatest] at hplain

end Layout

/-! ### The shortest digits -/

namespace Shortest

/-- The digits of a positive number start as the number does, also without the final zeros. -/
theorem fit_digitsOf {n : Nat} (h : 0 < n) (grid : Int) : (digitsOf n grid).Fit := by
  have htrim : trimZeros (Nat.toDigits 10 n) = (Nat.toDigits 10 n).rdropWhile (· == '0') := rfl
  have hinitial : trimZeros (Nat.toDigits 10 n) <+: Nat.toDigits 10 n :=
    htrim ▸ List.rdropWhile_prefix _ _
  obtain ⟨c, cs, hcs⟩ := List.exists_cons_of_ne_nil (Nat.toDigits_ne_nil (n := n) (b := 10))
  have hfirst := head?_toDigits_ne_zero h
  rw [hcs] at hfirst
  have hne : trimZeros (Nat.toDigits 10 n) ≠ [] := by
    intro hnil
    rw [htrim, List.rdropWhile_eq_nil_iff] at hnil
    have hc := hnil c (hcs ▸ List.mem_cons_self)
    exact hfirst (congrArg some (beq_iff_eq.mp hc))
  refine ⟨fun d hd => isDigit_of_mem_toDigits (hinitial.subset hd), ?_, fun hnil => absurd hnil hne⟩
  obtain ⟨first, ds, hds⟩ := List.exists_cons_of_ne_nil hne
  change (trimZeros (Nat.toDigits 10 n)).head? ≠ some '0'
  rw [hds, hcs] at hinitial
  obtain ⟨rfl, -⟩ := List.cons_prefix_cons.mp hinitial
  rwa [hds]

/-- The digits of a whole number, also of zero. -/
theorem fit_digitsOf_zero (n : Nat) : (digitsOf n 0).Fit := by
  rcases Nat.eq_zero_or_pos n with rfl | h
  · exact ⟨List.forall_mem_nil _, by decide, fun _ => rfl⟩
  · exact fit_digitsOf h 0

/-- Zero does not lie in an interval of positive numbers. -/
theorem pos_of_contains {i : Interval} {n : Nat} {grid : Int} (hlow : 0 < i.low)
    (h : i.contains n grid = true) : 0 < n := by
  refine Nat.pos_of_ne_zero ?_
  rintro rfl
  have hscale : (scaleRatio 0 1 grid).1 = 0 ∧ 0 < (scaleRatio 0 1 grid).2 := by
    rw [scaleRatio]
    split
    · exact ⟨Nat.zero_mul _, Nat.one_pos⟩
    · exact ⟨rfl, Nat.mul_pos Nat.one_pos (tenPow_pos _)⟩
  have hpos : 0 < i.low * (scaleRatio 0 1 grid).2 := Nat.mul_pos hlow hscale.2
  rw [Interval.contains] at h
  dsimp only at h
  rw [hscale.1, Nat.zero_mul] at h
  split at h
  · simp only [Bool.and_eq_true, decide_eq_true_eq] at h
    omega
  · simp only [Bool.and_eq_true, decide_eq_true_eq] at h
    omega

theorem pos_of_nearest? {i : Interval} {tie : Tie} {n : Nat} {grid : Int} (hlow : 0 < i.low)
    (h : i.nearest? tie grid = some n) : 0 < n := by
  unfold Interval.nearest? at h
  dsimp only at h
  split at h
  · rename_i hbelow _
    obtain rfl := Option.some.inj h
    split
    · exact Nat.succ_pos _
    · exact pos_of_contains hlow hbelow
  · rename_i hbelow _
    obtain rfl := Option.some.inj h
    exact pos_of_contains hlow hbelow
  · obtain rfl := Option.some.inj h
    exact Nat.succ_pos _
  · cases h

theorem fit_search {i : Interval} (hlow : 0 < i.low) (tie : Tie) (grid : Int) (steps : Nat) :
    (search i tie grid steps).Fit := by
  induction steps generalizing grid with
  | zero => exact fit_digitsOf_zero _
  | succ steps ih =>
    rw [search]
    split
    · rename_i n hn
      exact fit_digitsOf (pos_of_nearest? hlow hn) grid
    · exact ih _

/-- **The shortest digits of a positive number are fit.** -/
theorem fit_digits (f : Format) (tie : Tie) {m : Nat} (h : 0 < m) (e : Int) :
    (digits f tie m e).Fit := by
  refine fit_search ?_ _ _ _
  refine Nat.mul_pos ?_ (twoPow_pos _)
  split <;> omega

end Shortest

/-- **A finite number is written as a numeral.** -/
theorem Layout.isNumeral_finite {l : Layout} (hleast : l.leastPlain ≤ 0)
    (hgreatest : 0 ≤ l.greatestPlain) (f : Format) (negative : Bool) (m : Nat) (e : Int) :
    IsNumeral (l.finite f negative m e) := by
  have hbody : IsScaled (if m = 0 then "0.0".toList else l.lay (Shortest.digits f l.tie m e)) := by
    split_ifs with hm
    · exact isScaled_point isWhole_zero (List.cons_ne_nil '0' [])
        (List.forall_mem_singleton.mpr rfl)
    · exact isScaled_lay hleast hgreatest (Shortest.fit_digits f l.tie (Nat.pos_of_ne_zero hm) e)
  exact hbody.isNumeral negative

end NnetText
