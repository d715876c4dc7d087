import NnetText.Component.Synthesis
import NnetText.Proofs.ShortestDigits

/-!
# Numbers in names

A number in a name can be told from its text (`Component.nameNumber_injective`): only the words that
are no numbers share one. The text of a finite number is a sign, if it has one, and what spells a
decimal fraction (`Spells`). A text spells one fraction (`Spells.unique`), and the fraction that a
number is written as determines it (`Shortest.eq_of_decimal`), since it has the shortest digits.

A word is its sign and its magnitude (`Binary.eq_of_parts`). What it stands for gives both back
(`Binary.meaning_cases`), so that nothing is lost on the way from the word to the text.
-/

namespace NnetText

/-! ### What a text spells -/

/-- **A text spells a decimal fraction**: digits on either side of a point, or digits with at most a
point among them and a power of ten, which belongs to the first digit. -/
inductive Spells : List Char → ℚ → Prop
  | point {whole fraction : List Char} (hwhole : ∀ c ∈ whole, c.isDigit = true)
      (hfraction : ∀ c ∈ fraction, c.isDigit = true) :
      Spells (whole ++ '.' :: fraction)
        (Nat.ofDigitChars 10 (whole ++ fraction) 0 * 10 ^ (-fraction.length : Int))
  | power {mantissa : List Char} (exponent : Int)
      (hmantissa : ∀ c ∈ mantissa, c.isDigit = true ∨ c = '.') :
      Spells (mantissa ++ 'e' :: (toString exponent).toList)
        (Nat.ofDigitChars 10 (mantissa.filter (· ≠ '.')) 0 *
          10 ^ (exponent + 1 - (mantissa.filter (· ≠ '.')).length))

theorem not_mem_of_isDigit {cs : List Char} {x : Char} (h : ∀ c ∈ cs, c.isDigit = true)
    (hx : x.isDigit = false) : x ∉ cs := by
  intro hmem
  rw [h x hmem] at hx
  cases hx

namespace Spells

variable {cs : List Char} {q q' : ℚ}

/-- Which characters there are in such a text. -/
theorem mem_cases (h : Spells cs q) {c : Char} (hc : c ∈ cs) :
    c.isDigit = true ∨ c = '.' ∨ c = 'e' ∨ c = '-' := by
  cases h with
  | point hwhole hfraction =>
    rcases List.mem_append.mp hc with hc | hc
    · exact Or.inl (hwhole c hc)
    · rcases List.mem_cons.mp hc with rfl | hc
      · exact Or.inr (Or.inl rfl)
      · exact Or.inl (hfraction c hc)
  | power exponent hmantissa =>
    rcases List.mem_append.mp hc with hc | hc
    · rcases hmantissa c hc with hdigit | hpoint
      · exact Or.inl hdigit
      · exact Or.inr (Or.inl hpoint)
    · rcases List.mem_cons.mp hc with rfl | hc
      · exact Or.inr (Or.inr (Or.inl rfl))
      · rcases isDigit_or_minus_of_mem_toString hc with hdigit | hminus
        · exact Or.inl hdigit
        · exact Or.inr (Or.inr (Or.inr hminus))

/-- There is a point or a power of ten in such a text. -/
theorem point_or_power_mem (h : Spells cs q) : '.' ∈ cs ∨ 'e' ∈ cs := by
  cases h with
  | point => exact Or.inl (by simp)
  | power => exact Or.inr (by simp)

/-- Such a text has no sign in front. -/
theorem head?_ne_minus (h : Spells cs q) : cs.head? ≠ some '-' := by
  cases h with
  | @point whole fraction hwhole hfraction =>
    rcases whole with _ | ⟨c, whole⟩
    · exact (by decide : some '.' ≠ some '-')
    · intro heq
      have hc := hwhole c List.mem_cons_self
      obtain rfl : c = '-' := Option.some.inj heq
      exact absurd hc (by decide)
  | @power mantissa exponent hmantissa =>
    rcases mantissa with _ | ⟨c, mantissa⟩
    · exact (by decide : some 'e' ≠ some '-')
    · intro heq
      have hc := hmantissa c List.mem_cons_self
      obtain rfl : c = '-' := Option.some.inj heq
      exact absurd hc (by decide)

/-- A text with a power of ten is not one without. -/
theorem power_not_mem_point {whole fraction : List Char} (hwhole : ∀ c ∈ whole, c.isDigit = true)
    (hfraction : ∀ c ∈ fraction, c.isDigit = true) : 'e' ∉ whole ++ '.' :: fraction := by
  simp [not_mem_of_isDigit hwhole (x := 'e') (by decide),
    not_mem_of_isDigit hfraction (x := 'e') (by decide)]

/-- **A text spells one number.** -/
theorem unique (h : Spells cs q) (h' : Spells cs q') : q = q' := by
  generalize hcs : cs = cs' at h'
  cases h with
  | @point whole fraction hwhole hfraction =>
    cases h' with
    | @point whole' fraction' hwhole' hfraction' =>
      obtain ⟨rfl, -, rfl⟩ := (List.append_cons_inj_of_notMem
        (not_mem_of_isDigit hwhole (by decide)) (not_mem_of_isDigit hfraction (by decide))).mp hcs
      rfl
    | @power mantissa exponent hmantissa =>
      refine absurd ?_ (power_not_mem_point hwhole hfraction)
      rw [hcs]
      simp
  | @power mantissa exponent hmantissa =>
    have hpower : 'e' ∉ mantissa := by
      intro hmem
      rcases hmantissa 'e' hmem with hdigit | hpoint
      · exact absurd hdigit (by decide)
      · exact absurd hpoint (by decide)
    have hpower' : 'e' ∉ (toString exponent).toList := by
      intro hmem
      rcases isDigit_or_minus_of_mem_toString hmem with hdigit | hminus
      · exact absurd hdigit (by decide)
      · exact absurd hminus (by decide)
    cases h' with
    | @point whole' fraction' hwhole' hfraction' =>
      refine absurd ?_ (power_not_mem_point hwhole' hfraction')
      rw [← hcs]
      simp
    | @power mantissa' exponent' hmantissa' =>
      obtain ⟨rfl, -, hexponent⟩ := (List.append_cons_inj_of_notMem hpower hpower').mp hcs
      rw [toString_int_injective (String.toList_injective hexponent)]

end Spells

/-! ### What digits are laid out as -/

namespace Layout

variable {d : Digits}

/-- **Digits in place spell their value**, with zeros in front of them, behind them or nowhere. -/
theorem spells_plain (h : ∀ c ∈ d.digits, c.isDigit = true) : Spells (plain d) d.value := by
  have hzeros : ∀ {k : Nat}, ∀ c ∈ List.replicate k '0', c.isDigit = true := by
    intro k c hc
    rw [(List.mem_replicate.mp hc).2]
    rfl
  have hzero : ∀ c ∈ ['0'], c.isDigit = true := List.forall_mem_singleton.mpr rfl
  rw [plain]
  dsimp only
  split_ifs with hexponent hcount
  · -- the value is below one, and zeros stand in front of the digits
    have hspells := Spells.point hzero (List.forall_mem_append.mpr
      ⟨hzeros (k := (-d.exponent - 1).toNat), h⟩)
    rw [Nat.ofDigitChars_append, Nat.ofDigitChars_append, Nat.ofDigitChars_replicate_zero,
      show Nat.ofDigitChars 10 ['0'] 0 = 0 from rfl, Nat.mul_zero, List.length_append,
      List.length_replicate,
      show (-(((-d.exponent - 1).toNat + d.digits.length : Nat)) : Int)
        = d.exponent + 1 - d.digits.length by omega] at hspells
    exact hspells
  · -- the value is whole, and zeros stand behind the digits
    have hspells := Spells.point (List.forall_mem_append.mpr
      ⟨h, hzeros (k := d.exponent.toNat + 1 - d.digits.length)⟩) hzero
    rw [List.append_assoc _ _ ['0'], ← List.replicate_succ', Nat.ofDigitChars_append,
      Nat.ofDigitChars_replicate_zero, Nat.cast_mul, mul_comm (Nat.cast _), mul_assoc,
      Nat.cast_pow, Nat.cast_ofNat, ← zpow_natCast, ← zpow_add₀ (by norm_num)] at hspells
    rw [Digits.value]
    convert hspells using 3
    simp only [List.length_singleton]
    omega
  · have hwhole : ∀ c ∈ d.digits.take (d.exponent.toNat + 1), c.isDigit = true :=
      fun c hc => h c (List.mem_of_mem_take hc)
    have hfraction : ∀ c ∈ d.digits.drop (d.exponent.toNat + 1), c.isDigit = true :=
      fun c hc => h c (List.mem_of_mem_drop hc)
    have hspells := Spells.point hwhole hfraction
    rw [List.take_append_drop, List.length_drop,
      show (-((d.digits.length - (d.exponent.toNat + 1) : Nat)) : Int)
        = d.exponent + 1 - d.digits.length by omega] at hspells
    exact hspells

/-- **Digits with a power of ten spell their value.** -/
theorem spells_scientific (h : ∀ c ∈ d.digits, c.isDigit = true) :
    Spells (scientific false d) d.value := by
  have hfilter : d.digits.filter (· ≠ '.') = d.digits := by
    refine List.filter_eq_self.mpr fun c hc => decide_eq_true ?_
    rintro rfl
    exact absurd (h '.' hc) (by decide)
  have hmantissa : ∀ {mantissa : List Char}, (∀ c ∈ mantissa, c.isDigit = true ∨ c = '.') →
      mantissa.filter (· ≠ '.') = d.digits →
      Spells (mantissa ++ 'e' :: (toString d.exponent).toList) d.value := by
    intro mantissa hchars heq
    have hspells := Spells.power d.exponent hchars
    rw [heq] at hspells
    exact hspells
  rw [scientific]
  simp only [Bool.and_false, Bool.false_eq_true, if_false, String.empty_append]
  split
  · rename_i first second rest hds
    refine hmantissa (fun c hc => ?_) ?_
    · rcases List.mem_cons.mp hc with rfl | hc
      · exact Or.inl (h _ (hds ▸ List.mem_cons_self))
      · rcases List.mem_cons.mp hc with rfl | hc
        · exact Or.inr rfl
        · exact Or.inl (h c (hds ▸ List.mem_cons_of_mem first hc))
    · rw [← hfilter, hds]
      simp [List.filter_cons]
  · exact hmantissa (fun c hc => Or.inl (h c hc)) hfilter

theorem spells_lay {l : Layout} (hsign : l.plusSign = false)
    (h : ∀ c ∈ d.digits, c.isDigit = true) : Spells (l.lay d) d.value := by
  rw [lay, hsign]
  split_ifs
  · exact spells_plain h
  · exact spells_scientific h

/-- Zero as it is written spells zero. -/
theorem spells_zero : Spells "0.0".toList 0 := by
  have hzero : ∀ c ∈ ['0'], c.isDigit = true := List.forall_mem_singleton.mpr rfl
  have hspells := Spells.point hzero hzero
  rw [show Nat.ofDigitChars 10 (['0'] ++ ['0']) 0 = 0 from rfl, Nat.cast_zero, zero_mul] at hspells
  exact hspells

end Layout

/-! ### Finite numbers -/

namespace Shortest

variable {f : Format} {tie : Tie} {m m' : Nat} {e e' : Int}

/-- **The decimal fraction that a number is written as.** -/
def decimal (f : Format) (tie : Tie) (m : Nat) (e : Int) : ℚ :=
  if m = 0 then 0 else (digits f tie m e).value

theorem decimal_pos (tie : Tie) (h : Canonical f m e) (hpos : 0 < m) : 0 < decimal f tie m e := by
  obtain ⟨n, g, hdigits, hcontains⟩ := exists_digits tie h hpos
  have hlow : 0 < (interval f m e).low := by
    refine Nat.mul_pos ?_ (twoPow_pos _)
    split <;> omega
  have hn : (0 : ℚ) < n := Nat.cast_pos.mpr (pos_of_contains hlow hcontains)
  rw [decimal, if_neg (Nat.ne_of_gt hpos), hdigits, value_digitsOf]
  exact mul_pos hn (zpow_pos (by norm_num) g)

/-- Zero has the least exponent. -/
theorem Canonical.exponent_of_zero (h : Canonical f 0 e) : e = f.leastExponent := by
  have hleast := h.least
  have hpower := twoPow_pos f.fractionBits
  by_contra hne
  have hnormal := h.normal (by omega)
  omega

/-- **Numbers written as one fraction are the same**, zero among them. -/
theorem eq_of_decimal (h : Canonical f m e) (h' : Canonical f m' e')
    (heq : decimal f tie m e = decimal f tie m' e') : m = m' ∧ e = e' := by
  rcases Nat.eq_zero_or_pos m with rfl | hpos
  · rcases Nat.eq_zero_or_pos m' with rfl | hpos'
    · exact ⟨rfl, h.exponent_of_zero.trans h'.exponent_of_zero.symm⟩
    · have hdecimal := decimal_pos tie h' hpos'
      rw [← heq] at hdecimal
      exact absurd hdecimal (lt_irrefl 0)
  · rcases Nat.eq_zero_or_pos m' with rfl | hpos'
    · have hdecimal := decimal_pos tie h hpos
      rw [heq] at hdecimal
      exact absurd hdecimal (lt_irrefl 0)
    · rw [decimal, decimal, if_neg (Nat.ne_of_gt hpos), if_neg (Nat.ne_of_gt hpos')] at heq
      exact eq_of_value_digits h h' hpos hpos' heq

end Shortest

/-- **The text of a finite number is a sign, if it has one, and what spells its fraction.** -/
theorem Layout.exists_finite {l : Layout} (hsign : l.plusSign = false) (f : Format)
    (negative : Bool) (m : Nat) (e : Int) :
    ∃ cs, (l.finite f negative m e).toList = (if negative then '-' :: cs else cs) ∧
      Spells cs (Shortest.decimal f l.tie m e) := by
  refine ⟨_, String.toList_ofList, ?_⟩
  rw [Shortest.decimal]
  split_ifs with hm
  · exact spells_zero
  · exact spells_lay hsign (Shortest.fit_digits f l.tie (Nat.pos_of_ne_zero hm) e).digits

/-- **A signed text has one sign and spells one number.** -/
theorem Spells.sign_unique {s s' : Bool} {cs cs' : List Char} {q q' : ℚ} (h : Spells cs q)
    (h' : Spells cs' q')
    (heq : (if s then '-' :: cs else cs) = (if s' then '-' :: cs' else cs')) :
    s = s' ∧ q = q' := by
  cases s <;> cases s' <;> simp only [Bool.false_eq_true, if_false, if_true] at heq
  · exact ⟨rfl, h.unique (heq ▸ h')⟩
  · exact absurd (congrArg List.head? heq) h.head?_ne_minus
  · exact absurd (congrArg List.head? heq.symm) h'.head?_ne_minus
  · exact ⟨rfl, h.unique ((List.cons.inj heq).2 ▸ h')⟩

/-! ### Words -/

namespace Binary

variable {f : Format} {x y : Binary f}

/-- A word is its sign and its magnitude. -/
theorem eq_of_parts (hsign : x.negative = y.negative) (hmagnitude : x.magnitude = y.magnitude) :
    x = y := by
  have hwidth : f.width - 1 + 1 = f.width := by
    simp only [Format.width]
    omega
  have hparts : ∀ z : Binary f, z.bits.toNat =
      (if z.negative then twoPow (f.width - 1) else 0) + z.magnitude := by
    intro z
    have hlt : z.bits.toNat < twoPow (f.width - 1) * 2 := by
      rw [← twoPow_succ, hwidth]
      exact z.bits.isLt
    rw [negative, magnitude, BitVec.msb_eq_decide]
    change _ = (if decide (twoPow (f.width - 1) ≤ _) = true then _ else _) + _
    generalize twoPow (f.width - 1) = half at hlt ⊢
    by_cases hle : half ≤ z.bits.toNat
    · rw [if_pos (decide_eq_true hle), Nat.mod_eq_sub_mod hle, Nat.mod_eq_of_lt (by omega)]
      omega
    · rw [if_neg (by simpa using hle), Nat.mod_eq_of_lt (by omega), Nat.zero_add]
  have hbits : x.bits = y.bits := by
    refine BitVec.eq_of_toNat_eq ?_
    rw [hparts x, hparts y, hsign, hmagnitude]
  exact congrArg Binary.mk hbits

/-- **What a word can stand for**, and its magnitude for each. -/
theorem meaning_cases (x : Binary f) :
    (x.meaning = .nan ∧ x.isNan = true) ∨
    (x.meaning = .infinite x.negative ∧ x.magnitude = f.infinityBits) ∨
    ∃ m e, x.meaning = .finite x.negative m e ∧ Shortest.Canonical f m e ∧
      x.magnitude = m + (e - f.leastExponent).toNat * twoPow f.fractionBits := by
  have hpower := twoPow_pos f.fractionBits
  have hsplit := Nat.div_add_mod' x.magnitude (twoPow f.fractionBits)
  have hmod := Nat.mod_lt x.magnitude hpower
  rw [meaning, isNan, Format.infinityBits]
  generalize x.magnitude / twoPow f.fractionBits = biased at hsplit ⊢
  generalize x.magnitude % twoPow f.fractionBits = fraction at hsplit hmod ⊢
  split_ifs with hlast hfraction hzero
  · refine Or.inr (Or.inl ⟨rfl, ?_⟩)
    rw [← hsplit, hlast, hfraction, Nat.add_zero]
  · refine Or.inl ⟨rfl, decide_eq_true ?_⟩
    rw [← hsplit, hlast]
    omega
  · refine Or.inr (Or.inr
      ⟨_, _, rfl, ⟨by omega, le_refl _, fun hlt => absurd hlt (lt_irrefl _)⟩, ?_⟩)
    rw [← hsplit, hzero, Int.sub_self, Int.toNat_zero, Nat.zero_mul, Nat.zero_add, Nat.add_zero]
  · refine Or.inr (Or.inr ⟨_, _, rfl, ⟨by omega, by omega, fun _ => by omega⟩, ?_⟩)
    obtain ⟨k, rfl⟩ := Nat.exists_eq_succ_of_ne_zero hzero
    rw [← hsplit, add_sub_cancel_left, Int.toNat_natCast, Nat.succ_sub_one, Nat.succ_mul]
    omega

end Binary

/-! ### Numbers in names -/

namespace Component

/-- **The text of a number is one of three**: that of no number, an infinity, or a sign with what
spells a fraction. -/
theorem nameNumber_cases (x : Double) :
    (nameNumber x = "NaN" ∧ x.isNan = true) ∨
    (nameNumber x = (if x.negative then "-inf" else "inf") ∧
      x.magnitude = Format.double.infinityBits) ∨
    ∃ m e cs, (nameNumber x).toList = (if x.negative then '-' :: cs else cs) ∧
      Spells cs (Shortest.decimal .double nameLayout.tie m e) ∧ Shortest.Canonical .double m e ∧
      x.magnitude = m + (e - Format.double.leastExponent).toNat * twoPow 52 := by
  rcases x.meaning_cases with ⟨hmeaning, hnan⟩ | ⟨hmeaning, hmagnitude⟩ |
    ⟨m, e, hmeaning, hcanonical, hmagnitude⟩
  · exact Or.inl ⟨by rw [nameNumber, hmeaning], hnan⟩
  · exact Or.inr (Or.inl ⟨by rw [nameNumber, hmeaning], hmagnitude⟩)
  · obtain ⟨cs, hcs, hspells⟩ := Layout.exists_finite (l := nameLayout) rfl .double x.negative m e
    refine Or.inr (Or.inr ⟨m, e, cs, ?_, hspells, hcanonical, hmagnitude⟩)
    rw [nameNumber, hmeaning]
    exact hcs

/-- An infinity has a text of its own. -/
theorem infinite_ne_spelled {s s' : Bool} {cs : List Char} {q : ℚ} (h : Spells cs q) :
    (if s then "-inf" else "inf").toList ≠ (if s' then '-' :: cs else cs) := by
  intro heq
  have hmem : ∀ c ∈ cs, c ∈ (if s then "-inf" else "inf").toList := by
    intro c hc
    rw [heq]
    split
    · exact List.mem_cons_of_mem _ hc
    · exact hc
  have hnone : '.' ∉ (if s then "-inf" else "inf").toList ∧
      'e' ∉ (if s then "-inf" else "inf").toList := by
    cases s <;> decide
  rcases h.point_or_power_mem with hpoint | hpower
  · exact hnone.1 (hmem _ hpoint)
  · exact hnone.2 (hmem _ hpower)

/-- **A number in a name can be told from its text**, unless it is none. -/
theorem nameNumber_injective {x y : Double} (hx : x.isNan = false) (hy : y.isNan = false)
    (h : nameNumber x = nameNumber y) : x = y := by
  rcases nameNumber_cases x with ⟨-, hnan⟩ | ⟨hinf, hmag⟩ | ⟨m, e, cs, htext, hspells, hcan, hmag⟩
  · rw [hx] at hnan
    cases hnan
  · rcases nameNumber_cases y with
      ⟨-, hnan⟩ | ⟨hinf', hmag'⟩ | ⟨m', e', cs', htext', hspells', hcan', hmag'⟩
    · rw [hy] at hnan
      cases hnan
    · refine Binary.eq_of_parts ?_ (hmag.trans hmag'.symm)
      rw [hinf, hinf'] at h
      revert h
      cases x.negative <;> cases y.negative <;> decide
    · rw [← h, hinf] at htext'
      exact absurd htext' (infinite_ne_spelled hspells')
  · rcases nameNumber_cases y with
      ⟨-, hnan⟩ | ⟨hinf', hmag'⟩ | ⟨m', e', cs', htext', hspells', hcan', hmag'⟩
    · rw [hy] at hnan
      cases hnan
    · rw [h, hinf'] at htext
      exact absurd htext (infinite_ne_spelled hspells)
    · rw [h, htext'] at htext
      obtain ⟨hsign, hdecimal⟩ := hspells'.sign_unique hspells htext
      obtain ⟨rfl, rfl⟩ := Shortest.eq_of_decimal hcan' hcan hdecimal
      exact Binary.eq_of_parts hsign.symm (hmag.trans hmag'.symm)

/-- There is no `s` in the text of a number. -/
theorem s_notMem_nameNumber (x : Double) : 's' ∉ (nameNumber x).toList := by
  rcases nameNumber_cases x with ⟨hnan, -⟩ | ⟨hinf, -⟩ | ⟨m, e, cs, htext, hspells, -, -⟩
  · rw [hnan]
    decide
  · rw [hinf]
    split <;> decide
  · intro hmem
    have hmem' : 's' ∈ cs := by
      rw [htext] at hmem
      split at hmem
      · exact List.mem_of_ne_of_mem (by decide) hmem
      · exact hmem
    rcases hspells.mem_cases hmem' with hdigit | hpoint | hpower | hminus
    · exact absurd hdigit (by decide)
    · exact absurd hpoint (by decide)
    · exact absurd hpower (by decide)
    · exact absurd hminus (by decide)

end Component

end NnetText
