import Hanport.Lib.DecimalText

/-!
# Printing with two decimals

`fixed2` prints a finite datum as the decimal numeral of its hundredths, rounded to
nearest with ties to even (`isNumeral_fixed2`). Its error is at most half a hundredth
(`fixed2_near`), so what `stof` makes of a numeral with at most two decimals is printed as
that numeral again as long as the spacing of the data is below a hundredth
(`stof_fixed2`), and an integer is printed as the nearest integer that is a datum
(`fixed2_ofInt`).
-/

namespace Lib

open Ascii Strtof

/-! ## The digits of a number -/

namespace Strtof

theorem decDigit?_digitChar : ∀ d, d < 10 → decDigit? (Nat.digitChar d).toUInt8 = some d := by
  decide

/-- The decimal digits of a number are digits, and spell it. -/
theorem digits_toString (n : ℕ) :
    (∀ b ∈ ascii (toString n), isDecDigit b = true) ∧ ascii (toString n) ≠ [] ∧
      digitsValue (ascii (toString n)) = n := by
  have hascii : ∀ n : ℕ, ascii (toString n) = (Nat.toDigits 10 n).map Char.toUInt8 := by
    intro n
    unfold ascii
    rw [Nat.toString_eq_repr, Nat.toList_repr]
  -- the last digit stands behind the digits of the tenth
  induction n using Nat.strongRecOn with
  | ind n ih =>
      have hlast := decDigit?_digitChar (n % 10) (Nat.mod_lt n (by decide))
      have hdigit : isDecDigit (Nat.digitChar (n % 10)).toUInt8 = true := by
        unfold isDecDigit
        rw [hlast]
        rfl
      have hvalue : digitsValue [(Nat.digitChar (n % 10)).toUInt8] = n % 10 := by
        simp [digitsValue, hlast, ofDigits]
      by_cases hn : n < 10
      · rw [hascii, Nat.toDigits_of_lt_base hn, List.map_singleton]
        rw [Nat.mod_eq_of_lt hn] at hdigit hvalue
        exact ⟨by simpa using hdigit, by simp, hvalue⟩
      · obtain ⟨hdigits, hne, hspell⟩ := ih (n / 10) (by omega)
        have hsplit : ascii (toString n) =
            ascii (toString (n / 10)) ++ [(Nat.digitChar (n % 10)).toUInt8] := by
          rw [hascii, hascii, Nat.toDigits_of_base_le (by decide) (by omega), List.map_append,
            List.map_singleton]
        rw [hsplit]
        refine ⟨?_, by simp, ?_⟩
        · intro b hb
          rcases List.mem_append.mp hb with hin | hlast
          · exact hdigits b hin
          · rw [List.mem_singleton.mp hlast]
            exact hdigit
        · rw [digitsValue_append (by simpa using hdigit), hspell, hvalue, List.length_singleton]
          omega

/-- The numeral of a sign and a number of hundredths. -/
def spellHundredths (neg : Bool) (N : ℕ) : String :=
  (if neg then "-" else "") ++ toString (N / 100) ++ "." ++ toString (N % 100 / 10) ++
    toString (N % 10)

theorem ascii_append (s t : String) : ascii (s ++ t) = ascii s ++ ascii t := by
  unfold ascii
  rw [String.toList_append, List.map_append]

/-- One digit. -/
theorem length_toString_digit {d : ℕ} (h : d < 10) : (ascii (toString d)).length = 1 := by
  interval_cases d <;> rfl

/-- The text is the numeral of these hundredths. -/
theorem isNumeral_spellHundredths (neg : Bool) (N : ℕ) :
    IsNumeral (ascii (spellHundredths neg N)) neg N 2 := by
  obtain ⟨hwhole, hne, hwholeValue⟩ := digits_toString (N / 100)
  obtain ⟨htens, -, htensValue⟩ := digits_toString (N % 100 / 10)
  obtain ⟨hones, -, honesValue⟩ := digits_toString (N % 10)
  have htensLength := length_toString_digit (show N % 100 / 10 < 10 by omega)
  have honesLength := length_toString_digit (show N % 10 < 10 by omega)
  have hfrac : ∀ b ∈ ascii (toString (N % 100 / 10)) ++ ascii (toString (N % 10)),
      isDecDigit b = true := by
    intro b hb
    rcases List.mem_append.mp hb with h | h
    · exact htens b h
    · exact hones b h
  have hlength : (ascii (toString (N % 100 / 10)) ++ ascii (toString (N % 10))).length = 2 := by
    rw [List.length_append, htensLength, honesLength]
  have hne' : ascii (toString (N % 100 / 10)) ++ ascii (toString (N % 10)) ≠ [] := by
    intro hnil
    rw [hnil] at hlength
    cases hlength
  have hvalue : digitsValue (ascii (toString (N / 100)) ++
      (ascii (toString (N % 100 / 10)) ++ ascii (toString (N % 10)))) = N := by
    rw [digitsValue_append hfrac, hlength, hwholeValue, digitsValue_append hones, htensValue,
      honesValue, honesLength]
    omega
  have hsign : IsSign (ascii (if neg then "-" else "")) neg := by
    cases neg with
    | false => exact .none
    | true => exact .minus
  have hnumeral := IsNumeral.pointed hsign hwhole hne hfrac hne'
  rw [hvalue, hlength] at hnumeral
  unfold spellHundredths
  simp only [ascii_append, List.append_assoc]
  exact hnumeral

end Strtof

namespace Binary32

/-! ## Rounded quotients -/

/-- The rounded quotient is at most half a denominator off. -/
theorem divRoundEven_close {n d : ℕ} (hd : 0 < d) :
    2 * n ≤ 2 * (divRoundEven n d * d) + d ∧ 2 * (divRoundEven n d * d) ≤ 2 * n + d := by
  have hn := Nat.div_add_mod' n d
  have hmod := Nat.mod_lt n hd
  unfold divRoundEven
  split_ifs with h
  · omega
  · have hnext : (n / d + 1) * d = n / d * d + d := by ring
    omega

/-- What is less than half a denominator off is the rounded quotient. -/
theorem divRoundEven_of_close {n d q : ℕ} (hd : 0 < d) (hbelow : 2 * n < 2 * (q * d) + d)
    (habove : 2 * (q * d) < 2 * n + d) : divRoundEven n d = q := by
  obtain ⟨hlow, hhigh⟩ := divRoundEven_close hd (n := n)
  have hle : divRoundEven n d < q + 1 := by
    have : divRoundEven n d * d < (q + 1) * d := by
      rw [Nat.succ_mul]
      omega
    exact Nat.lt_of_mul_lt_mul_right this
  have hge : q < divRoundEven n d + 1 := by
    have : q * d < (divRoundEven n d + 1) * d := by
      rw [Nat.succ_mul]
      omega
    exact Nat.lt_of_mul_lt_mul_right this
  omega

theorem divRoundEven_mul_self (q : ℕ) {d : ℕ} (hd : 0 < d) : divRoundEven (q * d) d = q :=
  divRoundEven_of_close hd (by omega) (by omega)

/-- The rounded units are at most half the spacing off. -/
theorem units_close (neg : Bool) {n d : ℕ} (hd : 0 < d)
    (h : (ofUnits neg n d).isFinite = true) :
    2 * n ≤ 2 * ((ofUnits neg n d).units * d) + d * 2 ^ roundExp n d ∧
      2 * ((ofUnits neg n d).units * d) ≤ 2 * n + d * 2 ^ roundExp n d := by
  have hpos : 0 < d * 2 ^ roundExp n d := by positivity
  have hunits : (ofUnits neg n d).units * d = roundSig n d * (d * 2 ^ roundExp n d) := by
    rw [units_ofUnits neg n d hd h]
    ring
  rw [hunits]
  exact divRoundEven_close hpos

/-! ## The error of one rounding -/

/-- A datum against a numeral of the same sign. -/
theorem abs_value_sub_numeral (x : Binary32) (N k : ℕ) :
    |x.value - numeralValue x.neg N k| =
      ((|((x.units * 10 ^ k : ℕ) : ℤ) - (N * 2 ^ 149 : ℕ)| : ℤ) : ℚ) / (10 ^ k * 2 ^ 149) := by
  have hsame : |x.value - numeralValue x.neg N k| = |(x.units : ℚ) / 2 ^ 149 - N / 10 ^ k| := by
    unfold numeralValue
    cases hneg : x.neg with
    | false => rw [value_of_not_neg hneg, if_neg Bool.false_ne_true]
    | true =>
        rw [value_of_neg hneg, if_pos rfl, ← abs_neg]
        congr 1
        ring
  have hscale : (x.units : ℚ) / 2 ^ 149 - N / 10 ^ k =
      ((x.units * 10 ^ k : ℕ) - (N * 2 ^ 149 : ℕ) : ℚ) / (10 ^ k * 2 ^ 149) := by
    push_cast
    field_simp
    ring
  rw [hsame, hscale, abs_div, abs_of_pos (show (0 : ℚ) < 10 ^ k * 2 ^ 149 by positivity)]
  push_cast
  rfl

/-- Rounding a numeral costs a relative `2^-24`, or half of the least datum. -/
theorem value_close (neg : Bool) {N k : ℕ}
    (h : (ofUnits neg (N * 2 ^ 149) (10 ^ k)).isFinite = true) :
    |(ofUnits neg (N * 2 ^ 149) (10 ^ k)).value - numeralValue neg N k| ≤
      max (|numeralValue neg N k| / 2 ^ 24) (1 / 2 ^ 150) := by
  have hpow : 0 < 10 ^ k := by positivity
  obtain ⟨hlow, hhigh⟩ := units_close neg hpow h
  have hdistance := abs_value_sub_numeral (ofUnits neg (N * 2 ^ 149) (10 ^ k)) N k
  rw [neg_ofUnits] at hdistance
  rw [hdistance, div_le_iff₀ (by positivity)]
  generalize (ofUnits neg (N * 2 ^ 149) (10 ^ k)).units * 10 ^ k = rounded at hlow hhigh ⊢
  have hhalf : 2 * |((rounded : ℕ) : ℤ) - (N * 2 ^ 149 : ℕ)| ≤
      (10 ^ k * 2 ^ roundExp (N * 2 ^ 149) (10 ^ k) : ℕ) := by
    rcases abs_cases (((rounded : ℕ) : ℤ) - (N * 2 ^ 149 : ℕ)) with habs | habs <;> omega
  -- to the unit, or to a spacing of at most a `2^23`rd of the number
  rcases Nat.eq_zero_or_pos (roundExp (N * 2 ^ 149) (10 ^ k)) with hzero | hpos
  · refine le_trans ?_ (mul_le_mul_of_nonneg_right (le_max_right _ _) (by positivity))
    rw [hzero, pow_zero, Nat.mul_one] at hhalf
    have hcast : 2 * ((|((rounded : ℕ) : ℤ) - (N * 2 ^ 149 : ℕ)| : ℤ) : ℚ) ≤ 10 ^ k := by
      exact_mod_cast hhalf
    have hright : (1 / 2 ^ 150 * (10 ^ k * 2 ^ 149) : ℚ) = 10 ^ k / 2 := by ring
    rw [hright, le_div_iff₀ two_pos, mul_comm]
    exact hcast
  · refine le_trans ?_ (mul_le_mul_of_nonneg_right (le_max_left _ _) (by positivity))
    have hwide : 10 ^ k * 2 ^ roundExp (N * 2 ^ 149) (10 ^ k) * 2 ^ 23 ≤ N * 2 ^ 149 :=
      calc 10 ^ k * 2 ^ roundExp (N * 2 ^ 149) (10 ^ k) * 2 ^ 23
          = 2 ^ (23 + roundExp (N * 2 ^ 149) (10 ^ k)) * 10 ^ k := by rw [pow_add]; ring
        _ ≤ N * 2 ^ 149 := binade_le hpow hpos
    have hscaled : 2 ^ 24 * |((rounded : ℕ) : ℤ) - (N * 2 ^ 149 : ℕ)| ≤ (N * 2 ^ 149 : ℕ) := by
      omega
    have hcast : 2 ^ 24 * ((|((rounded : ℕ) : ℤ) - (N * 2 ^ 149 : ℕ)| : ℤ) : ℚ) ≤ N * 2 ^ 149 := by
      exact_mod_cast hscaled
    have hmagnitude : |numeralValue neg N k| = N / 10 ^ k := by
      unfold numeralValue
      cases neg with
      | false => rw [if_neg Bool.false_ne_true, abs_of_nonneg (by positivity)]
      | true => rw [if_pos rfl, abs_neg, abs_of_nonneg (by positivity)]
    have hright : (N / 10 ^ k / 2 ^ 24 * (10 ^ k * 2 ^ 149) : ℚ) = N * 2 ^ 149 / 2 ^ 24 := by
      field_simp
    rw [hmagnitude, hright, le_div_iff₀ (by positivity)]
    linarith

/-! ## Printing -/

/-- The hundredths that are printed. -/
def hundredths (x : Binary32) : ℕ := divRoundEven (x.units * 100) (2 ^ 149)

theorem fixed2_of_isFinite {x : Binary32} (h : x.isFinite = true) :
    x.fixed2 = spellHundredths x.neg x.hundredths := by
  rw [isFinite_iff] at h
  unfold fixed2 spellHundredths
  dsimp only
  rw [h.1, h.2, if_neg Bool.false_ne_true, if_neg Bool.false_ne_true]
  cases x.neg with
  | false => simp [hundredths]
  | true => simp [hundredths, String.append_assoc]

/-- A finite datum is printed as a numeral. -/
theorem isNumeral_fixed2 {x : Binary32} (h : x.isFinite = true) :
    IsNumeral (ascii x.fixed2) x.neg x.hundredths 2 := by
  rw [fixed2_of_isFinite h]
  exact isNumeral_spellHundredths x.neg x.hundredths

/-- A datum against hundredths of the same sign. -/
theorem abs_value_sub_hundredths (x : Binary32) (N : ℕ) :
    |x.value - numeralValue x.neg N 2| =
      ((|((x.units * 100 : ℕ) : ℤ) - (N * 2 ^ 149 : ℕ)| : ℤ) : ℚ) / (100 * 2 ^ 149) := by
  rw [abs_value_sub_numeral, show 10 ^ 2 = 100 from rfl, show (10 : ℚ) ^ 2 = 100 by norm_num]

/-- **Half a hundredth.** The printed numeral is at most half a hundredth off. -/
theorem fixed2_near (x : Binary32) :
    |x.value - numeralValue x.neg x.hundredths 2| ≤ 1 / 200 := by
  obtain ⟨hlow, hhigh⟩ := divRoundEven_close (n := x.units * 100) (show 0 < 2 ^ 149 by decide)
  have hclose : 2 * |((x.units * 100 : ℕ) : ℤ) - (x.hundredths * 2 ^ 149 : ℕ)| ≤ 2 ^ 149 := by
    unfold hundredths
    rcases abs_cases
      (((x.units * 100 : ℕ) : ℤ) - (divRoundEven (x.units * 100) (2 ^ 149) * 2 ^ 149 : ℕ))
      with habs | habs <;> omega
  rw [abs_value_sub_hundredths, div_le_div_iff₀ (by positivity) (by norm_num)]
  have hcast : (2 : ℚ) * ((|((x.units * 100 : ℕ) : ℤ) - (x.hundredths * 2 ^ 149 : ℕ)| : ℤ) : ℚ) ≤
      2 ^ 149 := by exact_mod_cast hclose
  linarith

/-- No two-decimal numeral, of either sign, is nearer than the printed one. -/
theorem fixed2_nearest (x : Binary32) (neg : Bool) (N : ℕ) :
    |x.value - numeralValue x.neg x.hundredths 2| ≤ |x.value - numeralValue neg N 2| := by
  have hsign : ∀ M, |x.value - numeralValue x.neg x.hundredths 2| ≤
      |x.value - numeralValue x.neg M 2| := by
    intro M
    rw [abs_value_sub_hundredths, abs_value_sub_hundredths]
    have hnearest := divRoundEven_nearest (n := x.units * 100) (show 0 < 2 ^ 149 by decide) M
    exact div_le_div_of_nonneg_right (by exact_mod_cast hnearest) (by positivity)
  by_cases hneg : neg = x.neg
  · rw [hneg]
    exact hsign N
  · -- with the other sign 0 is as near
    refine (hsign 0).trans ?_
    have hN : (0 : ℚ) ≤ N / 10 ^ 2 := by positivity
    have hu : (0 : ℚ) ≤ x.units / 2 ^ 149 := by positivity
    unfold numeralValue
    cases hx : x.neg with
    | false =>
        have htrue : neg = true := by simpa [hx] using hneg
        rw [value_of_not_neg hx, htrue, if_neg Bool.false_ne_true, if_pos rfl, abs_of_nonneg,
          abs_of_nonneg] <;> simp <;> linarith
    | true =>
        have hfalse : neg = false := by simpa [hx] using hneg
        rw [value_of_neg hx, hfalse, if_neg Bool.false_ne_true, if_pos rfl, abs_of_nonpos,
          abs_of_nonpos] <;> simp <;> linarith

/-! ## Numerals with at most two decimals -/

/-- Where the spacing divides the number, it is a datum. -/
theorem units_exact (neg : Bool) {n : ℕ} (h : (ofUnits neg n 1).isFinite = true)
    (hdvd : 2 ^ roundExp n 1 ∣ n) : (ofUnits neg n 1).units = n := by
  obtain ⟨q, hq⟩ := hdvd
  have hsig : roundSig n 1 = q := by
    unfold roundSig
    rw [Nat.one_mul]
    nth_rewrite 1 [hq]
    rw [Nat.mul_comm]
    exact divRoundEven_mul_self q (by positivity)
  rw [units_ofUnits neg n 1 Nat.one_pos h, hsig, Nat.mul_comm, ← hq]

section OfInt

variable {n : ℕ}

theorem ofInt_natCast (n : ℕ) : ofInt n = ofUnits false (n * 2 ^ 149) 1 := by
  unfold ofInt
  rw [Int.natAbs_natCast, decide_eq_false (by omega)]

theorem isFinite_ofInt (hn : n < 2 ^ 31) : (ofInt n).isFinite = true := by
  rw [ofInt_natCast]
  refine isFinite_ofUnits_of_le false _ 1 Nat.one_pos ?_
  have he : roundExp (n * 2 ^ 149) 1 ≤ 156 := by
    rw [roundExp_le_iff Nat.one_pos]
    calc n * 2 ^ 149 < 2 ^ 31 * 2 ^ 149 := Nat.mul_lt_mul_of_pos_right hn (by positivity)
      _ = 2 ^ (24 + 156) * 1 := by decide
  omega

/-- A `float` that an integer is converted to is an integer. -/
theorem dvd_units_ofInt (hn : n < 2 ^ 31) : 2 ^ 149 ∣ (ofInt n).units := by
  have hfinite := isFinite_ofInt hn
  rw [ofInt_natCast] at hfinite ⊢
  -- up to 1 the spacing divides the integer; above, it is an integer itself
  rcases Nat.le_total (roundExp (n * 2 ^ 149) 1) 149 with hle | hge
  · rw [units_exact false hfinite ((pow_dvd_pow 2 hle).trans (Nat.dvd_mul_left _ n))]
    exact Nat.dvd_mul_left _ n
  · rw [units_ofUnits false _ 1 Nat.one_pos hfinite]
    exact (pow_dvd_pow 2 hge).trans (Nat.dvd_mul_left _ _)

/-- An integer is printed as the nearest one that is a `float`. -/
theorem fixed2_ofInt (hn : n < 2 ^ 31) :
    (ofInt n).fixed2 = toString ((ofInt n).units / 2 ^ 149) ++ ".00" := by
  obtain ⟨w, hw⟩ := dvd_units_ofInt hn
  have hhundredths : (ofInt n).hundredths = w * 100 := by
    unfold hundredths
    rw [hw, show 2 ^ 149 * w * 100 = w * 100 * 2 ^ 149 by ring]
    exact divRoundEven_mul_self _ (by decide)
  have hneg : (ofInt n).neg = false := by rw [ofInt_natCast, neg_ofUnits]
  rw [fixed2_of_isFinite (isFinite_ofInt hn), hhundredths, hneg, hw,
    Nat.mul_div_cancel_left w (by decide)]
  unfold spellHundredths
  rw [Nat.mul_div_cancel w (by decide), show w * 100 % 100 / 10 = 0 by omega,
    show w * 100 % 10 = 0 by omega]
  show "" ++ toString w ++ "." ++ "0" ++ "0" = toString w ++ ".00"
  rw [String.empty_append, String.append_assoc, String.append_assoc]
  rfl

/-- The integers that are data. -/
theorem units_ofInt_eq_iff (hn : n < 2 ^ 31) :
    (ofInt n).units = n * 2 ^ 149 ↔ ∃ m e, m < 2 ^ 24 ∧ n = m * 2 ^ e := by
  have hfinite := isFinite_ofInt hn
  rw [ofInt_natCast] at hfinite ⊢
  constructor
  · intro hunits
    rw [units_ofUnits false _ 1 Nat.one_pos hfinite] at hunits
    have hsig := roundSig_le Nat.one_pos (n := n * 2 ^ 149)
    rcases Nat.lt_or_ge (roundExp (n * 2 ^ 149) 1) 149 with hlt | hge
    · have hsmall := lt_binade Nat.one_pos (n := n * 2 ^ 149)
      have hbound : n * 2 ^ 149 < 2 ^ 24 * 2 ^ 149 :=
        calc n * 2 ^ 149 < 2 ^ (24 + roundExp (n * 2 ^ 149) 1) * 1 := hsmall
          _ ≤ 2 ^ (24 + 149) * 1 := by gcongr; omega
          _ = 2 ^ 24 * 2 ^ 149 := by ring
      exact ⟨n, 0, Nat.lt_of_mul_lt_mul_right hbound, by simp⟩
    · obtain ⟨e, he⟩ := Nat.exists_eq_add_of_le' hge
      have hn' : n = roundSig (n * 2 ^ 149) 1 * 2 ^ e := by
        apply Nat.eq_of_mul_eq_mul_right (show 0 < 2 ^ 149 by positivity)
        calc n * 2 ^ 149 = roundSig (n * 2 ^ 149) 1 * 2 ^ roundExp (n * 2 ^ 149) 1 := hunits.symm
          _ = roundSig (n * 2 ^ 149) 1 * 2 ^ e * 2 ^ 149 := by rw [he, pow_add, Nat.mul_assoc]
      rcases hsig.lt_or_eq with hlt | heq
      · exact ⟨_, e, hlt, hn'⟩
      · -- a significand of 25 bits is one of 24 in the next binade
        refine ⟨2 ^ 23, e + 1, by decide, ?_⟩
        rw [hn', heq]
        ring
  · rintro ⟨m, e, hm, rfl⟩
    refine units_exact false hfinite ?_
    have he : roundExp (m * 2 ^ e * 2 ^ 149) 1 ≤ e + 149 := by
      rw [roundExp_le_iff Nat.one_pos]
      calc m * 2 ^ e * 2 ^ 149 < 2 ^ 24 * 2 ^ e * 2 ^ 149 := by gcongr
        _ = 2 ^ (24 + (e + 149)) * 1 := by ring
    refine (pow_dvd_pow 2 he).trans ⟨m, ?_⟩
    ring

end OfInt

end Binary32

end Lib
