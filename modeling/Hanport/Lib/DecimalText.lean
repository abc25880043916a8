import Hanport.Lib.Binary32Value
import Hanport.Lib.Strtof

/-!
# Decimal numerals in `std::stof`

A text that begins with digits, with or without a point among them, is read as the
decimal numeral of these digits up to the first byte that does not belong to it
(`stof_pointed`, `stof_digits`).
-/

namespace Lib.Strtof

open Ascii Strtol

/-- The number that digits spell. -/
def digitsValue (ds : List Byte) : ℕ := ofDigits 10 (ds.filterMap decDigit?)

/-- The text does not go on with a digit or an exponent mark. -/
def Stops (rest : List Byte) : Prop :=
  ∀ b ∈ rest.head?, isDecDigit b = false ∧ b ≠ 'e'.toUInt8 ∧ b ≠ 'E'.toUInt8

/-- A digit or the point. -/
def InNumeral (b : Byte) : Prop := isDecDigit b = true ∨ b = '.'.toUInt8

/-- An optional sign, and whether it is a minus. -/
inductive IsSign : List Byte → Bool → Prop
  | none : IsSign [] false
  | plus : IsSign ['+'.toUInt8] false
  | minus : IsSign ['-'.toUInt8] true

/-! ## Digits -/

theorem isDecDigit_iff (b : Byte) : isDecDigit b = true ↔ 48 ≤ b.toNat ∧ b.toNat ≤ 57 := by
  have h0 : '0'.toUInt8.toNat = 48 := rfl
  have h9 : '9'.toUInt8.toNat = 57 := rfl
  unfold isDecDigit decDigit?
  simp only [UInt8.le_iff_toNat_le, h0, h9]
  split_ifs <;> simp <;> omega

theorem length_filterMap_decDigit? {ds : List Byte} (h : ∀ b ∈ ds, isDecDigit b = true) :
    (ds.filterMap decDigit?).length = ds.length := by
  rw [List.length_filterMap_eq_countP, List.countP_eq_length]
  exact h

theorem ofDigits_append (base : ℕ) (xs ys : List ℕ) :
    ofDigits base (xs ++ ys) = ofDigits base xs * base ^ ys.length + ofDigits base ys := by
  induction ys using List.reverseRecOn with
  | nil => simp [ofDigits]
  | append_singleton ys d ih =>
      unfold ofDigits at ih ⊢
      rw [← List.append_assoc, List.foldl_concat, ih, List.foldl_concat, List.length_append,
        List.length_singleton, pow_succ]
      ring

/-- Digits in front of others count by a power of ten. -/
theorem digitsValue_append {xs ys : List Byte} (h : ∀ b ∈ ys, isDecDigit b = true) :
    digitsValue (xs ++ ys) = digitsValue xs * 10 ^ ys.length + digitsValue ys := by
  unfold digitsValue
  rw [List.filterMap_append, ofDigits_append, length_filterMap_decDigit? h]

/-! ## The beginning of a numeral -/

/-- A digit or the point is no blank, no sign, no letter. -/
theorem InNumeral.range {b : Byte} (h : InNumeral b) : 46 ≤ b.toNat ∧ b.toNat ≤ 57 := by
  rcases h with hd | rfl
  · rw [isDecDigit_iff] at hd
    omega
  · exact ⟨by decide, by decide⟩

theorem InNumeral.ne {b c : Byte} (h : InNumeral b) (hc : c.toNat < 46 ∨ 57 < c.toNat) : b ≠ c := by
  rintro rfl
  have := h.range
  omega

theorem InNumeral.not_isSpace {b : Byte} (h : InNumeral b) : isSpace b = false := by
  rw [← Bool.not_eq_true, isSpace_iff]
  have := h.range
  omega

theorem sign_numeral {sg : List Byte} {neg : Bool} (hsg : IsSign sg neg) {b : Byte}
    (h : InNumeral b) (t : List Byte) : sign (sg ++ b :: t) = (neg, b :: t) := by
  cases hsg with
  | none =>
      show sign (b :: t) = _
      rw [sign, if_neg (h.ne (.inl (by decide))), if_neg (h.ne (.inl (by decide)))]
  | plus => rfl
  | minus => rfl

/-- A sign and a numeral do not begin with a blank. -/
theorem dropWhile_isSpace_numeral {sg : List Byte} {neg : Bool} (hsg : IsSign sg neg) {b : Byte}
    (h : InNumeral b) (t : List Byte) : (sg ++ b :: t).dropWhile isSpace = sg ++ b :: t := by
  cases hsg with
  | none =>
      show (b :: t).dropWhile isSpace = b :: t
      rw [List.dropWhile_cons_of_neg]
      rw [h.not_isSpace]
      exact Bool.false_ne_true
  | plus => rfl
  | minus => rfl

/-- A word of letters does not begin with a digit or the point. -/
theorem startsWithWord_numeral {b c : Byte} (h : InNumeral b) (hc : 57 < c.toNat)
    (word t : List Byte) : startsWithWord (c :: word) (b :: t) = false := by
  have hcase : ¬ (65 ≤ b ∧ b ≤ 90) := by
    rw [UInt8.le_iff_toNat_le, UInt8.le_iff_toNat_le]
    have h65 : (65 : UInt8).toNat = 65 := rfl
    have := h.range
    omega
  unfold startsWithWord
  rw [List.map_cons, if_neg hcase, List.isPrefixOf_cons_cons, beq_false_of_ne (h.ne (.inr hc)).symm,
    Bool.false_and]

theorem has0xNumeral_numeral {b : Byte} {t : List Byte} (ht : ∀ c ∈ t.head?, InNumeral c) :
    has0xNumeral (b :: t) = false := by
  cases t with
  | nil => rfl
  | cons x t =>
      have hx : InNumeral x := ht x rfl
      simp [has0xNumeral, hx.ne (c := 'x'.toUInt8) (.inr (by decide)),
        hx.ne (c := 'X'.toUInt8) (.inr (by decide))]

/-- A text that begins like a numeral is read as a decimal one. -/
theorem stof_numeral {sg : List Byte} {neg : Bool} (hsg : IsSign sg neg) {b : Byte} {t : List Byte}
    (hb : InNumeral b) (ht : ∀ c ∈ t.head?, InNumeral c) :
    stof (sg ++ b :: t) = decimal neg (b :: t) := by
  have hinf : startsWithWord (ascii "inf") (b :: t) = false :=
    startsWithWord_numeral hb (by decide) _ t
  have hnan : startsWithWord (ascii "nan") (b :: t) = false :=
    startsWithWord_numeral hb (by decide) _ t
  unfold stof
  rw [dropWhile_isSpace_numeral hsg hb, sign_numeral hsg hb]
  simp [hinf, hnan, has0xNumeral_numeral ht]

/-! ## Its digits -/

theorem exponent_stops {rest : List Byte} (h : Stops rest) :
    exponent (fun b => b = 'e'.toUInt8 ∨ b = 'E'.toUInt8) rest = 0 := by
  cases rest with
  | nil => rfl
  | cons m t =>
      obtain ⟨_, he, hE⟩ := h m rfl
      simp [exponent, he, hE]

theorem not_isDecDigit_point : isDecDigit '.'.toUInt8 = false := rfl

theorem mantissa_pointed {whole frac rest : List Byte} (hw : ∀ b ∈ whole, isDecDigit b = true)
    (hf : ∀ b ∈ frac, isDecDigit b = true) (hrest : Stops rest) :
    mantissa isDecDigit (whole ++ '.'.toUInt8 :: (frac ++ rest)) = ⟨whole, frac, rest⟩ := by
  obtain ⟨htake, hdrop⟩ := takeWhile_run (x := '.'.toUInt8 :: (frac ++ rest)) hw (by
    simp [not_isDecDigit_point])
  obtain ⟨htake', hdrop'⟩ := takeWhile_run hf fun b hb => (hrest b hb).1
  unfold mantissa
  rw [hdrop]
  simp [htake, htake', hdrop']

theorem mantissa_digits {ds : List Byte} (hd : ∀ b ∈ ds, isDecDigit b = true) :
    mantissa isDecDigit ds = ⟨ds, [], []⟩ := by
  obtain ⟨htake, hdrop⟩ := takeWhile_run (x := []) hd (by simp)
  rw [List.append_nil] at htake hdrop
  unfold mantissa
  rw [hdrop, htake]

section Spelled

variable {sg : List Byte} {neg : Bool} (hsg : IsSign sg neg)
include hsg

/-- **Digits with a point.** What follows the numeral is ignored. -/
theorem stof_pointed {whole frac rest : List Byte} (hw : ∀ b ∈ whole, isDecDigit b = true)
    (hf : ∀ b ∈ frac, isDecDigit b = true) (hne : frac ≠ []) (hrest : Stops rest) :
    stof (sg ++ (whole ++ '.'.toUInt8 :: (frac ++ rest))) =
      scaled neg (digitsValue (whole ++ frac)) 10 (-(frac.length : ℤ)) := by
  have hpoint : InNumeral '.'.toUInt8 := .inr rfl
  have hstof : stof (sg ++ (whole ++ '.'.toUInt8 :: (frac ++ rest))) =
      decimal neg (whole ++ '.'.toUInt8 :: (frac ++ rest)) := by
    cases whole with
    | nil =>
        obtain ⟨d, frac', rfl⟩ := List.exists_cons_of_ne_nil hne
        refine stof_numeral hsg hpoint fun c hc => ?_
        cases hc
        exact .inl (hf d (by simp))
    | cons b whole =>
        refine stof_numeral hsg (.inl (hw b (by simp))) fun c hc => ?_
        cases whole with
        | nil =>
            cases hc
            exact hpoint
        | cons b' whole =>
            cases hc
            exact .inl (hw c (by simp))
  rw [hstof]
  unfold decimal
  simp only [mantissa_pointed hw hf hrest, exponent_stops hrest, zero_sub]
  rw [if_neg (by simp [hne])]
  rfl

/-- **Digits alone.** -/
theorem stof_digits {ds : List Byte} (hd : ∀ b ∈ ds, isDecDigit b = true) (hne : ds ≠ []) :
    stof (sg ++ ds) = scaled neg (digitsValue ds) 10 0 := by
  have hstof : stof (sg ++ ds) = decimal neg ds := by
    obtain ⟨b, t, rfl⟩ := List.exists_cons_of_ne_nil hne
    refine stof_numeral hsg (.inl (hd b (by simp))) fun c hc => .inl (hd c ?_)
    exact List.mem_cons_of_mem b (List.mem_of_mem_head? hc)
  rw [hstof]
  unfold decimal
  simp only [mantissa_digits hd, List.append_nil]
  rw [if_neg hne]
  rfl

end Spelled

theorem stof_nil : stof [] = none := rfl

/-- A numeral that spells 0 is read as 0. -/
theorem scaled_zero (neg : Bool) (radix : ℕ) (k : ℤ) :
    scaled neg 0 radix k = some (Binary32.ofMagnitude neg 0) := by
  have hfinite : (Binary32.ofMagnitude neg 0).isInf = false := by
    unfold Binary32.isInf
    rw [Binary32.magnitude_ofMagnitude neg (by decide)]
    rfl
  unfold scaled
  simp [Binary32.ofUnits_zero, hfinite]

/-! ## The range of `float` -/

/-- `N / 10^k` is below the middle between the greatest `float` and `2^128`, and it is
normal or exactly a `float`. -/
def InFloatRange (N k : ℕ) : Prop :=
  N < (2 ^ 25 - 1) * 2 ^ 103 * 10 ^ k ∧ (10 ^ k ≤ N * 2 ^ 126 ∨ 10 ^ k ∣ N * 2 ^ 149)

instance (N k : ℕ) : Decidable (InFloatRange N k) := inferInstanceAs (Decidable (_ ∧ _))

theorem isFinite_ofUnits_iff (neg : Bool) (N k : ℕ) :
    (Binary32.ofUnits neg (N * 2 ^ 149) (10 ^ k)).isFinite = true ↔
      N < (2 ^ 25 - 1) * 2 ^ 103 * 10 ^ k := by
  have hleft : 2 * (N * 2 ^ 149) = N * 2 ^ 150 := by ring
  have hright : (2 ^ 25 - 1) * (10 ^ k * 2 ^ 253) = (2 ^ 25 - 1) * 2 ^ 103 * 10 ^ k * 2 ^ 150 := by
    ring
  rw [Binary32.isFinite_ofUnits_iff_lt neg _ _ (by positivity), hleft, hright,
    Nat.mul_lt_mul_right (by positivity)]

theorem isInf_ofUnits_iff (neg : Bool) (N k : ℕ) :
    (Binary32.ofUnits neg (N * 2 ^ 149) (10 ^ k)).isInf = true ↔
      ¬ N < (2 ^ 25 - 1) * 2 ^ 103 * 10 ^ k := by
  have hnan : (Binary32.ofUnits neg (N * 2 ^ 149) (10 ^ k)).isNaN = false := by
    unfold Binary32.isNaN
    rw [Binary32.magnitude_ofUnits, decide_eq_false_iff_not, Nat.not_lt]
    exact Binary32.roundUnits_le _ _
  rw [← isFinite_ofUnits_iff neg, Binary32.isFinite_iff, and_iff_right hnan, Bool.not_eq_false]

theorem inexact_iff (N k : ℕ) :
    (N * 2 ^ 149 / 10 ^ k < 2 ^ 23 ∧ N * 2 ^ 149 % 10 ^ k ≠ 0) ↔
      ¬ (10 ^ k ≤ N * 2 ^ 126 ∨ 10 ^ k ∣ N * 2 ^ 149) := by
  have hscale : N * 2 ^ 149 = 2 ^ 23 * (N * 2 ^ 126) := by ring
  rw [not_or, Nat.div_lt_iff_lt_mul (by positivity), Nat.dvd_iff_mod_eq_zero, Nat.not_le]
  apply and_congr_left
  intro _
  rw [hscale, Nat.mul_lt_mul_left (by decide)]

/-- The conversion of a decimal numeral with `k` digits behind the point. -/
theorem scaled_decimal (neg : Bool) (N k : ℕ) :
    scaled neg N 10 (-(k : ℤ)) =
      if InFloatRange N k then some (Binary32.ofUnits neg (N * 2 ^ 149) (10 ^ k)) else none := by
  have hnum : N * 10 ^ (-(k : ℤ)).toNat * 2 ^ 149 = N * 2 ^ 149 := by
    rw [Int.toNat_of_nonpos (by omega), pow_zero, Nat.mul_one]
  have hden : 10 ^ (- -(k : ℤ)).toNat = 10 ^ k := by
    rw [neg_neg, Int.toNat_natCast]
  unfold scaled
  simp only [hnum, hden, isInf_ofUnits_iff, inexact_iff]
  by_cases hrange : InFloatRange N k
  · rw [if_neg (not_not_intro hrange.1), if_neg (not_not_intro hrange.2), if_pos hrange]
  · rw [if_neg hrange]
    by_cases hlarge : N < (2 ^ 25 - 1) * 2 ^ 103 * 10 ^ k
    · have hinexact : ¬ (10 ^ k ≤ N * 2 ^ 126 ∨ 10 ^ k ∣ N * 2 ^ 149) :=
        fun hexact => hrange ⟨hlarge, hexact⟩
      rw [if_neg (not_not_intro hlarge), if_pos hinexact]
    · rw [if_pos hlarge]

/-- The number of a numeral. -/
def numeralValue (neg : Bool) (N k : ℕ) : ℚ := if neg then -(N / 10 ^ k) else N / 10 ^ k

theorem signed_numeral (neg : Bool) (N k : ℕ) :
    Binary32.signed neg (N * 2 ^ 149) (10 ^ k) = numeralValue neg N k := by
  have hscale : ((N * 2 ^ 149 : ℕ) / (10 ^ k : ℕ) : ℚ) / 2 ^ 149 = N / 10 ^ k := by
    rw [Nat.cast_mul, Nat.cast_pow, Nat.cast_pow, Nat.cast_ofNat, Nat.cast_ofNat, div_right_comm,
      mul_div_cancel_right₀ _ (by positivity)]
  unfold Binary32.signed numeralValue
  cases neg with
  | false => exact hscale
  | true =>
      simp only [if_true]
      rw [neg_div, hscale]

/-- In range the conversion is the nearest `float`. -/
theorem ofUnits_nearest_numeral (neg : Bool) {N k : ℕ} (h : InFloatRange N k) :
    (Binary32.ofUnits neg (N * 2 ^ 149) (10 ^ k)).Nearest (numeralValue neg N k) := by
  have hfinite := (isFinite_ofUnits_iff neg N k).mpr h.1
  rw [← signed_numeral]
  exact Binary32.ofUnits_nearest neg (by positivity) hfinite

/-! ## Numerals as whole texts -/

/-- The text is a decimal numeral: an optional sign, digits, and optionally a point and
digits. `N` is the number that all its digits spell, and `k` of them are behind the
point. -/
inductive IsNumeral : List Byte → Bool → ℕ → ℕ → Prop
  | digits {sg whole : List Byte} {neg : Bool} (hsg : IsSign sg neg)
      (hwhole : ∀ b ∈ whole, isDecDigit b = true) (hne : whole ≠ []) :
      IsNumeral (sg ++ whole) neg (digitsValue whole) 0
  | pointed {sg whole frac : List Byte} {neg : Bool} (hsg : IsSign sg neg)
      (hwhole : ∀ b ∈ whole, isDecDigit b = true) (hne : whole ≠ [])
      (hfrac : ∀ b ∈ frac, isDecDigit b = true) (hne' : frac ≠ []) :
      IsNumeral (sg ++ (whole ++ '.'.toUInt8 :: frac)) neg (digitsValue (whole ++ frac)) frac.length

/-- **A numeral** is rounded once, or out of range. -/
theorem stof_of_isNumeral {text : List Byte} {neg : Bool} {N k : ℕ} (h : IsNumeral text neg N k) :
    stof text =
      if InFloatRange N k then some (Binary32.ofUnits neg (N * 2 ^ 149) (10 ^ k)) else none := by
  rw [← scaled_decimal]
  cases h with
  | digits hsg hwhole hne => exact stof_digits hsg hwhole hne
  | pointed hsg hwhole hne hfrac hne' =>
      have hrest : Stops [] := by simp [Stops]
      have hstof := stof_pointed hsg hwhole hfrac hne' hrest
      rwa [List.append_nil] at hstof

/-- A numeral holds nothing but digits, a sign and the point. -/
theorem IsNumeral.bytes {text : List Byte} {neg : Bool} {N k : ℕ} (h : IsNumeral text neg N k) :
    ∀ b ∈ text, InNumeral b ∨ b = '+'.toUInt8 ∨ b = '-'.toUInt8 := by
  have hsign : ∀ {sg : List Byte} {neg : Bool}, IsSign sg neg →
      ∀ b ∈ sg, b = '+'.toUInt8 ∨ b = '-'.toUInt8 := by
    intro sg neg hsg b hb
    cases hsg with
    | none => cases hb
    | plus => exact .inl (List.mem_singleton.mp hb)
    | minus => exact .inr (List.mem_singleton.mp hb)
  intro b hb
  cases h with
  | digits hsg hwhole hne =>
      rcases List.mem_append.mp hb with hb | hb
      · exact .inr (hsign hsg b hb)
      · exact .inl (.inl (hwhole b hb))
  | pointed hsg hwhole hne hfrac hne' =>
      rcases List.mem_append.mp hb with hb | hb
      · exact .inr (hsign hsg b hb)
      · rcases List.mem_append.mp hb with hb | hb
        · exact .inl (.inl (hwhole b hb))
        · rcases List.mem_cons.mp hb with rfl | hb
          · exact .inl (.inr rfl)
          · exact .inl (.inl (hfrac b hb))

/-! ## Texts that begin with no numeral -/

/-- Behind the blanks and the sign: `inf`, `nan`, a digit, or the point and a digit. -/
def BeginsNumeral (s : List Byte) : Prop :=
  startsWithWord (ascii "inf") s = true ∨ startsWithWord (ascii "nan") s = true ∨
    (∃ b ∈ s.head?, isDecDigit b = true) ∨
    (s.head? = some '.'.toUInt8 ∧ ∃ b ∈ s.tail.head?, isDecDigit b = true)

theorem mantissa_of_not_begins {s : List Byte} (h : ¬ BeginsNumeral s) :
    (mantissa isDecDigit s).whole ++ (mantissa isDecDigit s).fraction = [] := by
  unfold BeginsNumeral at h
  simp only [not_or] at h
  obtain ⟨-, -, hdigit, hpoint⟩ := h
  cases s with
  | nil => rfl
  | cons b s =>
      have hb : ¬ isDecDigit b = true := fun hb => hdigit ⟨b, rfl, hb⟩
      unfold mantissa
      rw [List.dropWhile_cons_of_neg hb, List.takeWhile_cons_of_neg hb]
      dsimp only
      split_ifs with hb'
      · cases s with
        | nil => rfl
        | cons c s =>
            have hc : ¬ isDecDigit c = true := fun hc => hpoint ⟨by rw [hb']; rfl, c, rfl, hc⟩
            exact List.takeWhile_cons_of_neg hc
      · rfl

theorem has0xNumeral_of_not_begins {s : List Byte} (h : ¬ BeginsNumeral s) :
    has0xNumeral s = false := by
  cases s with
  | nil => rfl
  | cons z s =>
      have hz : z ≠ '0'.toUInt8 := by
        rintro rfl
        exact h (.inr (.inr (.inl ⟨_, rfl, rfl⟩)))
      cases s with
      | nil => rfl
      | cons x s => simp [has0xNumeral, hz]

/-- **No numeral.** Such a text is not converted. -/
theorem stof_of_not_begins {str : List Byte}
    (h : ¬ BeginsNumeral (sign (str.dropWhile isSpace)).2) : stof str = none := by
  have hinf := h
  have h0x := has0xNumeral_of_not_begins h
  have hnone := mantissa_of_not_begins h
  unfold BeginsNumeral at hinf
  simp only [not_or, Bool.not_eq_true] at hinf
  unfold stof decimal
  simp only [hinf.1, hinf.2.1, h0x, hnone, Bool.false_eq_true, if_false, if_true]

end Lib.Strtof
