import Hanport.Lib.Binary32

/-!
# Rounding to binary32

What `divRoundEven` and `roundUnits` do, as exact statements about naturals:

* **ties**: a quotient is rounded to at most `q` iff it is below `q + 1/2`, or
  there with `q` even (`divRoundEven_le_iff`);
* **decoding**: the magnitude bits of a rounded quotient stand for its rounded
  significand times a power of two (`units_ofUnits`);
* **thresholds**: a quotient is rounded to at most a datum `q * 2^e` iff it is
  below the middle to the next datum, or there with `q` even (`rounded_le_iff`).
-/

namespace Lib.Binary32

/-! ## Quotients -/

theorem divRoundEven_le_iff {n d : ℕ} (hd : 0 < d) (q : ℕ) :
    divRoundEven n d ≤ q ↔ 2 * n < (2 * q + 1) * d ∨ (2 * n = (2 * q + 1) * d ∧ q % 2 = 0) := by
  have hn := Nat.div_add_mod n d
  have hmod := Nat.mod_lt n hd
  set a := n / d with ha
  set b := n % d with hb
  have hexpand : (2 * q + 1) * d = 2 * (d * q) + d := by ring
  have hround : divRoundEven n d = if 2 * b < d ∨ (2 * b = d ∧ a % 2 = 0) then a else a + 1 := rfl
  rw [hround, hexpand]
  rcases Nat.lt_trichotomy a q with hlt | heq | hgt
  · have hle : d * (a + 1) ≤ d * q := Nat.mul_le_mul_left d hlt
    rw [Nat.mul_add, Nat.mul_one] at hle
    constructor
    · intro _
      left
      omega
    · intro _
      split <;> omega
  · subst heq
    split <;> omega
  · have hle : d * (q + 1) ≤ d * a := Nat.mul_le_mul_left d hgt
    rw [Nat.mul_add, Nat.mul_one] at hle
    constructor
    · intro h
      split at h <;> omega
    · intro h
      omega

/-- A common factor does not matter. -/
theorem divRoundEven_mul_right (n d : ℕ) {k : ℕ} (hk : 0 < k) :
    divRoundEven (n * k) (d * k) = divRoundEven n d := by
  unfold divRoundEven
  have hlt : 2 * (n % d * k) < d * k ↔ 2 * (n % d) < d := by
    rw [← Nat.mul_assoc]
    exact Nat.mul_lt_mul_right hk
  have heq : 2 * (n % d * k) = d * k ↔ 2 * (n % d) = d := by
    rw [← Nat.mul_assoc]
    exact Nat.mul_left_inj (Nat.ne_of_gt hk)
  rw [Nat.mul_mod_mul_right, Nat.mul_div_mul_right n d hk]
  simp only [hlt, heq]

/-! ## Significand and exponent -/

/-- The exponent of the binade of `n / d`. -/
def roundExp (n d : ℕ) : ℕ := Nat.log2 (n / d) - 23

/-- The rounded significand of `n / d`. -/
def roundSig (n d : ℕ) : ℕ := divRoundEven n (d * 2 ^ roundExp n d)

theorem roundUnits_eq (n d : ℕ) :
    roundUnits n d = min infMagnitude (roundExp n d * 2 ^ 23 + roundSig n d) := rfl

theorem roundUnits_le (n d : ℕ) : roundUnits n d ≤ infMagnitude := Nat.min_le_left _ _

section Binade

variable {n d : ℕ} (hd : 0 < d)
include hd

/-- `n / d` is below the end of its binade. -/
theorem lt_binade : n < 2 ^ (24 + roundExp n d) * d := by
  rw [← Nat.div_lt_iff_lt_mul hd]
  refine lt_of_lt_of_le Nat.lt_log2_self (Nat.pow_le_pow_right (by decide) ?_)
  unfold roundExp
  omega

/-- Above the least binade, `n / d` is not below the start of its binade. -/
theorem binade_le (he : 0 < roundExp n d) : 2 ^ (23 + roundExp n d) * d ≤ n := by
  rw [← Nat.le_div_iff_mul_le hd]
  have hlog : 23 + roundExp n d = Nat.log2 (n / d) := by
    unfold roundExp at he ⊢
    omega
  have hne : n / d ≠ 0 := by
    intro h
    unfold roundExp at he
    rw [h] at he
    exact absurd he (by decide)
  rw [hlog]
  exact Nat.log2_self_le hne

theorem roundExp_le_iff (e : ℕ) : roundExp n d ≤ e ↔ n < 2 ^ (24 + e) * d := by
  constructor
  · intro h
    refine (lt_binade hd).trans_le (Nat.mul_le_mul_right d (Nat.pow_le_pow_right (by decide) ?_))
    omega
  · intro h
    by_contra hgt
    have hle := binade_le hd (n := n) (by omega)
    have hpow : 2 ^ (24 + e) * d ≤ 2 ^ (23 + roundExp n d) * d :=
      Nat.mul_le_mul_right d (Nat.pow_le_pow_right (by decide) (by omega))
    omega

theorem roundSig_le : roundSig n d ≤ 2 ^ 24 := by
  have hpos : 0 < d * 2 ^ roundExp n d := by positivity
  unfold roundSig
  rw [divRoundEven_le_iff hpos]
  left
  have hlt := lt_binade hd (n := n)
  rw [pow_add] at hlt
  have hexpand : (2 * 2 ^ 24 + 1) * (d * 2 ^ roundExp n d) =
      2 * (2 ^ 24 * 2 ^ roundExp n d * d) + d * 2 ^ roundExp n d := by ring
  omega

theorem le_roundSig (he : 0 < roundExp n d) : 2 ^ 23 ≤ roundSig n d := by
  have hpos : 0 < d * 2 ^ roundExp n d := by positivity
  have hbinade := binade_le hd he (n := n)
  rw [pow_add] at hbinade
  -- the quotient is less than half a unit above the rounded significand
  have hhalf := (divRoundEven_le_iff hpos (roundSig n d)).mp (Nat.le_refl _)
  by_contra hlt
  have hle : (roundSig n d + 1) * (d * 2 ^ roundExp n d) ≤ 2 ^ 23 * (d * 2 ^ roundExp n d) :=
    Nat.mul_le_mul_right _ (by omega)
  have hexpand : (2 * roundSig n d + 1) * (d * 2 ^ roundExp n d) + d * 2 ^ roundExp n d =
      2 * ((roundSig n d + 1) * (d * 2 ^ roundExp n d)) := by ring
  have hstart : 2 ^ 23 * 2 ^ roundExp n d * d = 2 ^ 23 * (d * 2 ^ roundExp n d) := by ring
  omega

/-- In a lower binade a quotient is rounded to the start of the binade `e` at most. -/
theorem rounded_le_of_lt {e : ℕ} (he : roundExp n d < e) :
    roundSig n d * 2 ^ roundExp n d ≤ 2 ^ 23 * 2 ^ e := by
  calc roundSig n d * 2 ^ roundExp n d
      ≤ 2 ^ 24 * 2 ^ (e - 1) :=
        Nat.mul_le_mul (roundSig_le hd) (Nat.pow_le_pow_right (by decide) (by omega))
    _ = 2 ^ 23 * 2 ^ e := by
        rw [← pow_add, ← pow_add]
        congr 1
        omega

/-- In a higher binade it is rounded to the end of the binade `e` at least. -/
theorem le_rounded_of_gt {e : ℕ} (he : e < roundExp n d) :
    2 ^ 24 * 2 ^ e ≤ roundSig n d * 2 ^ roundExp n d := by
  calc 2 ^ 24 * 2 ^ e = 2 ^ 23 * 2 ^ (e + 1) := by ring
    _ ≤ roundSig n d * 2 ^ roundExp n d :=
        Nat.mul_le_mul (le_roundSig hd (by omega)) (Nat.pow_le_pow_right (by decide) he)

end Binade

/-! ## Thresholds -/

section Threshold

variable {n d q e : ℕ} (hd : 0 < d) (hq : 2 ^ 23 ≤ q) (hq' : q < 2 ^ 24)
include hd hq hq'

/-- A rounded quotient is at most the datum `q * 2^e` iff the quotient is below
the middle to the next datum, or there with `q` even. -/
theorem rounded_le_iff :
    roundSig n d * 2 ^ roundExp n d ≤ q * 2 ^ e ↔
      2 * n < (2 * q + 1) * (d * 2 ^ e) ∨ (2 * n = (2 * q + 1) * (d * 2 ^ e) ∧ q % 2 = 0) := by
  have hpow : 0 < 2 ^ e := by positivity
  rcases Nat.lt_trichotomy (roundExp n d) e with hlt | heq | hgt
  · have hround := rounded_le_of_lt hd hlt
    have hdatum : 2 ^ 23 * 2 ^ e ≤ q * 2 ^ e := Nat.mul_le_mul_right _ hq
    have hn : n < 2 ^ (24 + (e - 1)) * d := (roundExp_le_iff hd (e - 1)).mp (by omega)
    have hbelow : 2 ^ (24 + (e - 1)) * d ≤ q * (d * 2 ^ e) := by
      rw [show 24 + (e - 1) = 23 + e by omega, pow_add]
      calc 2 ^ 23 * 2 ^ e * d ≤ q * 2 ^ e * d := Nat.mul_le_mul_right d hdatum
        _ = q * (d * 2 ^ e) := by ring
    have hexpand : (2 * q + 1) * (d * 2 ^ e) = 2 * (q * (d * 2 ^ e)) + d * 2 ^ e := by ring
    have hdpos : 0 < d * 2 ^ e := by positivity
    constructor
    · intro _
      left
      omega
    · intro _
      omega
  · -- in the same binade the significands are compared
    rw [← heq, Nat.mul_le_mul_right_iff (by positivity)]
    exact divRoundEven_le_iff (by positivity) q
  · have hround := le_rounded_of_gt hd hgt
    have hdatum : (q + 1) * 2 ^ e ≤ 2 ^ 24 * 2 ^ e := Nat.mul_le_mul_right _ hq'
    have hn := (roundExp_le_iff hd (n := n) e).not.mp (by omega)
    have hbehind : (q + 1) * (d * 2 ^ e) ≤ 2 ^ (24 + e) * d := by
      rw [pow_add]
      calc (q + 1) * (d * 2 ^ e) = (q + 1) * 2 ^ e * d := by ring
        _ ≤ 2 ^ 24 * 2 ^ e * d := Nat.mul_le_mul_right d hdatum
    have hsucc : (q + 1) * 2 ^ e = q * 2 ^ e + 2 ^ e := by ring
    have hexpand : (2 * q + 1) * (d * 2 ^ e) + d * 2 ^ e = 2 * ((q + 1) * (d * 2 ^ e)) := by ring
    have hdpos : 0 < d * 2 ^ e := by positivity
    constructor
    · intro h
      omega
    · intro h
      omega

/-- No rounded quotient lies strictly between a datum and the next one. -/
theorem rounded_lt_succ_iff :
    roundSig n d * 2 ^ roundExp n d < (q + 1) * 2 ^ e ↔
      roundSig n d * 2 ^ roundExp n d ≤ q * 2 ^ e := by
  have hpow : 0 < 2 ^ e := by positivity
  have hsucc : (q + 1) * 2 ^ e = q * 2 ^ e + 2 ^ e := by ring
  constructor
  · intro h
    rcases Nat.lt_trichotomy (roundExp n d) e with hlt | heq | hgt
    · exact (rounded_le_of_lt hd hlt).trans (Nat.mul_le_mul_right _ hq)
    · rw [heq] at h ⊢
      exact Nat.mul_le_mul_right _ (Nat.lt_succ_iff.mp (Nat.lt_of_mul_lt_mul_right h))
    · have hround := le_rounded_of_gt hd hgt
      have hdatum : (q + 1) * 2 ^ e ≤ 2 ^ 24 * 2 ^ e := Nat.mul_le_mul_right _ hq'
      omega
  · intro h
    omega

end Threshold

/-! ## Data -/

theorem isFinite_iff (x : Binary32) :
    x.isFinite = true ↔ x.isNaN = false ∧ x.isInf = false := by
  unfold isFinite isNaN isInf
  simp only [decide_eq_true_iff, decide_eq_false_iff_not]
  omega

theorem magnitude_ofMagnitude (neg : Bool) {m : ℕ} (hm : m < 2 ^ 31) :
    (ofMagnitude neg m).magnitude = m := by
  unfold magnitude ofMagnitude
  cases neg <;> simp <;> omega

theorem neg_ofMagnitude (neg : Bool) {m : ℕ} (hm : m < 2 ^ 31) :
    (ofMagnitude neg m).neg = neg := by
  unfold Binary32.neg ofMagnitude
  rw [BitVec.msb_eq_decide]
  cases neg <;> simp <;> omega

theorem infMagnitude_lt : infMagnitude < 2 ^ 31 := by decide

section OfUnits

variable (neg : Bool) (n d : ℕ)

theorem magnitude_ofUnits : (ofUnits neg n d).magnitude = roundUnits n d :=
  magnitude_ofMagnitude neg ((roundUnits_le n d).trans_lt infMagnitude_lt)

theorem neg_ofUnits : (ofUnits neg n d).neg = neg :=
  neg_ofMagnitude neg ((roundUnits_le n d).trans_lt infMagnitude_lt)

theorem isFinite_ofUnits_iff :
    (ofUnits neg n d).isFinite = true ↔ roundExp n d * 2 ^ 23 + roundSig n d < infMagnitude := by
  unfold isFinite
  rw [magnitude_ofUnits, roundUnits_eq, decide_eq_true_iff]
  omega

/-- Below the last binade nothing is rounded to infinity. -/
theorem isFinite_ofUnits_of_le (hd : 0 < d) (he : roundExp n d ≤ 252) :
    (ofUnits neg n d).isFinite = true := by
  rw [isFinite_ofUnits_iff]
  have hsig := roundSig_le hd (n := n)
  unfold infMagnitude
  omega

/-- The quotients that are rounded to infinity begin in the middle between the greatest
datum and the next power of two. -/
theorem isFinite_ofUnits_iff_lt (hd : 0 < d) :
    (ofUnits neg n d).isFinite = true ↔ 2 * n < (2 ^ 25 - 1) * (d * 2 ^ 253) := by
  have hodd : ¬ (2 ^ 24 - 1) % 2 = 0 := by decide
  have hround := rounded_le_iff hd (q := 2 ^ 24 - 1) (e := 253) (n := n) (by decide) (by decide)
  have htwice : 2 * (2 ^ 24 - 1) + 1 = 2 ^ 25 - 1 := rfl
  rw [htwice] at hround
  simp only [hodd, and_false, or_false] at hround
  rw [← hround, isFinite_ofUnits_iff]
  have hsig := roundSig_le hd (n := n)
  rcases Nat.lt_trichotomy (roundExp n d) 253 with hlt | heq | hgt
  · have hle := rounded_le_of_lt hd hlt
    have hdatum : 2 ^ 23 * 2 ^ 253 ≤ (2 ^ 24 - 1) * 2 ^ 253 := Nat.mul_le_mul_right _ (by decide)
    unfold infMagnitude
    exact iff_of_true (by omega) (hle.trans hdatum)
  · rw [heq, Nat.mul_le_mul_right_iff (by positivity)]
    unfold infMagnitude
    omega
  · have hle := le_rounded_of_gt hd hgt
    have hsig' := le_roundSig hd (n := n) (by omega)
    have hdatum : (2 ^ 24 - 1) * 2 ^ 253 < 2 ^ 24 * 2 ^ 253 :=
      Nat.mul_lt_mul_of_pos_right (by decide) (by positivity)
    unfold infMagnitude
    exact iff_of_false (by omega) (Nat.not_le_of_lt (hdatum.trans_le hle))

/-- **The rounded quotient, decoded.** -/
theorem units_ofUnits (hd : 0 < d) (h : (ofUnits neg n d).isFinite = true) :
    (ofUnits neg n d).units = roundSig n d * 2 ^ roundExp n d := by
  rw [isFinite_ofUnits_iff] at h
  have hmag : (ofUnits neg n d).magnitude = roundExp n d * 2 ^ 23 + roundSig n d := by
    rw [magnitude_ofUnits, roundUnits_eq]
    omega
  have hsig := roundSig_le hd (n := n)
  unfold units exponent fraction
  rw [hmag]
  by_cases hfull : roundSig n d = 2 ^ 24
  · -- the carry moves to the next binade
    have hdiv : (roundExp n d * 2 ^ 23 + 2 ^ 24) / 2 ^ 23 = roundExp n d + 2 := by omega
    have hmod : (roundExp n d * 2 ^ 23 + 2 ^ 24) % 2 ^ 23 = 0 := by omega
    rw [hfull, hdiv, hmod, if_neg (by omega), Nat.add_zero]
    have hexp : roundExp n d + 2 - 1 = 1 + roundExp n d := by omega
    rw [hexp, pow_add]
    ring
  · by_cases hsmall : roundSig n d < 2 ^ 23
    · have he : roundExp n d = 0 := by
        by_contra hne
        have := le_roundSig hd (n := n) (Nat.pos_of_ne_zero hne)
        omega
      have hdiv : roundSig n d / 2 ^ 23 = 0 := by omega
      have hmod : roundSig n d % 2 ^ 23 = roundSig n d := by omega
      rw [he, Nat.zero_mul, Nat.zero_add, hdiv, if_pos rfl, hmod, pow_zero, Nat.mul_one]
    · have hdiv : (roundExp n d * 2 ^ 23 + roundSig n d) / 2 ^ 23 = roundExp n d + 1 := by omega
      have hmod : (roundExp n d * 2 ^ 23 + roundSig n d) % 2 ^ 23 = roundSig n d - 2 ^ 23 := by
        omega
      rw [hdiv, hmod, if_neg (by omega), Nat.add_sub_cancel, Nat.add_sub_cancel' (by omega)]

end OfUnits

/-- A common factor of numerator and denominator does not matter. -/
theorem ofUnits_mul_right (neg : Bool) (n d : ℕ) {k : ℕ} (hk : 0 < k) :
    ofUnits neg (n * k) (d * k) = ofUnits neg n d := by
  have hdiv : n * k / (d * k) = n / d := Nat.mul_div_mul_right n d hk
  have hsig : ∀ e, divRoundEven (n * k) (d * k * 2 ^ e) = divRoundEven n (d * 2 ^ e) := by
    intro e
    rw [Nat.mul_right_comm]
    exact divRoundEven_mul_right n (d * 2 ^ e) hk
  unfold ofUnits roundUnits
  rw [hdiv, hsig]

theorem divRoundEven_zero (d : ℕ) : divRoundEven 0 d = 0 := by
  unfold divRoundEven
  rw [Nat.zero_mod, Nat.zero_div]
  by_cases hd : 0 < d
  · rw [if_pos (.inl (by omega))]
  · rw [if_pos (.inr ⟨by omega, rfl⟩)]

theorem ofUnits_zero (neg : Bool) (d : ℕ) : ofUnits neg 0 d = ofMagnitude neg 0 := by
  unfold ofUnits roundUnits
  rw [Nat.zero_div, divRoundEven_zero]
  rfl

end Lib.Binary32
