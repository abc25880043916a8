import Hanport.Lib.Binary32Value
import Hanport.Logic.Thousandfold

/-!
# When the cast of a thousandfold is defined

`static_cast<int>(d.f * 1000)` is defined when the rounded product is finite and its
integer part fits an `int`. The last datum whose product is rounded to less than
`2^31` is 2147483.5, and the last one whose product is rounded to more than
`-2^31 - 1` is -2147483.75 (`castDefined_iff`): the middle between two products
decides, and the data there are a quarter apart.
-/

namespace Hanport.HpModbuss

open Lib Lib.Binary32

/-- The thousandfold is a finite number whose integer part fits an `int`. -/
structure CastDefined (x : Binary32) : Prop where
  finite : (x * ofInt 1000).isFinite = true
  lower : -2 ^ 31 - 1 < (x * ofInt 1000).value
  upper : (x * ofInt 1000).value < 2 ^ 31

/-- A finite number from -2147483.75 to 2147483.5. -/
structure InCastRange (x : Binary32) : Prop where
  finite : x.isFinite = true
  lower : -2147483.75 ≤ x.value
  upper : x.value ≤ 2147483.5

/-! ## The product -/

theorem neg_product {x : Binary32} (hx : x.isFinite = true) : (x * ofInt 1000).neg = x.neg := by
  rw [mul_thousand hx, neg_ofUnits]

/-- The finite data whose product is below a bound `V`, which lies behind the datum
`q * 2^(147+t)` and not behind the next one: those up to `m * 2^147`. -/
theorem product_units_lt_iff {x : Binary32} (hx : x.isFinite = true)
    (hp : (x * ofInt 1000).isFinite = true) {q t m V : ℕ} (hq : 2 ^ 23 ≤ q) (hq' : q < 2 ^ 24)
    (hV : q * 2 ^ (147 + t) < V) (hV' : V ≤ (q + 1) * 2 ^ (147 + t)) (hm : 2 ^ 23 ≤ m)
    (hlow : m * 2000 < (2 * q + 1) * 2 ^ t) (hhigh : (2 * q + 1) * 2 ^ t < (m + 1) * 2000) :
    (x * ofInt 1000).units < V ↔ x.units ≤ m * 2 ^ 147 := by
  have hgrid : 2 ^ 23 * 2 ^ 147 ≤ x.units → 2 ^ 147 ∣ x.units := by
    intro h
    rw [← pow_add] at h
    exact dvd_units h
  obtain ⟨hmiddle, hne⟩ := grid_threshold (by positivity) hgrid hm hlow hhigh
  have hdouble : 2 * (x.units * 1000) = x.units * 2000 := by ring
  have hbound : (2 * q + 1) * (1 * 2 ^ (147 + t)) = (2 * q + 1) * 2 ^ t * 2 ^ 147 := by
    rw [Nat.one_mul, pow_add]
    ring
  have hle : (x * ofInt 1000).units ≤ q * 2 ^ (147 + t) ↔ x.units ≤ m * 2 ^ 147 := by
    rw [mul_thousand hx] at hp ⊢
    rw [units_ofUnits _ _ _ Nat.one_pos hp, rounded_le_iff Nat.one_pos hq hq', hdouble, hbound,
      hmiddle, or_iff_left fun h => hne h.1]
  -- no product lies between the datum and the next one
  have hgap : (x * ofInt 1000).units < (q + 1) * 2 ^ (147 + t) ↔
      (x * ofInt 1000).units ≤ q * 2 ^ (147 + t) := by
    rw [mul_thousand hx] at hp ⊢
    rw [units_ofUnits _ _ _ Nat.one_pos hp]
    exact rounded_lt_succ_iff Nat.one_pos hq hq'
  rw [← hle]
  constructor
  · intro h
    exact hgap.mp (h.trans_le hV')
  · intro h
    exact h.trans_lt hV

/-- Far below the largest datum the product is finite. -/
theorem isFinite_product {x : Binary32} (hx : x.isFinite = true)
    (h : x.units ≤ 8589935 * 2 ^ 147) : (x * ofInt 1000).isFinite = true := by
  have hlt : x.units * 1000 < 2 ^ (24 + 157) * 1 := by
    calc x.units * 1000 ≤ 8589935 * 2 ^ 147 * 1000 := Nat.mul_le_mul_right 1000 h
      _ < 2 ^ (24 + 157) * 1 := by norm_num
  have hexp := (roundExp_le_iff Nat.one_pos 157).mpr hlt
  rw [mul_thousand hx]
  exact isFinite_ofUnits_of_le _ _ _ Nat.one_pos (hexp.trans (by decide))

/-- The product is below `2^31` iff it is rounded to `(2^24 - 1) * 2^7` at most. -/
theorem product_lt_iff {x : Binary32} (hx : x.isFinite = true)
    (hp : (x * ofInt 1000).isFinite = true) :
    (x * ofInt 1000).units < 2 ^ 31 * 2 ^ 149 ↔ x.units ≤ 8589934 * 2 ^ 147 :=
  product_units_lt_iff hx hp (q := 2 ^ 24 - 1) (t := 9) (by decide) (by decide) (by decide)
    (by decide) (by decide) (by decide) (by decide)

/-- It is below `2^31 + 1` iff it is rounded to `2^31` at most. -/
theorem product_lt_succ_iff {x : Binary32} (hx : x.isFinite = true)
    (hp : (x * ofInt 1000).isFinite = true) :
    (x * ofInt 1000).units < (2 ^ 31 + 1) * 2 ^ 149 ↔ x.units ≤ 8589935 * 2 ^ 147 :=
  product_units_lt_iff hx hp (q := 2 ^ 23) (t := 10) (by decide) (by decide) (by decide)
    (by decide) (by decide) (by decide) (by decide)

/-! ## The range -/

section Finite

variable {x : Binary32} (hx : x.isFinite = true)
include hx

/-- The bounds on the product, in units: the upper one for a datum that is not
negative, the lower one for a negative one. -/
theorem castDefined_units_iff :
    CastDefined x ↔ (x * ofInt 1000).isFinite = true ∧
      (x * ofInt 1000).units < (if x.neg then 2 ^ 31 + 1 else 2 ^ 31) * 2 ^ 149 := by
  have hnonneg : (0 : ℚ) ≤ ((x * ofInt 1000).units : ℚ) / 2 ^ 149 := by positivity
  have hneg := neg_product hx
  rw [← units_lt_iff]
  cases hsign : x.neg with
  | false =>
      rw [hsign] at hneg
      simp only [Bool.false_eq_true, if_false, Nat.cast_pow, Nat.cast_ofNat]
      rw [← value_of_not_neg hneg] at hnonneg ⊢
      constructor
      · intro h
        exact ⟨h.finite, h.upper⟩
      · intro h
        exact ⟨h.1, by linarith, h.2⟩
  | true =>
      rw [hsign] at hneg
      have hvalue := value_of_neg hneg
      simp only [if_true, Nat.cast_pow, Nat.cast_ofNat, Nat.cast_add, Nat.cast_one]
      constructor
      · intro h
        have hlower := h.lower
        exact ⟨h.finite, by linarith⟩
      · rintro ⟨hp, hlt⟩
        exact ⟨hp, by linarith, by linarith⟩

end Finite

theorem inCastRange_units_iff {x : Binary32} :
    InCastRange x ↔ x.isFinite = true ∧
      x.units ≤ (if x.neg then 8589935 else 8589934) * 2 ^ 147 := by
  have hnonneg : (0 : ℚ) ≤ (x.units : ℚ) / 2 ^ 149 := by positivity
  rw [← units_le_quarters_iff]
  cases hsign : x.neg with
  | false =>
      have hvalue := value_of_not_neg hsign
      simp only [Bool.false_eq_true, if_false, Nat.cast_ofNat]
      constructor
      · intro h
        have hupper := h.upper
        exact ⟨h.finite, by linarith⟩
      · rintro ⟨hfinite, hle⟩
        exact ⟨hfinite, by linarith, by linarith⟩
  | true =>
      have hvalue := value_of_neg hsign
      simp only [if_true, Nat.cast_ofNat]
      constructor
      · intro h
        have hlower := h.lower
        exact ⟨h.finite, by linarith⟩
      · rintro ⟨hfinite, hle⟩
        exact ⟨hfinite, by linarith, by linarith⟩

/-- **The range of the cast.** -/
theorem castDefined_iff (x : Binary32) : CastDefined x ↔ InCastRange x := by
  rw [inCastRange_units_iff]
  by_cases hx : x.isFinite = true
  · rw [castDefined_units_iff hx]
    constructor
    · intro h
      obtain ⟨hp, hlt⟩ := h
      refine ⟨hx, ?_⟩
      cases hsign : x.neg with
      | false =>
          rw [hsign, if_neg Bool.false_ne_true] at hlt
          exact (product_lt_iff hx hp).mp hlt
      | true =>
          rw [hsign, if_pos rfl] at hlt
          exact (product_lt_succ_iff hx hp).mp hlt
    · intro h
      obtain ⟨-, hle⟩ := h
      have hmax : x.units ≤ 8589935 * 2 ^ 147 :=
        hle.trans (Nat.mul_le_mul_right _ (by split <;> decide))
      have hp := isFinite_product hx hmax
      refine ⟨hp, ?_⟩
      cases hsign : x.neg with
      | false =>
          rw [hsign, if_neg Bool.false_ne_true] at hle
          exact (product_lt_iff hx hp).mpr hle
      | true => exact (product_lt_succ_iff hx hp).mpr hmax
  · constructor
    · intro h
      have hnot := not_isFinite_mul_thousand (Bool.eq_false_of_not_eq_true hx)
      rw [h.finite] at hnot
      cases hnot
    · intro h
      exact absurd h.1 hx

/-! ## The value of the cast -/

/-- The integer part of a number in the range fits an `int`. -/
theorem inInt_of_truncates {q : ℚ} {n : ℤ} (h : Truncates q n) (hlower : -2 ^ 31 - 1 < q)
    (hupper : q < 2 ^ 31) : Strtol.InInt n := by
  obtain ⟨hsign, hle, -⟩ := h
  have hbound : -(2 ^ 31 + 1 : ℚ) < n ∧ (n : ℚ) < 2 ^ 31 := by
    rcases le_total 0 q with hq | hq
    · rw [abs_of_nonneg hq, abs_le] at hle
      exact ⟨by linarith, by linarith⟩
    · rw [abs_of_nonpos hq, abs_le] at hle
      rcases lt_or_ge (n : ℚ) (2 ^ 31) with hn | hn
      · exact ⟨by linarith, hn⟩
      · -- a positive integer part has a positive number
        have hq0 : q = 0 := by nlinarith
        rw [hq0] at hle
        exact ⟨by linarith, by linarith⟩
  obtain ⟨hl, hu⟩ := hbound
  have hl' : -(2 ^ 31 + 1) < n := by exact_mod_cast hl
  have hu' : n < 2 ^ 31 := by exact_mod_cast hu
  exact ⟨by omega, hu'⟩

/-- A defined cast is the thousandfold without its fraction. -/
theorem truncates_thousandfold (wild : Binary32 → BitVec 32) {x : Binary32} (h : CastDefined x) :
    Truncates (x * ofInt 1000).value (thousandfold wild x).toInt := by
  obtain ⟨n, hn, htrunc⟩ := exists_trunc h.finite
  rw [thousandfold_toInt wild hn (inInt_of_truncates htrunc h.lower h.upper)]
  exact htrunc

end Hanport.HpModbuss
