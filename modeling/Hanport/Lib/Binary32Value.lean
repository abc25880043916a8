import Hanport.Lib.Binary32Rounding

/-!
# The numbers that binary32 data stand for

A finite datum is a rational number, its signed magnitude in units of `2^-149`
(`value`). From `2^(23+k)` units on the magnitudes are multiples of `2^k` units
(`dvd_units`), so a bound between two of them can be moved to the lower one
(`grid_threshold`). The rounding finds a nearest datum (`value_nearest`). The
conversion to an integer cuts the fraction off and keeps the sign (`exists_trunc`).
-/

namespace Lib.Binary32

/-- The number that a finite datum stands for. -/
def value (x : Binary32) : ℚ := (if x.neg then -(x.units : ℚ) else x.units) / 2 ^ 149

/-- `n` is `q` without its fraction. -/
structure Truncates (q : ℚ) (n : ℤ) : Prop where
  sign : 0 ≤ n * q
  le : |(n : ℚ)| ≤ |q|
  lt : |q| < |(n : ℚ)| + 1

/-- The datum is finite, and no finite one is nearer to the number. -/
def Nearest (x : Binary32) (q : ℚ) : Prop :=
  x.isFinite = true ∧ ∀ y : Binary32, y.isFinite = true → |x.value - q| ≤ |y.value - q|

theorem value_of_not_neg {x : Binary32} (h : x.neg = false) :
    x.value = (x.units : ℚ) / 2 ^ 149 := by
  unfold value
  rw [h, if_neg Bool.false_ne_true]

theorem value_of_neg {x : Binary32} (h : x.neg = true) :
    x.value = -((x.units : ℚ) / 2 ^ 149) := by
  unfold value
  rw [h, if_pos rfl, neg_div]

/-! ## Comparisons -/

theorem units_lt_iff (n m : ℕ) : (n : ℚ) / 2 ^ 149 < m ↔ n < m * 2 ^ 149 := by
  rw [div_lt_iff₀ (by positivity)]
  exact_mod_cast Iff.rfl

theorem units_le_quarters_iff (n m : ℕ) : (n : ℚ) / 2 ^ 149 ≤ m / 4 ↔ n ≤ m * 2 ^ 147 := by
  have hquarter : (m : ℚ) / 4 = m * 2 ^ 147 / 2 ^ 149 := by
    rw [div_eq_div_iff (by norm_num) (by positivity)]
    ring
  rw [hquarter, div_le_div_iff_of_pos_right (by positivity)]
  exact_mod_cast Iff.rfl

/-! ## The grid -/

theorem dvd_units {x : Binary32} {k : ℕ} (h : 2 ^ (23 + k) ≤ x.units) : 2 ^ k ∣ x.units := by
  have hfraction : x.fraction < 2 ^ 23 := Nat.mod_lt _ (by decide)
  have hstart : 2 ^ 23 ≤ 2 ^ (23 + k) := Nat.pow_le_pow_right (by decide) (by omega)
  unfold units at h ⊢
  by_cases he : x.exponent = 0
  · rw [if_pos he] at h
    omega
  · rw [if_neg he] at h ⊢
    have hlt : (2 ^ 23 + x.fraction) * 2 ^ (x.exponent - 1) < 2 ^ 24 * 2 ^ (x.exponent - 1) :=
      Nat.mul_lt_mul_of_pos_right (by omega) (by positivity)
    rw [← pow_add] at hlt
    have hk := (Nat.pow_lt_pow_iff_right (by decide : 1 < 2)).mp (h.trans_lt hlt)
    exact (pow_dvd_pow 2 (by omega)).mul_left _

/-- A bound strictly between two points of a grid: it separates the grid as the lower
point does, and no point lies on it. -/
theorem grid_threshold {u T c k K m : ℕ} (hT : 0 < T) (hgrid : c * T ≤ u → T ∣ u) (hc : c ≤ m)
    (hlow : m * k < K) (hhigh : K < (m + 1) * k) :
    (u * k < K * T ↔ u ≤ m * T) ∧ u * k ≠ K * T := by
  have hbelow : u ≤ m * T → u * k < K * T := by
    intro h
    calc u * k ≤ m * T * k := Nat.mul_le_mul_right k h
      _ = m * k * T := by ring
      _ < K * T := Nat.mul_lt_mul_of_pos_right hlow hT
  have habove : ¬ u ≤ m * T → K * T < u * k := by
    intro h
    have hcu : c * T ≤ u := (Nat.mul_le_mul_right T hc).trans (Nat.le_of_not_le h)
    obtain ⟨t, rfl⟩ := hgrid hcu
    have ht : m + 1 ≤ t := by
      rw [Nat.mul_comm T t, Nat.mul_le_mul_right_iff hT] at h
      omega
    calc K * T < (m + 1) * k * T := Nat.mul_lt_mul_of_pos_right hhigh hT
      _ ≤ t * k * T := Nat.mul_le_mul_right T (Nat.mul_le_mul_right k ht)
      _ = T * t * k := by ring
  by_cases h : u ≤ m * T
  · have hlt := hbelow h
    exact ⟨⟨fun _ => h, fun _ => hlt⟩, Nat.ne_of_lt hlt⟩
  · have hgt := habove h
    exact ⟨⟨fun hlt => absurd hlt (Nat.not_lt_of_gt hgt), fun hle => absurd hle h⟩,
      Nat.ne_of_gt hgt⟩

/-! ## Rounding to nearest -/

/-- No multiple of the denominator is nearer than the rounded quotient. -/
theorem divRoundEven_nearest {n d : ℕ} (hd : 0 < d) (m : ℕ) :
    |(n : ℤ) - (divRoundEven n d * d : ℕ)| ≤ |(n : ℤ) - (m * d : ℕ)| := by
  have hn := Nat.div_add_mod n d
  have hmod := Nat.mod_lt n hd
  rw [Nat.mul_comm] at hn
  have hclose : 2 * |(n : ℤ) - (divRoundEven n d * d : ℕ)| ≤ d := by
    unfold divRoundEven
    split_ifs with h
    · rw [abs_of_nonneg (by omega)]
      omega
    · have hnext : (n / d + 1) * d = n / d * d + d := by ring
      rw [hnext, abs_of_nonpos (by omega)]
      omega
  rcases Nat.lt_trichotomy m (divRoundEven n d) with hlt | heq | hgt
  · have hle : m * d + d ≤ divRoundEven n d * d := by
      have := Nat.mul_le_mul_right d (Nat.succ_le_of_lt hlt)
      rwa [Nat.succ_mul] at this
    rcases abs_cases ((n : ℤ) - (divRoundEven n d * d : ℕ)) with habs | habs <;>
      rcases abs_cases ((n : ℤ) - (m * d : ℕ)) with habs' | habs' <;> omega
  · rw [heq]
  · have hle : divRoundEven n d * d + d ≤ m * d := by
      have := Nat.mul_le_mul_right d (Nat.succ_le_of_lt hgt)
      rwa [Nat.succ_mul] at this
    rcases abs_cases ((n : ℤ) - (divRoundEven n d * d : ℕ)) with habs | habs <;>
      rcases abs_cases ((n : ℤ) - (m * d : ℕ)) with habs' | habs' <;> omega

/-- No datum has a magnitude nearer to `n / d` units than the rounded one. -/
theorem units_nearest (neg : Bool) {n d : ℕ} (hd : 0 < d)
    (h : (ofUnits neg n d).isFinite = true) (y : Binary32) :
    |(n : ℤ) - ((ofUnits neg n d).units * d : ℕ)| ≤ |(n : ℤ) - (y.units * d : ℕ)| := by
  have hpos : 0 < d * 2 ^ roundExp n d := by positivity
  have hunits : (ofUnits neg n d).units * d = roundSig n d * (d * 2 ^ roundExp n d) := by
    rw [units_ofUnits neg n d hd h]
    ring
  rw [hunits]
  by_cases hgrid : 2 ^ roundExp n d ∣ y.units
  · obtain ⟨t, ht⟩ := hgrid
    have hy : y.units * d = t * (d * 2 ^ roundExp n d) := by
      rw [ht]
      ring
    rw [hy]
    exact divRoundEven_nearest hpos t
  · -- off the grid a datum is below the binade of `n / d`, whose start is nearer
    have hbelow : y.units < 2 ^ (23 + roundExp n d) := by
      by_contra hle
      exact hgrid (dvd_units (Nat.le_of_not_lt hle))
    have he : 0 < roundExp n d := by
      rw [Nat.pos_iff_ne_zero]
      intro h0
      rw [h0, pow_zero] at hgrid
      exact hgrid (one_dvd _)
    have hstart := binade_le hd he (n := n)
    have hgridStart : 2 ^ (23 + roundExp n d) * d = 2 ^ 23 * (d * 2 ^ roundExp n d) := by
      rw [pow_add]
      ring
    have hle : y.units * d ≤ 2 ^ (23 + roundExp n d) * d := Nat.mul_le_mul_right d hbelow.le
    have hnear := divRoundEven_nearest hpos (n := n) (2 ^ 23)
    rw [← hgridStart] at hnear
    refine hnear.trans ?_
    rw [abs_of_nonneg (by omega), abs_of_nonneg (by omega)]
    omega

theorem units_nearest_div (neg : Bool) {n d : ℕ} (hd : 0 < d)
    (h : (ofUnits neg n d).isFinite = true) (y : Binary32) :
    |((ofUnits neg n d).units : ℚ) - n / d| ≤ |(y.units : ℚ) - n / d| := by
  have hd' : (0 : ℚ) < d := by exact_mod_cast hd
  have hquot : ∀ w : ℕ, |(w : ℚ) - n / d| = ((|(n : ℤ) - (w * d : ℕ)| : ℤ) : ℚ) / d := by
    intro w
    rw [abs_sub_comm, eq_div_iff hd'.ne', ← abs_of_pos hd', ← abs_mul, abs_of_pos hd']
    push_cast
    congr 1
    field_simp
  rw [hquot, hquot, div_le_div_iff_of_pos_right hd']
  exact_mod_cast units_nearest neg hd h y

/-- The distance of two signed magnitudes. -/
theorem abs_signs (s t : Bool) (u q : ℚ) :
    |(if s then -u else u) - (if t then -q else q)| = if s = t then |u - q| else |u + q| := by
  cases s with
  | false =>
      cases t with
      | false => rfl
      | true =>
          show |u - -q| = |u + q|
          rw [sub_neg_eq_add]
  | true =>
      cases t with
      | false =>
          show |-u - q| = |u + q|
          rw [← abs_neg, neg_sub, sub_neg_eq_add, add_comm]
      | true =>
          show |-u - -q| = |u - q|
          rw [neg_sub_neg, abs_sub_comm]

/-- The signed number of `n / d` units. -/
def signed (neg : Bool) (n d : ℕ) : ℚ := (if neg then -(n / d : ℚ) else n / d) / 2 ^ 149

/-- **Round to nearest.** No datum stands for a number nearer to `n / d` units with their
sign. -/
theorem value_nearest (neg : Bool) {n d : ℕ} (hd : 0 < d)
    (h : (ofUnits neg n d).isFinite = true) (y : Binary32) :
    |(ofUnits neg n d).value - signed neg n d| ≤ |y.value - signed neg n d| := by
  have hscale : ∀ a b : ℚ, |a / 2 ^ 149 - b / 2 ^ 149| = |a - b| / 2 ^ 149 := by
    intro a b
    rw [← sub_div, abs_div, abs_of_pos (by positivity : (0 : ℚ) < 2 ^ 149)]
  unfold value signed
  rw [hscale, hscale, div_le_div_iff_of_pos_right (by positivity), neg_ofUnits, abs_signs,
    abs_signs, if_pos rfl]
  by_cases hsign : y.neg = neg
  · rw [if_pos hsign]
    exact units_nearest_div neg hd h y
  · -- on the other side of 0 a datum is not nearer than 0
    have hzero := units_nearest_div neg hd h 0
    have hunits : (0 : Binary32).units = 0 := rfl
    have hq : (0 : ℚ) ≤ n / d := by positivity
    rw [hunits, Nat.cast_zero, zero_sub, abs_neg, abs_of_nonneg hq] at hzero
    rw [if_neg hsign, abs_of_nonneg (by positivity : (0 : ℚ) ≤ y.units + n / d)]
    exact hzero.trans (le_add_of_nonneg_left (by positivity))

theorem ofUnits_nearest (neg : Bool) {n d : ℕ} (hd : 0 < d)
    (h : (ofUnits neg n d).isFinite = true) : (ofUnits neg n d).Nearest (signed neg n d) :=
  ⟨h, fun y _ => value_nearest neg hd h y⟩

/-! ## Truncation -/

theorem truncates_floor {q : ℚ} (hq : 0 ≤ q) : Truncates q ⌊q⌋ := by
  have hfloor : (0 : ℚ) ≤ ⌊q⌋ := by exact_mod_cast Int.floor_nonneg.mpr hq
  refine ⟨mul_nonneg hfloor hq, ?_, ?_⟩
  · rw [abs_of_nonneg hfloor, abs_of_nonneg hq]
    exact Int.floor_le q
  · rw [abs_of_nonneg hfloor, abs_of_nonneg hq]
    exact Int.lt_floor_add_one q

theorem Truncates.neg {q : ℚ} {n : ℤ} (h : Truncates q n) : Truncates (-q) (-n) := by
  obtain ⟨hsign, hle, hlt⟩ := h
  refine ⟨?_, ?_, ?_⟩
  · push_cast
    rwa [neg_mul_neg]
  · push_cast
    rwa [abs_neg, abs_neg]
  · push_cast
    rwa [abs_neg, abs_neg]

/-- The integer part of a finite datum has its sign and its magnitude. -/
theorem exists_trunc {x : Binary32} (hx : x.isFinite = true) :
    ∃ n, x.trunc? = some n ∧ Truncates x.value n := by
  have hfloor : ((x.units / 2 ^ 149 : ℕ) : ℤ) = ⌊(x.units : ℚ) / 2 ^ 149⌋ := by
    have hdiv := Rat.floor_intCast_div_natCast x.units (2 ^ 149)
    push_cast at hdiv
    exact hdiv.symm
  have htrunc := truncates_floor (q := (x.units : ℚ) / 2 ^ 149) (by positivity)
  rw [← hfloor] at htrunc
  unfold trunc?
  rw [if_pos hx]
  cases hneg : x.neg with
  | false =>
      rw [value_of_not_neg hneg]
      exact ⟨_, rfl, htrunc⟩
  | true =>
      rw [value_of_neg hneg]
      exact ⟨_, rfl, htrunc.neg⟩

end Lib.Binary32
