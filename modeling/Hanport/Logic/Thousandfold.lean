import Hanport.Lib.Binary32Rounding
import Hanport.Model.HpModbuss

/-!
# The product with 1000

`d.f * 1000` of a finite `float` is its thousandfold in units, rounded once
(`mul_thousand`). For the `float` nearest to `N / 1000` with `N` below ten million,
the truncated product is `N`, or `N - 1` when two roundings down meet
(`trunc_thousandths`).
-/

namespace Hanport.HpModbuss

open Lib Lib.Binary32

/-! ## One product -/

theorem thousand_units : (ofInt 1000).units = 1000 * 2 ^ 149 := rfl

/-- The product is one rounding of the thousandfold. -/
theorem mul_thousand {x : Binary32} (hx : x.isFinite = true) :
    x * ofInt 1000 = ofUnits x.neg (x.units * 1000) 1 := by
  obtain ⟨hnan, hinf⟩ := (isFinite_iff x).mp hx
  have hnan' : (ofInt 1000).isNaN = false := rfl
  have hinf' : (ofInt 1000).isInf = false := rfl
  have hneg : (ofInt 1000).neg = false := rfl
  show mul x (ofInt 1000) = _
  unfold mul
  rw [hnan, hnan', hinf, hinf', hneg, thousand_units, ← Nat.mul_assoc]
  simp only [Bool.or_self, Bool.false_eq_true, if_false, Bool.bne_false]
  have hscale := ofUnits_mul_right x.neg (x.units * 1000) 1 (k := 2 ^ 149) (by positivity)
  rwa [Nat.one_mul] at hscale

/-- The product of a datum that is not finite is not finite. -/
theorem not_isFinite_mul_thousand {x : Binary32} (hx : x.isFinite = false) :
    (x * ofInt 1000).isFinite = false := by
  have hnan' : (ofInt 1000).isNaN = false := rfl
  have hmag : (ofInt 1000).magnitude ≠ 0 := by decide
  show (mul x (ofInt 1000)).isFinite = false
  unfold mul
  by_cases hnan : x.isNaN = true
  · rw [hnan, Bool.true_or, if_pos rfl]
    decide
  · have hinf : x.isInf = true := by
      by_contra hnot
      rw [(isFinite_iff x).mpr ⟨by simpa using hnan, by simpa using hnot⟩] at hx
      cases hx
    have hxmag : x.magnitude = infMagnitude := of_decide_eq_true hinf
    rw [Bool.not_eq_true] at hnan
    rw [hnan, hnan', hinf, hxmag]
    simp only [Bool.or_self, Bool.false_eq_true, if_false, Bool.true_or, if_true]
    rw [if_neg (by simp [hmag, infMagnitude])]
    unfold isFinite
    rw [magnitude_ofMagnitude _ infMagnitude_lt]
    simp

/-! ## The cast -/

/-- A number in the range of `int` survives the conversion. -/
theorem toInt_ofInt {n : ℤ} (h : Strtol.InInt n) : (BitVec.ofInt 32 n).toInt = n := by
  unfold Strtol.InInt at h
  rw [BitVec.toInt_ofInt]
  exact Int.bmod_eq_of_le (by omega) (by omega)

/-- The cast of a product in range is the truncated product. -/
theorem thousandfold_toInt (wild : Binary32 → BitVec 32) {x : Binary32} {n : ℤ}
    (hn : (x * ofInt 1000).trunc? = some n) (h : Strtol.InInt n) :
    (thousandfold wild x).toInt = n := by
  unfold thousandfold toInt32
  rw [hn]
  dsimp only
  rw [if_pos h, toInt_ofInt h]

/-! ## Thousandths -/

/-- The `float` nearest to `N / 1000` lies so far below that the product with 1000
is rounded down as well: up to a power of two `2^s` that lifts it into the binade,
`N` exceeds a multiple of 1000 by more than 256 and less than 500. -/
def LosesWatt (N : ℕ) : Prop :=
  ∃ s < 34, 1000 * 2 ^ 23 ≤ N * 2 ^ s ∧ N * 2 ^ s < 2 ^ 33 ∧
    256 < N * 2 ^ s % 1000 ∧ N * 2 ^ s % 1000 < 500

instance (N : ℕ) : Decidable (LosesWatt N) := inferInstanceAs (Decidable (∃ s < 34, _))

/-- The power of two that lifts `N` into the binade is the only one. -/
theorem losesWatt_iff {N s : ℕ} (hlow : 1000 * 2 ^ 23 ≤ N * 2 ^ s)
    (hhigh : N * 2 ^ s < 1000 * 2 ^ 24) :
    LosesWatt N ↔ N * 2 ^ s < 2 ^ 33 ∧ 256 < N * 2 ^ s % 1000 ∧ N * 2 ^ s % 1000 < 500 := by
  have hdouble : ∀ {a b : ℕ}, a < b → N * 2 ^ a * 2 ≤ N * 2 ^ b := by
    intro a b hab
    rw [Nat.mul_assoc, ← pow_succ]
    exact Nat.mul_le_mul_left N (Nat.pow_le_pow_right (by decide) hab)
  constructor
  · intro h
    obtain ⟨t, _, hl, hh, hrest⟩ := h
    have hts : t = s := by
      rcases Nat.lt_trichotomy t s with hlt | heq | hgt
      · have := hdouble hlt
        omega
      · exact heq
      · have := hdouble hgt
        omega
    subst hts
    exact ⟨hh, hrest⟩
  · intro h
    obtain ⟨hh, hrest⟩ := h
    have hN : 0 < N := by
      rcases Nat.eq_zero_or_pos N with h0 | hpos
      · rw [h0, Nat.zero_mul] at hlow
        omega
      · exact hpos
    have hs : s < 33 := by
      have hle : 2 ^ s ≤ N * 2 ^ s := Nat.le_mul_of_pos_left _ hN
      exact (Nat.pow_lt_pow_iff_right (by decide)).mp (hle.trans_lt hh)
    exact ⟨s, by omega, hlow, hh, hrest⟩

/-! ## Two roundings -/

/-- The first rounding, of `T / 1000`, moves `T` by at most 500, and down by more
than 256 as the remainder says. -/
theorem first_rounding {T : ℕ} (hT : T % 1024 = 0) :
    T ≤ divRoundEven T 1000 * 1000 + 500 ∧ divRoundEven T 1000 * 1000 ≤ T + 500 ∧
      (divRoundEven T 1000 * 1000 + 256 < T ↔ 256 < T % 1000 ∧ T % 1000 < 500) := by
  unfold divRoundEven
  split <;> omega

/-- The second rounding, to a multiple of 1024, undoes the first one. -/
theorem second_rounding_high {P T : ℕ} (hT : T % 1024 = 0) (hlow : T ≤ P + 500)
    (hhigh : P ≤ T + 500) : divRoundEven P (2 ^ 10) * 2 ^ 10 = T := by
  unfold divRoundEven
  split <;> omega

/-- The second rounding, to a multiple of 512, stays below `T` when the first one
went down by more than 256. -/
theorem second_rounding_low {P T : ℕ} (hT : T % 1024 = 0) (hlow : T ≤ P + 500)
    (hhigh : P ≤ T + 500) :
    (P + 256 < T → divRoundEven P (2 ^ 9) * 2 ^ 9 + 512 = T) ∧
      (T ≤ P + 256 → T ≤ divRoundEven P (2 ^ 9) * 2 ^ 9 ∧
        divRoundEven P (2 ^ 9) * 2 ^ 9 ≤ T + 512) := by
  unfold divRoundEven
  constructor
  · intro h
    split <;> omega
  · intro h
    split <;> omega

/-- A thousandfold `P * 2^e` of a significand is rounded by 9 or 10 bits. -/
theorem roundExp_thousandfold {P e : ℕ} (hlow : 2 ^ 23 * 1000 ≤ P) (hhigh : P ≤ 2 ^ 24 * 1000) :
    roundExp (P * 2 ^ e) 1 = e + if P < 2 ^ 33 then 9 else 10 := by
  have hle : ∀ k, roundExp (P * 2 ^ e) 1 ≤ e + k ↔ P < 2 ^ (24 + k) := by
    intro k
    rw [roundExp_le_iff Nat.one_pos, Nat.mul_one, show 24 + (e + k) = 24 + k + e by omega,
      pow_add _ (24 + k) e]
    exact Nat.mul_lt_mul_right (by positivity)
  have h8 := hle 8
  have h9 := hle 9
  have h10 := hle 10
  have hp8 : (2 : ℕ) ^ (24 + 8) = 2 ^ 32 := rfl
  have hp9 : (2 : ℕ) ^ (24 + 9) = 2 ^ 33 := rfl
  have hp10 : (2 : ℕ) ^ (24 + 10) = 2 ^ 34 := rfl
  rw [hp8] at h8
  rw [hp9] at h9
  rw [hp10] at h10
  split <;> omega

theorem roundSig_thousandfold {P e t : ℕ} (he : roundExp (P * 2 ^ e) 1 = e + t) :
    roundSig (P * 2 ^ e) 1 = divRoundEven P (2 ^ t) := by
  unfold roundSig
  rw [he, Nat.one_mul, Nat.add_comm e t, pow_add]
  exact divRoundEven_mul_right P (2 ^ t) (by positivity)

/-! ## The truncated product -/

/-- The integer part of a product whose significand ends `s` bits below the
point. -/
theorem trunc_thousandfold {P e s t : ℕ} (hes : s + e = 149) (ht : t ≤ 10)
    (he : roundExp (P * 2 ^ e) 1 = e + t) :
    (ofUnits false (P * 2 ^ e) 1).trunc? =
      some ((divRoundEven P (2 ^ t) * 2 ^ t / 2 ^ s : ℕ) : ℤ) := by
  have hfinite : (ofUnits false (P * 2 ^ e) 1).isFinite = true :=
    isFinite_ofUnits_of_le _ _ _ Nat.one_pos (by omega)
  have hunits : (ofUnits false (P * 2 ^ e) 1).units / 2 ^ 149 =
      divRoundEven P (2 ^ t) * 2 ^ t / 2 ^ s := by
    rw [units_ofUnits false _ _ Nat.one_pos hfinite, roundSig_thousandfold he, he, Nat.add_comm e t,
      ← hes, pow_add, pow_add, ← Nat.mul_assoc]
    exact Nat.mul_div_mul_right _ _ (by positivity)
  unfold trunc?
  rw [if_pos hfinite, neg_ofUnits, if_neg Bool.false_ne_true, hunits]

/-- `N / 1000` is lifted into its binade by a power of two that makes it a
multiple of 1024. -/
theorem exists_lift {N : ℕ} (hpos : 0 < N) (hN : N ≤ 9999999) :
    ∃ s, s + roundExp (N * 2 ^ 149) 1000 = 149 ∧ 10 ≤ s ∧ 1 ≤ roundExp (N * 2 ^ 149) 1000 ∧
      1000 * 2 ^ 23 ≤ N * 2 ^ s ∧ N * 2 ^ s < 1000 * 2 ^ 24 := by
  have hd : 0 < 1000 := by decide
  have he1 : 1 ≤ roundExp (N * 2 ^ 149) 1000 := by
    have h0 := (roundExp_le_iff (n := N * 2 ^ 149) hd 0).not.mpr (by omega)
    omega
  have he139 : roundExp (N * 2 ^ 149) 1000 ≤ 139 := (roundExp_le_iff hd 139).mpr (by omega)
  have hlow := binade_le (n := N * 2 ^ 149) hd he1
  have hhigh := lt_binade (n := N * 2 ^ 149) hd
  generalize roundExp (N * 2 ^ 149) 1000 = e at he1 he139 hlow hhigh ⊢
  obtain ⟨s, hes⟩ : ∃ s, s + e = 149 := ⟨149 - e, by omega⟩
  have hsplit : N * 2 ^ 149 = N * 2 ^ s * 2 ^ e := by rw [← hes, pow_add, Nat.mul_assoc]
  have hcomm : ∀ k, 2 ^ (k + e) * 1000 = 1000 * 2 ^ k * 2 ^ e := by
    intro k
    rw [pow_add]
    ring
  rw [hsplit, hcomm] at hlow hhigh
  exact ⟨s, hes, by omega, he1, Nat.le_of_mul_le_mul_right hlow (by positivity),
    Nat.lt_of_mul_lt_mul_right hhigh⟩

/-- The two roundings of the lifted `N`. -/
theorem lifted_roundings {N s P : ℕ} (hs : 10 ≤ s) (hlow : 1000 * 2 ^ 23 ≤ N * 2 ^ s)
    (hhigh : N * 2 ^ s < 1000 * 2 ^ 24) (hP : P = divRoundEven (N * 2 ^ s) 1000 * 1000) :
    divRoundEven P (2 ^ if P < 2 ^ 33 then 9 else 10) * (2 ^ if P < 2 ^ 33 then 9 else 10) / 2 ^ s =
      if LosesWatt N then N - 1 else N := by
  have hspos : 0 < 2 ^ s := by positivity
  have hfactor : 2 ^ s = 1024 * 2 ^ (s - 10) := by
    rw [show (1024 : ℕ) = 2 ^ 10 from rfl, ← pow_add]
    congr 1
    omega
  have hmod : N * 2 ^ s % 1024 = 0 := by
    rw [hfactor, Nat.mul_left_comm]
    exact Nat.mul_mod_right 1024 _
  obtain ⟨hP1, hP2, hdown⟩ := first_rounding hmod
  rw [← hP] at hP1 hP2 hdown
  have hloses := losesWatt_iff hlow hhigh
  rw [← hdown] at hloses
  have hpred : (N - 1) * 2 ^ s = N * 2 ^ s - 2 ^ s := Nat.sub_one_mul N (2 ^ s)
  have hexact : ∀ V, N * 2 ^ s ≤ V → V < N * 2 ^ s + 2 ^ s → V / 2 ^ s = N := by
    intro V h1 h2
    rw [Nat.div_eq_iff hspos]
    omega
  by_cases hbinade : P < 2 ^ 33
  · obtain ⟨hbelow, habove⟩ := second_rounding_low hmod hP1 hP2
    rw [if_pos hbinade]
    by_cases hbad : P + 256 < N * 2 ^ s
    · have hround := hbelow hbad
      rw [if_pos (hloses.mpr ⟨by omega, hbad⟩), Nat.div_eq_iff hspos]
      omega
    · obtain ⟨h1, h2⟩ := habove (by omega)
      rw [if_neg fun h => hbad (hloses.mp h).2]
      exact hexact _ h1 (by omega)
  · rw [if_neg hbinade, second_rounding_high hmod hP1 hP2, if_neg]
    · exact hexact _ (Nat.le_refl _) (by omega)
    · intro h
      have := hloses.mp h
      omega

/-- **Thousandths of a kilowatt.** The `float` nearest to `N / 1000` gives `N`, or
`N - 1` when it loses a watt. -/
theorem trunc_thousandths {N : ℕ} (hpos : 0 < N) (hN : N ≤ 9999999) :
    (ofUnits false (N * 2 ^ 149) 1000).isFinite = true ∧
    (ofUnits false (N * 2 ^ 149) 1000 * ofInt 1000).trunc? =
      some ((if LosesWatt N then N - 1 else N : ℕ) : ℤ) := by
  have hd : 0 < 1000 := by decide
  obtain ⟨s, hes, hs, he1, hlow, hhigh⟩ := exists_lift hpos hN
  have hsig : roundSig (N * 2 ^ 149) 1000 = divRoundEven (N * 2 ^ s) 1000 := by
    have hsplit : N * 2 ^ 149 = N * 2 ^ s * 2 ^ roundExp (N * 2 ^ 149) 1000 := by
      rw [Nat.mul_assoc, ← pow_add, hes]
    have hscale := divRoundEven_mul_right (N * 2 ^ s) 1000
      (k := 2 ^ roundExp (N * 2 ^ 149) 1000) (by positivity)
    rw [← hsplit] at hscale
    exact hscale
  have hr1 := le_roundSig (n := N * 2 ^ 149) hd he1
  have hr2 := roundSig_le (n := N * 2 ^ 149) hd
  have hfinite : (ofUnits false (N * 2 ^ 149) 1000).isFinite = true :=
    isFinite_ofUnits_of_le _ _ _ hd (by omega)
  refine ⟨hfinite, ?_⟩
  rw [mul_thousand hfinite, neg_ofUnits, units_ofUnits false _ _ hd hfinite, hsig,
    Nat.mul_right_comm]
  rw [hsig] at hr1 hr2
  generalize roundExp (N * 2 ^ 149) 1000 = e at hes
  have hexp := roundExp_thousandfold (P := divRoundEven (N * 2 ^ s) 1000 * 1000) (e := e)
    (Nat.mul_le_mul_right 1000 hr1) (Nat.mul_le_mul_right 1000 hr2)
  rw [trunc_thousandfold hes (by split <;> omega) hexp, lifted_roundings hs hlow hhigh rfl]

end Hanport.HpModbuss
