import Hanport.Lib.BitPoly

/-!
# Reflected shift registers and polynomial division

A register of width `w` that shifts to the right and, when a 1 falls out, is
xored with `taps`. Its bits are read from the least significant one on, so that
bit 0 is the coefficient of the highest degree (`toPoly`); then a step multiplies
by `X` modulo the generator (`mk_step`), taking in words with `update` gives the
remainder of the message (`toPoly_foldl`), and two messages collide iff the
generator divides their difference (`foldl_eq_iff`).

The period of `X` modulo the generator is that of the register started at 1; it
is checked on numbers (`run`, `orderOf_root`).
-/

namespace Lib.Lfsr

open Polynomial Lib.BitPoly

variable {w : ℕ}

/-- The bits of a word, the least significant one first. -/
def lsbBits (c : BitVec w) : List Bool := (List.range w).map c.getLsbD

/-- The polynomial of a register; bit 0 has the highest degree. -/
noncomputable def toPoly (c : BitVec w) : (ZMod 2)[X] := ofBits (lsbBits c)

/-- The generator that belongs to the taps. -/
noncomputable def generator (taps : BitVec w) : (ZMod 2)[X] := X ^ w + toPoly taps

/-- One shift. -/
def step (taps c : BitVec w) : BitVec w :=
  if c.getLsbD 0 then (c >>> 1) ^^^ taps else c >>> 1

/-- Taking in a word of width `v`. -/
def update {v : ℕ} (taps c : BitVec w) (b : BitVec v) : BitVec w :=
  (step taps)^[v] (c ^^^ b.setWidth w)

@[simp] theorem length_lsbBits (c : BitVec w) : (lsbBits c).length = w := by
  simp [lsbBits]

theorem lsbBits_injective {c d : BitVec w} (h : lsbBits c = lsbBits d) : c = d := by
  apply BitVec.eq_of_getLsbD_eq
  intro i hi
  exact List.map_inj_left.mp h i (List.mem_range.mpr hi)

/-- A shift drops the first bit and appends a 0. -/
theorem lsbBits_shift (c : BitVec w) :
    c.getLsbD 0 :: lsbBits (c >>> 1) = lsbBits c ++ [false] := by
  calc c.getLsbD 0 :: lsbBits (c >>> 1)
      = (List.range (w + 1)).map c.getLsbD := by
        rw [List.range_succ_eq_map]
        simp [lsbBits, Function.comp_def, Nat.add_comm]
    _ = lsbBits c ++ [false] := by
        rw [List.range_succ]
        simp [lsbBits]

theorem lsbBits_setWidth {v : ℕ} (h : v ≤ w) (b : BitVec v) :
    lsbBits (b.setWidth w) = lsbBits b ++ List.replicate (w - v) false := by
  obtain ⟨d, rfl⟩ := Nat.exists_eq_add_of_le h
  unfold lsbBits
  rw [List.range_add, List.map_append, List.map_map, Nat.add_sub_cancel_left]
  congr 1
  · refine List.map_congr_left fun i hi => ?_
    have := List.mem_range.mp hi
    rw [BitVec.getLsbD_setWidth, decide_eq_true (by omega), Bool.true_and]
  · rw [List.eq_replicate_iff]
    refine ⟨by simp, fun x hx => ?_⟩
    obtain ⟨i, _, rfl⟩ := List.mem_map.mp hx
    simp

/-! ## The polynomial of a register -/

theorem toPoly_injective {c d : BitVec w} (h : toPoly c = toPoly d) : c = d :=
  lsbBits_injective (ofBits_injective (by simp) h)

theorem toPoly_xor (c d : BitVec w) : toPoly (c ^^^ d) = toPoly c + toPoly d := by
  unfold toPoly lsbBits
  rw [← ofBits_map_xor]
  exact congrArg ofBits (List.map_congr_left fun i _ => BitVec.getLsbD_xor)

theorem toPoly_zero : toPoly (0 : BitVec w) = 0 := by
  have hbits : lsbBits (0 : BitVec w) = List.replicate w false := by
    simp [lsbBits, List.eq_replicate_iff]
  rw [toPoly, hbits, ofBits_replicate_false]

theorem toPoly_shift (c : BitVec w) :
    C (bit (c.getLsbD 0)) * X ^ w + toPoly (c >>> 1) = X * toPoly c := by
  have h := congrArg ofBits (lsbBits_shift c)
  rw [ofBits_cons, ofBits_append, length_lsbBits] at h
  simpa [ofBits_cons, toPoly] using h

theorem toPoly_setWidth {v : ℕ} (h : v ≤ w) (b : BitVec v) :
    toPoly (b.setWidth w) = X ^ (w - v) * toPoly b := by
  unfold toPoly
  rw [lsbBits_setWidth h, ofBits_append, ofBits_replicate_false, List.length_replicate, add_zero]

theorem degree_toPoly_lt (c : BitVec w) : (toPoly c).degree < w := by
  have h := degree_ofBits_lt (lsbBits c)
  rwa [length_lsbBits] at h

theorem generator_monic (taps : BitVec w) : (generator taps).Monic :=
  monic_X_pow_add (degree_toPoly_lt taps)

theorem degree_generator (taps : BitVec w) : (generator taps).degree = w := by
  have h : (toPoly taps).degree < (X ^ w : (ZMod 2)[X]).degree := by
    rw [degree_X_pow]
    exact degree_toPoly_lt taps
  rw [generator, degree_add_eq_left_of_degree_lt h, degree_X_pow]

/-- A step multiplies by `X` and subtracts the generator when the bit of the
highest degree was set. -/
theorem toPoly_step (taps c : BitVec w) :
    toPoly (step taps c) = X * toPoly c + C (bit (c.getLsbD 0)) * generator taps := by
  rw [← toPoly_shift, step, generator]
  by_cases h : c.getLsbD 0 = true
  · rw [if_pos h, toPoly_xor, h, bit_true, C_1, one_mul, one_mul, add_add_add_comm,
      CharTwo.add_self_eq_zero, zero_add]
  · rw [Bool.not_eq_true] at h
    simp [h]

/-! ## Modulo the generator -/

section Remainder

variable {v : ℕ} (taps : BitVec w)

open AdjoinRoot

theorem mk_step (c : BitVec w) :
    mk (generator taps) (toPoly (step taps c)) =
      root (generator taps) * mk (generator taps) (toPoly c) := by
  rw [toPoly_step, map_add, map_mul, map_mul, mk_X, mk_self, mul_zero, add_zero]

theorem mk_iterate (n : ℕ) (c : BitVec w) :
    mk (generator taps) (toPoly ((step taps)^[n] c)) =
      root (generator taps) ^ n * mk (generator taps) (toPoly c) := by
  induction n generalizing c with
  | zero => simp
  | succ n ih => rw [Function.iterate_succ_apply, ih, mk_step, ← mul_assoc, ← pow_succ]

theorem mk_update (h : v ≤ w) (c : BitVec w) (b : BitVec v) :
    mk (generator taps) (toPoly (update taps c b)) =
      root (generator taps) ^ v * mk (generator taps) (toPoly c) +
        root (generator taps) ^ w * mk (generator taps) (toPoly b) := by
  have hpow : root (generator taps) ^ w =
      root (generator taps) ^ v * root (generator taps) ^ (w - v) := by
    rw [← pow_add, Nat.add_sub_cancel' h]
  rw [update, mk_iterate, toPoly_xor, toPoly_setWidth h, map_add, map_mul, map_pow, mk_X, hpow]
  ring

/-- Taking in a message: the register is shifted by its length, and the message
is added above it. -/
theorem mk_foldl (h : v ≤ w) (m : List (BitVec v)) (c : BitVec w) :
    mk (generator taps) (toPoly (m.foldl (update taps) c)) =
      root (generator taps) ^ (m.flatMap lsbBits).length * mk (generator taps) (toPoly c) +
        root (generator taps) ^ w * mk (generator taps) (ofBits (m.flatMap lsbBits)) := by
  induction m generalizing c with
  | nil => simp
  | cons b m ih =>
      rw [List.foldl_cons, ih, mk_update taps h, List.flatMap_cons, ofBits_append,
        List.length_append, length_lsbBits, map_add, map_mul, map_pow, mk_X, pow_add]
      show _ = _ + _ * (_ * mk (generator taps) (toPoly b) + _)
      ring

/-- **The register is the remainder of the message.** -/
theorem toPoly_foldl (h : v ≤ w) (m : List (BitVec v)) :
    toPoly (m.foldl (update taps) 0) =
      (X ^ w * ofBits (m.flatMap lsbBits)) %ₘ generator taps := by
  have hmk := mk_foldl taps h m 0
  rw [toPoly_zero, map_zero, mul_zero, zero_add, ← mk_X, ← map_pow, ← map_mul, mk_eq_mk] at hmk
  rw [← modByMonic_eq_of_dvd_sub (generator_monic taps) hmk, eq_comm,
    modByMonic_eq_self_iff (generator_monic taps), degree_generator]
  exact degree_toPoly_lt _

/-- **Two messages collide iff the generator divides their difference.** -/
theorem foldl_eq_iff (hG : (generator taps).coeff 0 = 1) (h : v ≤ w) (m m' : List (BitVec v)) :
    m.foldl (update taps) 0 = m'.foldl (update taps) 0 ↔
      generator taps ∣ ofBits (m.flatMap lsbBits) - ofBits (m'.flatMap lsbBits) := by
  have hpoly : m.foldl (update taps) 0 = m'.foldl (update taps) 0 ↔
      toPoly (m.foldl (update taps) 0) = toPoly (m'.foldl (update taps) 0) :=
    ⟨congrArg toPoly, toPoly_injective⟩
  rw [hpoly, toPoly_foldl taps h, toPoly_foldl taps h, ← dvd_X_pow_mul_iff hG w, mul_sub]
  constructor
  · intro heq
    rw [← modByMonic_eq_zero_iff_dvd (generator_monic taps), sub_modByMonic, heq, sub_self]
  · exact modByMonic_eq_of_dvd_sub (generator_monic taps)

end Remainder

/-! ## The period of `X` -/

/-- A step on numbers. -/
def stepNat (taps c : ℕ) : ℕ := (c / 2) ^^^ (taps * (c % 2))

/-- `next` of a number that is evaluated first. -/
def force (next : ℕ → ℕ) : ℕ → ℕ
  | 0 => next 0
  | d + 1 => next (d + 1)

theorem force_eq (next : ℕ → ℕ) (d : ℕ) : force next d = next d := by
  cases d with
  | zero => rfl
  | succ d => rfl

/-- `n` steps on numbers, each evaluated before the next. -/
def run (taps : ℕ) : ℕ → ℕ → ℕ
  | 0, c => c
  | n + 1, c => force (run taps n) (stepNat taps c)

theorem run_eq (taps n c : ℕ) : run taps n c = (stepNat taps)^[n] c := by
  induction n generalizing c with
  | zero => rfl
  | succ n ih => rw [run, force_eq, ih, Function.iterate_succ_apply]

theorem toNat_step (taps c : BitVec w) :
    (step taps c).toNat = stepNat taps.toNat c.toNat := by
  have hodd : c.getLsbD 0 = decide (c.toNat % 2 = 1) := by
    rw [BitVec.getLsbD, Nat.testBit_zero]
  rcases Nat.mod_two_eq_zero_or_one c.toNat with h | h
  · simp [step, stepNat, hodd, h, Nat.shiftRight_eq_div_pow]
  · simp [step, stepNat, hodd, h, Nat.shiftRight_eq_div_pow]

theorem toNat_iterate (taps : BitVec w) (n : ℕ) (c : BitVec w) :
    ((step taps)^[n] c).toNat = run taps.toNat n c.toNat := by
  rw [run_eq]
  induction n generalizing c with
  | zero => rfl
  | succ n ih => rw [Function.iterate_succ_apply, ih, toNat_step, Function.iterate_succ_apply]

section Period

variable (taps : BitVec w)

open AdjoinRoot

/-- `X ^ n` is 1 modulo the generator iff `n` steps take the register 1 to
itself. -/
theorem root_pow_eq_one_iff {one : BitVec w} (hone : toPoly one = 1) (n : ℕ) :
    root (generator taps) ^ n = 1 ↔ run taps.toNat n one.toNat = one.toNat := by
  have hmk := mk_iterate taps n one
  rw [hone, map_one, mul_one] at hmk
  rw [← hmk, ← toNat_iterate]
  constructor
  · intro h
    rw [← map_one (mk (generator taps)), mk_eq_mk] at h
    have hdegree : (toPoly ((step taps)^[n] one) - 1).degree < (generator taps).degree := by
      rw [degree_generator, ← hone]
      exact (degree_sub_le _ _).trans_lt (max_lt (degree_toPoly_lt _) (degree_toPoly_lt _))
    have hzero := eq_zero_of_dvd_of_degree_lt h hdegree
    rw [← hone, sub_eq_zero] at hzero
    rw [toPoly_injective hzero]
  · intro h
    rw [BitVec.eq_of_toNat_eq h, hone, map_one]

/-- The order of `X` from runs at the period and at its maximal divisors. -/
theorem orderOf_root {one : BitVec w} (hone : toPoly one = 1) {n : ℕ} (hn : 0 < n)
    (hperiod : run taps.toNat n one.toNat = one.toNat)
    (hmin : ∀ p, p.Prime → p ∣ n → run taps.toNat (n / p) one.toNat ≠ one.toNat) :
    orderOf (root (generator taps)) = n := by
  apply orderOf_eq_of_pow_and_pow_div_prime hn
  · exact (root_pow_eq_one_iff taps hone n).mpr hperiod
  · intro p hp hpn hone'
    exact hmin p hp hpn ((root_pow_eq_one_iff taps hone _).mp hone')

/-- The generator divides `X ^ n - 1` only at multiples of the order. -/
theorem dvd_X_pow_sub_one_iff (n : ℕ) :
    generator taps ∣ X ^ n - 1 ↔ orderOf (root (generator taps)) ∣ n := by
  rw [orderOf_dvd_iff_pow_eq_one, ← mk_X, ← map_pow, ← map_one (mk (generator taps)), mk_eq_mk]

end Period

end Lib.Lfsr
