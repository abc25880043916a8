import Hanport.Lib.Lfsr
import Hanport.Model.HanportMessageValidator

/-!
# The CRC as polynomial division

`calculate_crc` is the register of the generator `x^16 + x^15 + x^2 + 1`. Two
messages have the same CRC iff the generator divides the difference of their bit
strings (`calculateCrc_eq_iff`), whatever stands before and behind them
(`calculateCrc_context`).
-/

namespace Hanport.HanportMessageValidator

open Polynomial hiding update
open Lib.Ascii Lib.BitPoly Lib.Lfsr

/-- The bits of a message, the least significant bit of each byte first. -/
def messageBits (m : List Byte) : List Bool := m.flatMap fun b => lsbBits b.toBitVec

noncomputable def crcPolynomial : (ZMod 2)[X] := X ^ 16 + X ^ 15 + X ^ 2 + 1

theorem messageBits_cons (b : Byte) (m : List Byte) :
    messageBits (b :: m) = lsbBits b.toBitVec ++ messageBits m := rfl

theorem messageBits_append (m m' : List Byte) :
    messageBits (m ++ m') = messageBits m ++ messageBits m' := List.flatMap_append

@[simp] theorem length_messageBits (m : List Byte) : (messageBits m).length = 8 * m.length := by
  induction m with
  | nil => rfl
  | cons b m ih =>
      rw [messageBits_cons, List.length_append, length_lsbBits, ih, List.length_cons]
      omega

theorem messageBits_injective {m m' : List Byte} (h : m.length = m'.length)
    (hbits : messageBits m = messageBits m') : m = m' := by
  induction m generalizing m' with
  | nil => exact (List.length_eq_zero_iff.mp h.symm).symm
  | cons b m ih =>
      cases m' with
      | nil => cases h
      | cons b' m' =>
          rw [messageBits_cons, messageBits_cons] at hbits
          obtain ⟨hb, hm⟩ := List.append_inj hbits (by simp)
          rw [UInt8.eq_of_toBitVec_eq (lsbBits_injective hb), ih (by simpa using h) hm]

/-! ## The register -/

theorem generator_crc : generator 0xA001#16 = crcPolynomial := by
  have hbits : lsbBits 0xA001#16 = [true, false, false, false, false, false, false, false,
      false, false, false, false, false, true, false, true] := by decide
  rw [generator, toPoly, hbits, crcPolynomial]
  simp [ofBits_cons]
  ring

theorem crcPolynomial_coeff_zero : crcPolynomial.coeff 0 = 1 := by
  simp [crcPolynomial, coeff_X_pow]

theorem natDegree_crcPolynomial : crcPolynomial.natDegree = 16 := by
  rw [← generator_crc]
  exact natDegree_eq_of_degree_eq_some (degree_generator _)

theorem crcPolynomial_eval_one : crcPolynomial.eval 1 = 0 := by
  simp [crcPolynomial]
  decide

theorem crcBit_eq (c : BitVec 16) : crcBit c = step 0xA001#16 c := by
  have hbit : c &&& 0x0001#16 ≠ 0#16 ↔ c.getLsbD 0 = true := by
    rw [BitVec.and_one_eq_setWidth_ofBool_getLsbD]
    cases c.getLsbD 0 with
    | false => simp
    | true => simp
  unfold crcBit step
  simp only [hbit]

theorem crcByte_eq (c : BitVec 16) (b : Byte) : crcByte c b = update 0xA001#16 c b.toBitVec := by
  have hstep : crcBit = step 0xA001#16 := funext crcBit_eq
  unfold crcByte update
  rw [hstep, ← BitVec.ofNat_toNat]
  rfl

theorem calculateCrc_eq_foldl (m : List Byte) :
    calculateCrc m = (m.map UInt8.toBitVec).foldl (update 0xA001#16) 0 := by
  rw [List.foldl_map]
  unfold calculateCrc
  have hbyte : crcByte = fun c b => update 0xA001#16 c b.toBitVec := by
    funext c b
    exact crcByte_eq c b
  rw [hbyte]
  rfl

theorem flatMap_toBitVec (m : List Byte) :
    (m.map UInt8.toBitVec).flatMap lsbBits = messageBits m := by
  rw [List.flatMap_map]
  rfl

theorem toPoly_calculateCrc (m : List Byte) :
    toPoly (calculateCrc m) = (X ^ 16 * ofBits (messageBits m)) %ₘ crcPolynomial := by
  rw [calculateCrc_eq_foldl, toPoly_foldl _ (by decide), generator_crc, flatMap_toBitVec]

/-- Two messages have the same CRC iff the generator divides their
difference. -/
theorem calculateCrc_eq_iff (m m' : List Byte) :
    calculateCrc m = calculateCrc m' ↔
      crcPolynomial ∣ ofBits (messageBits m) - ofBits (messageBits m') := by
  have hG : (generator 0xA001#16).coeff 0 = 1 := by
    rw [generator_crc]
    exact crcPolynomial_coeff_zero
  rw [calculateCrc_eq_foldl, calculateCrc_eq_foldl, foldl_eq_iff _ hG (by decide), generator_crc,
    flatMap_toBitVec, flatMap_toBitVec]

/-- What stands before and behind messages of equal length decides nothing. -/
theorem calculateCrc_context {m m' : List Byte} (h : m.length = m'.length) (p t : List Byte) :
    calculateCrc (p ++ m ++ t) = calculateCrc (p ++ m' ++ t) ↔
      calculateCrc m = calculateCrc m' := by
  have hdiff : ofBits (messageBits (p ++ m ++ t)) - ofBits (messageBits (p ++ m' ++ t)) =
      X ^ (messageBits t).length * (ofBits (messageBits m) - ofBits (messageBits m')) := by
    simp only [messageBits_append, ofBits_append, length_messageBits, h]
    ring
  rw [calculateCrc_eq_iff, calculateCrc_eq_iff, hdiff, dvd_X_pow_mul_iff crcPolynomial_coeff_zero]

/-! ## The period of `x` -/

theorem prime_dvd_period {p : ℕ} (hp : p.Prime) (h : p ∣ 32767) : p = 7 ∨ p = 31 ∨ p = 151 := by
  have hfactors : 32767 = 7 * (31 * 151) := rfl
  rw [hfactors, hp.dvd_mul, hp.dvd_mul, Nat.prime_dvd_prime_iff_eq hp (by norm_num),
    Nat.prime_dvd_prime_iff_eq hp (by norm_num), Nat.prime_dvd_prime_iff_eq hp (by norm_num)] at h
  exact h

theorem orderOf_root_crc : orderOf (AdjoinRoot.root (generator 0xA001#16)) = 32767 := by
  have hone : toPoly 0x8000#16 = 1 := by
    have hbits : lsbBits 0x8000#16 = List.replicate 15 false ++ [true] := by decide
    rw [toPoly, hbits, ofBits_append, ofBits_replicate_false]
    simp [ofBits_cons]
  refine orderOf_root _ hone (by decide) (by decide +kernel) fun p hp hdvd => ?_
  rcases prime_dvd_period hp hdvd with rfl | rfl | rfl
  · decide +kernel
  · decide +kernel
  · decide

theorem not_dvd_short_period {d : ℕ} (hpos : 0 < d) (hd : d < 32767) :
    ¬ crcPolynomial ∣ X ^ d - 1 := by
  rw [← generator_crc, dvd_X_pow_sub_one_iff, orderOf_root_crc]
  exact Nat.not_dvd_of_pos_of_lt hpos hd

end Hanport.HanportMessageValidator
