import Hanport.Lib.Delimiter
import Hanport.Logic.Crc

/-!
# What the CRC computes and what it detects

`calculate_crc` is polynomial division by `x^16 + x^15 + x^2 + 1`. So a pair of
messages that differ in a burst of at most 16 bits, in an odd number of bits, or
in two bits less than 32767 apart never has the same CRC.
-/

namespace Hanport.HanportMessageValidator

open Polynomial Lib.Ascii Lib.BitPoly Lib.Delimiter

/-- The bits of a CRC, reflected: bit 0 is the coefficient of `x^15`. -/
noncomputable def reflected (crc : BitVec 16) : (ZMod 2)[X] :=
  ∑ i ∈ Finset.range 16, C (bit (crc.getLsbD i)) * X ^ (15 - i)

/-- **The CRC is the remainder of the message.** The bits of the message, least
significant first in each byte, are a polynomial whose highest degree belongs to
the first bit. -/
theorem calculateCrc_remainder (m : List Byte) :
    reflected (calculateCrc m) =
      (ofBits (messageBits m) * X ^ 16) %ₘ (X ^ 16 + X ^ 15 + X ^ 2 + 1) := by
  have hreflected : reflected (calculateCrc m) = Lib.Lfsr.toPoly (calculateCrc m) := by
    unfold Lib.Lfsr.toPoly Lib.Lfsr.lsbBits
    rw [ofBits_map_range]
    rfl
  rw [hreflected, toPoly_calculateCrc, mul_comm]
  rfl

/-! ## Differences that always change the CRC -/

section Differences

variable {m m' : List Byte} (h : m.length = m'.length)
include h

theorem length_messageBits_eq : (messageBits m).length = (messageBits m').length := by
  rw [length_messageBits, length_messageBits, h]

theorem crc_ne_of_burst (hne : m ≠ m') {a : ℕ}
    (hburst : ∀ k ∈ differing (messageBits m) (messageBits m'), a ≤ k ∧ k < a + 16) :
    calculateCrc m ≠ calculateCrc m' := by
  have hlen := length_messageBits_eq h
  have hsome : (differing (messageBits m) (messageBits m')).Nonempty := by
    rw [Finset.nonempty_iff_ne_empty]
    intro hnone
    exact hne (messageBits_injective h ((differing_eq_empty_iff hlen).mp hnone))
  rw [ne_eq, calculateCrc_eq_iff]
  refine not_dvd_of_burst crcPolynomial_coeff_zero hlen hsome (a := a) fun k hk => ?_
  rw [natDegree_crcPolynomial]
  exact hburst k hk

theorem crc_ne_of_odd (hodd : Odd (differing (messageBits m) (messageBits m')).card) :
    calculateCrc m ≠ calculateCrc m' := by
  rw [ne_eq, calculateCrc_eq_iff]
  exact not_dvd_of_odd crcPolynomial_eval_one (length_messageBits_eq h) hodd

theorem crc_ne_of_pair {i j : ℕ} (hij : i < j) (hnear : j - i < 32767)
    (hpair : differing (messageBits m) (messageBits m') = {i, j}) :
    calculateCrc m ≠ calculateCrc m' := by
  rw [ne_eq, calculateCrc_eq_iff]
  exact not_dvd_of_pair crcPolynomial_coeff_zero (length_messageBits_eq h) hij hpair
    (not_dvd_short_period (by omega) hnear)

/-- Up to three differences within 4095 bytes. -/
theorem crc_ne_of_three (hbytes : m.length ≤ 4095)
    (hpos : 1 ≤ (differing (messageBits m) (messageBits m')).card)
    (hthree : (differing (messageBits m) (messageBits m')).card ≤ 3) :
    calculateCrc m ≠ calculateCrc m' := by
  by_cases hodd : Odd (differing (messageBits m) (messageBits m')).card
  · exact crc_ne_of_odd h hodd
  · have htwo : (differing (messageBits m) (messageBits m')).card = 2 := by
      rw [Nat.not_odd_iff_even] at hodd
      obtain ⟨k, hk⟩ := hodd
      omega
    obtain ⟨i, j, hij, hpair⟩ := Finset.card_eq_two.mp htwo
    have hbound : ∀ k ∈ differing (messageBits m) (messageBits m'), k < 8 * m.length := by
      intro k hk
      have hlt := (mem_differing.mp hk).1
      rwa [length_messageBits] at hlt
    have hi := hbound i (by rw [hpair]; simp)
    have hj := hbound j (by rw [hpair]; simp)
    rcases Nat.lt_or_gt_of_ne hij with hlt | hgt
    · exact crc_ne_of_pair h hlt (by omega) hpair
    · exact crc_ne_of_pair h hgt (by omega) (hpair.trans (Finset.pair_comm i j))

end Differences

/-! ## Differences in front of an intact CRC field -/

/-- Two messages that pass with the same field have the same CRC. -/
theorem crc_eq_of_passes {body body' crc : List Byte} (hb : '!'.toUInt8 ∉ body)
    (hb' : '!'.toUInt8 ∉ body') (hpass : Passes (body ++ '!'.toUInt8 :: crc))
    (hpass' : Passes (body' ++ '!'.toUInt8 :: crc)) :
    calculateCrc (body ++ ['!'.toUInt8]) = calculateCrc (body' ++ ['!'.toUInt8]) := by
  obtain ⟨n, hn, hcrc⟩ := (passes_iff hb).mp hpass
  obtain ⟨n', hn', hcrc'⟩ := (passes_iff hb').mp hpass'
  rw [hn, Except.ok.injEq] at hn'
  rw [← hcrc, ← hcrc', hn']

/-- **Every burst of at most 16 bits is caught.** For every two raw messages with
their first `!` at the same index that agree from there on (so they are of equal
length) and differ before it: if the differing bits lie within 16 consecutive bit
positions, not both of them pass. -/
theorem bursts_caught (raw raw' : List Byte) (n a : ℕ)
    (hbang : raw.findIdx? (fun b => b = '!'.toUInt8) = some n)
    (hbang' : raw'.findIdx? (fun b => b = '!'.toUInt8) = some n)
    (hagree : raw.drop n = raw'.drop n) (hdiffer : raw.take n ≠ raw'.take n)
    (hburst : ∀ k ∈ differing (messageBits raw) (messageBits raw'), a ≤ k ∧ k < a + 16) :
    ¬ (Passes raw ∧ Passes raw') := by
  intro hpass
  obtain ⟨body, crc, rfl, hn, hb⟩ := split_at_bang hbang
  obtain ⟨body', crc', rfl, hn', hb'⟩ := split_at_bang hbang'
  have hlen : body.length = body'.length := by rw [hn, hn']
  have hrest : '!'.toUInt8 :: crc = '!'.toUInt8 :: crc' := by
    rw [List.drop_left' hn, List.drop_left' hn'] at hagree
    exact hagree
  have hne : body ≠ body' := by
    rw [List.take_left' hn, List.take_left' hn'] at hdiffer
    exact hdiffer
  rw [← hrest] at hpass hburst
  rw [messageBits_append, messageBits_append, differing_append (length_messageBits_eq hlen)]
    at hburst
  have hcrc := crc_eq_of_passes hb hb' hpass.1 hpass.2
  have hsame := (calculateCrc_context hlen [] ['!'.toUInt8]).mp hcrc
  exact crc_ne_of_burst hlen hne hburst hsame

/-- `a` and `b` differ in their first two bits, so not both of these pass. -/
theorem bursts_caught_a_b : ¬ (Passes (ascii "/a!41D8") ∧ Passes (ascii "/b!41D8")) := by
  apply bursts_caught (ascii "/a!41D8") (ascii "/b!41D8") 2 8
  · rfl
  · rfl
  · rfl
  · decide
  · decide

/-- **Scattered errors are caught.** Messages of equal length that differ in an
odd number of bits, or in two bits less than 32767 apart, have different CRCs. So
of two messages with the same `!` and CRC field whose bodies, of at most 4095
bytes, differ in one, two or three bits, not both pass, when the body holds no
other `!` before and after. -/
theorem scattered_errors_caught :
    (∀ m m' : List Byte, m.length = m'.length →
      Odd (differing (messageBits m) (messageBits m')).card →
      calculateCrc m ≠ calculateCrc m') ∧
    (∀ (m m' : List Byte) (i j : ℕ), m.length = m'.length → i < j → j - i < 32767 →
      differing (messageBits m) (messageBits m') = {i, j} →
      calculateCrc m ≠ calculateCrc m') ∧
    (∀ head body body' crc : List Byte, body.length = body'.length → body.length ≤ 4095 →
      '!'.toUInt8 ∉ head ++ body → '!'.toUInt8 ∉ head ++ body' →
      1 ≤ (differing (messageBits body) (messageBits body')).card →
      (differing (messageBits body) (messageBits body')).card ≤ 3 →
      ¬ (Passes (head ++ body ++ '!'.toUInt8 :: crc) ∧
        Passes (head ++ body' ++ '!'.toUInt8 :: crc))) := by
  refine ⟨fun m m' h => crc_ne_of_odd h, fun m m' i j h => crc_ne_of_pair h, ?_⟩
  intro head body body' crc h hbytes hb hb' hpos hthree hpass
  have hcrc := crc_eq_of_passes hb hb' hpass.1 hpass.2
  exact crc_ne_of_three h hbytes hpos hthree ((calculateCrc_context h _ _).mp hcrc)

/-- One flipped bit in the body `a` of the frame `/a!41D8`. -/
theorem scattered_errors_caught_a_c :
    Passes (ascii "/a!41D8") ∧ ¬ Passes (ascii "/c!41D8") := by
  have hpass : Passes (ascii "/a!41D8") := by decide +kernel
  have hone : (differing (messageBits (ascii "a")) (messageBits (ascii "c"))).card = 1 := rfl
  refine ⟨hpass, fun hpass' => ?_⟩
  exact scattered_errors_caught.2.2 (ascii "/") (ascii "a") (ascii "c") (ascii "41D8")
    (by decide) (by decide) (by decide) (by decide) (by omega)
    (by omega) ⟨hpass, hpass'⟩

/-- A flipped bit that turns `#` into `!` moves the cut: the four bytes behind it
spell the CRC of what is before, and both frames pass. -/
theorem flipped_bit_moves_cut :
    ¬ ∀ head body body' crc : List Byte, body.length = body'.length → body.length ≤ 4095 →
      '!'.toUInt8 ∉ head ++ body →
      1 ≤ (differing (messageBits body) (messageBits body')).card →
      (differing (messageBits body) (messageBits body')).card ≤ 3 →
      ¬ (Passes (head ++ body ++ '!'.toUInt8 :: crc) ∧
        Passes (head ++ body' ++ '!'.toUInt8 :: crc)) := by
  intro hall
  have hone :
      (differing (messageBits (ascii "a#41D8")) (messageBits (ascii "a!41D8"))).card = 1 := rfl
  refine hall (ascii "/") (ascii "a#41D8") (ascii "a!41D8") (ascii "3819") rfl
    (by decide) (by decide) (by omega) (by omega) ⟨?_, ?_⟩
  · decide +kernel
  · decide +kernel

end Hanport.HanportMessageValidator
