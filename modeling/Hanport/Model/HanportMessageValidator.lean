import Hanport.Lib.Delimiter
import Hanport.Lib.Getline
import Hanport.Lib.Strtol

/-!
# `HanportMessageValidator`

The validator of a raw message (hpMessageValidator.cpp): it cuts the message
at its first `!`, reads the bytes behind it as a hexadecimal CRC and computes
the CRC of the bytes up to it. A `std::runtime_error` is its text.
-/

namespace Hanport

open Lib Lib.Ascii Lib.Getline Lib.Strtol

namespace HanportMessageValidator

/-- `extract_message`: the index of the first `!` and the message part, up to
the `!` inclusive. -/
def extractMessage (rawHpMessage : List Byte) : Except String (ℕ × List Byte) :=
  match rawHpMessage.findIdx? (fun b => b = '!'.toUInt8) with
  | none => .error "no '!' found invalid dataformat"
  | some exclamationPos => .ok (exclamationPos, rawHpMessage.take (exclamationPos + 1))

/-- The text that `extract_crc` hands to `std::stoi`: the bytes behind the
`!`, less CR and LF. -/
def crcString (rawHpMessage : List Byte) (exclamationPos : ℕ) : List Byte :=
  (rawHpMessage.drop (exclamationPos + 1)).filter fun b => b ≠ '\r'.toUInt8 ∧ b ≠ '\n'.toUInt8

/-- `extract_crc`; the cast to `uint16_t` keeps the number modulo `2^16`. -/
def extractCrc (rawHpMessage : List Byte) (exclamationPos : ℕ) : Except String (BitVec 16) :=
  if crcString rawHpMessage exclamationPos = [] then
    .error "invalid data format, missing CRC value"
  else
    match stoi16 (crcString rawHpMessage exclamationPos) with
    | .ok n => .ok (BitVec.ofInt 16 n)
    | .error _ => .error "Failed to parse crc value"

/-- One pass of the inner loop of `calculate_crc`. -/
def crcBit (crc : BitVec 16) : BitVec 16 :=
  if crc &&& 0x0001#16 ≠ 0#16 then (crc >>> 1) ^^^ 0xA001#16 else crc >>> 1

/-- One pass of the outer loop. -/
def crcByte (crc : BitVec 16) (b : Byte) : BitVec 16 :=
  crcBit^[8] (crc ^^^ BitVec.ofNat 16 b.toNat)

/-- `calculate_crc` of the message part. -/
def calculateCrc (hpMeterData : List Byte) : BitVec 16 := hpMeterData.foldl crcByte 0x0000#16

end HanportMessageValidator

open HanportMessageValidator in
/-- The object. Its message part and its two CRCs are what the constructor
computed from the raw message, so no other object can be built. -/
structure HanportMessageValidator where
  rawHpMessage : List Byte
  exclamationPos : ℕ
  hpMeterData : List Byte
  calculatedCrc : BitVec 16
  transmittedCrc : BitVec 16
  extracted : extractMessage rawHpMessage = .ok (exclamationPos, hpMeterData)
  transmitted : extractCrc rawHpMessage exclamationPos = .ok transmittedCrc
  calculated : calculatedCrc = calculateCrc hpMeterData

namespace HanportMessageValidator

/-- The constructor. -/
def new (rawHpMessage : List Byte) : Except String HanportMessageValidator :=
  match hm : extractMessage rawHpMessage with
  | .error e => .error e
  | .ok (exclamationPos, hpMeterData) =>
      match ht : extractCrc rawHpMessage exclamationPos with
      | .error e => .error e
      | .ok transmittedCrc =>
          .ok ⟨rawHpMessage, exclamationPos, hpMeterData, calculateCrc hpMeterData,
            transmittedCrc, hm, ht, rfl⟩

def getCalculatedCrc (v : HanportMessageValidator) : BitVec 16 := v.calculatedCrc

def getTransmittedCrc (v : HanportMessageValidator) : BitVec 16 := v.transmittedCrc

/-- `message_to_string_arr`: the lines of the message part. -/
def messageToStringArr (v : HanportMessageValidator) : Except String (List (List Byte)) :=
  if getlines v.hpMeterData = [] then .error "failed parse hanport_message to string array"
  else .ok (getlines v.hpMeterData)

/-! ## Frames -/

/-- The message is cut at its first `!`. -/
theorem extractMessage_eq {body : List Byte} (hb : '!'.toUInt8 ∉ body) (crc : List Byte) :
    extractMessage (body ++ '!'.toUInt8 :: crc) =
      .ok (body.length, body ++ ['!'.toUInt8]) := by
  have hfind : (body ++ '!'.toUInt8 :: crc).findIdx? (fun b => b = '!'.toUInt8) =
      some body.length := Delimiter.findIdx?_first_split hb crc
  unfold extractMessage
  rw [hfind]
  dsimp only
  rw [List.take_length_add_append]
  rfl

/-- A message whose first `!` has index `n`. -/
theorem split_at_bang {raw : List Byte} {n : ℕ}
    (h : raw.findIdx? (fun b => b = '!'.toUInt8) = some n) :
    ∃ body crc, raw = body ++ '!'.toUInt8 :: crc ∧ body.length = n ∧ '!'.toUInt8 ∉ body := by
  rw [List.findIdx?_eq_some_iff_getElem] at h
  obtain ⟨hn, hbang, hbefore⟩ := h
  refine ⟨raw.take n, raw.drop (n + 1), ?_, ?_, ?_⟩
  · have hhead : raw[n] = '!'.toUInt8 := of_decide_eq_true hbang
    rw [← hhead, ← List.drop_eq_getElem_cons hn, List.take_append_drop]
  · rw [List.length_take, Nat.min_eq_left (Nat.le_of_lt hn)]
  · intro hmem
    obtain ⟨j, hj, hraw⟩ := List.mem_take_iff_getElem.mp hmem
    exact hbefore j (by omega) (decide_eq_true hraw)

theorem crcString_eq (body crc : List Byte) :
    crcString (body ++ '!'.toUInt8 :: crc) body.length =
      crc.filter fun b => b ≠ '\r'.toUInt8 ∧ b ≠ '\n'.toUInt8 := by
  unfold crcString
  rw [List.drop_length_add_append]
  rfl

/-- The constructor succeeds with the object of the raw message or not at
all. -/
theorem new_eq_ok_iff {raw : List Byte} {v : HanportMessageValidator} :
    new raw = .ok v ↔ v.rawHpMessage = raw := by
  constructor
  · intro h
    unfold new at h
    split at h
    · cases h
    · split at h
      · cases h
      · cases h
        rfl
  · rintro rfl
    unfold new
    split
    · rename_i e he
      rw [v.extracted] at he
      cases he
    · rename_i pos data hm
      rw [v.extracted] at hm
      cases hm
      split
      · rename_i e he
        rw [v.transmitted] at he
        cases he
      · rename_i crc ht
        rw [v.transmitted] at ht
        cases ht
        obtain ⟨raw, pos, data, computed, crc, _, _, hc⟩ := v
        subst hc
        rfl

/-- The checks of the constructor and the comparison of `main`: the raw
message passes as valid. -/
def Passes (raw : List Byte) : Prop :=
  ∃ v, new raw = .ok v ∧ v.getCalculatedCrc = v.getTransmittedCrc

instance (raw : List Byte) : Decidable (Passes raw) :=
  match h : new raw with
  | .ok v =>
      decidable_of_iff (v.getCalculatedCrc = v.getTransmittedCrc)
        ⟨fun heq => ⟨v, h, heq⟩, fun ⟨_, hv, heq⟩ => by
          rw [h] at hv
          cases hv
          exact heq⟩
  | .error _ => isFalse fun ⟨_, hv, _⟩ => by
      rw [h] at hv
      cases hv

/-- The CRC is the `int` that `std::stoi` reads from the text, modulo `2^16`. -/
theorem extractCrc_eq_ok_iff (raw : List Byte) (pos : ℕ) (crc : BitVec 16) :
    extractCrc raw pos = .ok crc ↔
      ∃ n, stoi16 (crcString raw pos) = .ok n ∧ crc = BitVec.ofInt 16 n := by
  unfold extractCrc
  constructor
  · intro h
    split_ifs at h
    cases hr : stoi16 (crcString raw pos) with
    | error e =>
        rw [hr] at h
        cases h
    | ok n =>
        rw [hr] at h
        cases h
        exact ⟨n, rfl, rfl⟩
  · rintro ⟨n, hr, rfl⟩
    have hne : crcString raw pos ≠ [] := by
      intro hnil
      rw [hnil] at hr
      cases hr
    rw [if_neg hne, hr]

/-- A message cut at its first `!` passes iff `std::stoi` reads from the bytes
behind it, less CR and LF, an `int` that agrees with the CRC of the message part
modulo `2^16`. -/
theorem passes_iff {body crc : List Byte} (hb : '!'.toUInt8 ∉ body) :
    Passes (body ++ '!'.toUInt8 :: crc) ↔
      ∃ n, stoi16 (crc.filter fun b => b ≠ '\r'.toUInt8 ∧ b ≠ '\n'.toUInt8) = .ok n ∧
        BitVec.ofInt 16 n = calculateCrc (body ++ ['!'.toUInt8]) := by
  have hm := extractMessage_eq hb crc
  have hs := crcString_eq body crc
  constructor
  · intro hpasses
    obtain ⟨v, hv, heq⟩ := hpasses
    obtain ⟨raw, pos, data, computed, t, hext, htr, hcalc⟩ := v
    rw [new_eq_ok_iff] at hv
    dsimp only [getCalculatedCrc, getTransmittedCrc] at hv heq
    subst hv
    rw [hm] at hext
    cases hext
    rw [extractCrc_eq_ok_iff, hs] at htr
    obtain ⟨n, hr, rfl⟩ := htr
    exact ⟨n, hr, by rw [← heq, hcalc]⟩
  · intro hread
    obtain ⟨n, hr, hn⟩ := hread
    have ht : extractCrc (body ++ '!'.toUInt8 :: crc) body.length =
        .ok (BitVec.ofInt 16 n) :=
      (extractCrc_eq_ok_iff _ _ _).mpr ⟨n, hs ▸ hr, rfl⟩
    exact ⟨⟨_, _, _, _, _, hm, ht, rfl⟩, new_eq_ok_iff.mpr rfl, hn.symm⟩

/-- The message part is never empty, so splitting it into lines never
throws. -/
theorem messageToStringArr_eq (v : HanportMessageValidator) :
    v.messageToStringArr = .ok (getlines v.hpMeterData) := by
  have hne : getlines v.hpMeterData ≠ [] := by
    rw [ne_eq, getlines_eq_nil_iff]
    intro hnil
    have hext := v.extracted
    unfold extractMessage at hext
    split at hext
    · cases hext
    · rename_i pos hpos
      rw [hnil, Except.ok.injEq, Prod.mk.injEq, List.take_eq_nil_iff] at hext
      rcases hext.2 with h | h
      · omega
      · rw [h] at hpos
        cases hpos
  exact if_neg hne

end HanportMessageValidator

end Hanport
