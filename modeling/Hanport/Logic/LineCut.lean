import Hanport.Logic.LineWrites

/-!
# How `set_value` cuts a line of any length

The index of the `*` is cast to `int`. Below `2^31` the text between `(` and `*`
is converted (`setValue_eq`); from there on the cast wraps, and the text is cut
short, or is taken to the end of the line, or the `*` counts as missing
(`setValue_cut`).
-/

namespace Hanport.HpDataParser

open Lib Lib.Ascii

/-- A line of a value: its code, `(`, the text of the value, `*` and the rest. -/
def valueLine (code text rest : List Byte) : List Byte :=
  code ++ '('.toUInt8 :: (text ++ '*'.toUInt8 :: rest)

/-- The index of the first byte of the value. -/
def valueStart (code : List Byte) : ℕ := code.length + 1

/-- The index of the `*`. -/
def starIndex (code text : List Byte) : ℕ := valueStart code + text.length

/-- The `int` that the index of the `*` becomes. -/
def starInt (code text : List Byte) : ℤ := toInt (some (starIndex code text))

/-- The part of the line that is converted. -/
def valueCut (code text rest : List Byte) : List Byte :=
  if starInt code text < valueStart code then text ++ '*'.toUInt8 :: rest
  else text.take (starInt code text - valueStart code).toNat

theorem starInt_eq (code text : List Byte) :
    starInt code text = (BitVec.ofNat 32 (starIndex code text)).toInt := rfl

theorem starInt_le (code text : List Byte) : starInt code text ≤ starIndex code text := by
  rw [starInt_eq, BitVec.toInt_eq_toNat_cond, BitVec.toNat_ofNat]
  split <;> omega

theorem starInt_bounds (code text : List Byte) :
    -2 ^ 31 ≤ starInt code text ∧ starInt code text < 2 ^ 31 :=
  ⟨BitVec.le_toInt _, BitVec.toInt_lt⟩

/-- An index that the cast changes is changed by a multiple of `2^32`. -/
theorem starInt_wraps {code text : List Byte} (h : starInt code text ≠ starIndex code text) :
    starInt code text + 2 ^ 32 ≤ starIndex code text := by
  rw [starInt_eq, BitVec.toInt_eq_toNat_cond, BitVec.toNat_ofNat] at h ⊢
  split at h <;> omega

section Cut

variable {code text : List Byte} (rest : List Byte)

theorem toInt_open (hopen : '('.toUInt8 ∉ code) (hcode : valueStart code < 2 ^ 31) :
    toInt (find (valueLine code text rest) '('.toUInt8) = code.length := by
  unfold valueStart at hcode
  rw [valueLine, find_first_split hopen, toInt_some (by omega)]

theorem find_star (hstar : '*'.toUInt8 ∉ code) (htext : '*'.toUInt8 ∉ text) :
    find (valueLine code text rest) '*'.toUInt8 = some (starIndex code text) := by
  have hsplit : valueLine code text rest =
      (code ++ '('.toUInt8 :: text) ++ '*'.toUInt8 :: rest := by simp [valueLine]
  have hbefore : '*'.toUInt8 ∉ code ++ '('.toUInt8 :: text := by
    simp only [List.mem_append, List.mem_cons, not_or]
    exact ⟨hstar, by decide, htext⟩
  have hlen : (code ++ '('.toUInt8 :: text).length = starIndex code text := by
    simp only [List.length_append, List.length_cons, starIndex, valueStart]
    omega
  rw [hsplit, find_first_split hbefore, hlen]

theorem toInt_star (hstar : '*'.toUInt8 ∉ code) (htext : '*'.toUInt8 ∉ text) :
    toInt (find (valueLine code text rest) '*'.toUInt8) = starInt code text := by
  rw [find_star rest hstar htext]
  rfl

/-- The bytes that `substr` takes: none are missing, and a negative count takes all
that a string can hold. -/
theorem substr_value (hcode : valueStart code < 2 ^ 31)
    (hsize : starInt code text < valueStart code → (valueLine code text rest).length < 2 ^ 63) :
    substr (valueLine code text rest) (code.length + 1)
      (starInt code text - (code.length + 1)) = some (valueCut code text rest) := by
  have hlen : (valueLine code text rest).length =
      valueStart code + (text ++ '*'.toUInt8 :: rest).length := by
    simp only [valueLine, valueStart, List.length_append, List.length_cons]
    omega
  have hstart : (code.length : ℤ) + 1 = (valueStart code : ℕ) := rfl
  have hpos : toSize ((code.length : ℤ) + 1) = valueStart code := by
    rw [hstart, toSize_natCast (by omega)]
  have hdrop : (valueLine code text rest).drop (valueStart code) = text ++ '*'.toUInt8 :: rest := by
    have hsplit : valueLine code text rest =
        (code ++ ['('.toUInt8]) ++ (text ++ '*'.toUInt8 :: rest) := by simp [valueLine]
    rw [hsplit]
    exact List.drop_left' (by simp [valueStart])
  have hbounds := starInt_bounds code text
  have hle := starInt_le code text
  unfold substr
  rw [hpos, if_pos (by omega), hdrop]
  congr 1
  unfold valueCut
  by_cases hneg : starInt code text < valueStart code
  · have hall := hsize hneg
    rw [if_pos hneg, List.take_of_length_le]
    unfold toSize
    unfold valueStart at hneg hlen hcode
    omega
  · have hcount : toSize (starInt code text - (code.length + 1)) =
        (starInt code text - valueStart code).toNat := by
      unfold toSize
      unfold valueStart at hneg ⊢
      omega
    rw [if_neg hneg, hcount, List.take_append_of_le_length]
    unfold starIndex at hle
    omega

/-- **The cut of a line.** -/
theorem setValue_cut (stof : List Byte → Option Binary32) (hopen : '('.toUInt8 ∉ code)
    (hstar : '*'.toUInt8 ∉ code) (htext : '*'.toUInt8 ∉ text) (hcode : valueStart code < 2 ^ 31)
    (hsize : starInt code text < valueStart code → (valueLine code text rest).length < 2 ^ 63) :
    setValue stof (valueLine code text rest) =
      if starInt code text = -1 then .error "failed to locate '*' in value line"
      else match stof (valueCut code text rest) with
        | some value => .ok value
        | none => .error "failed to convert string to float for value" := by
  unfold setValue intNpos
  simp only [toInt_open rest hopen hcode, toInt_star rest hstar htext,
    substr_value rest hcode hsize]
  rw [if_neg (by omega)]
  rfl

/-- Below `2^31` the whole text is converted. -/
theorem setValue_eq (stof : List Byte → Option Binary32) (hopen : '('.toUInt8 ∉ code)
    (hstar : '*'.toUInt8 ∉ code) (htext : '*'.toUInt8 ∉ text)
    (hlen : starIndex code text < 2 ^ 31) :
    setValue stof (valueLine code text rest) =
      match stof text with
      | some value => .ok value
      | none => .error "failed to convert string to float for value" := by
  have hint : starInt code text = starIndex code text := toInt_some hlen
  have hcut : valueCut code text rest = text := by
    have hcount : (starInt code text - valueStart code).toNat = text.length := by
      rw [hint]
      unfold starIndex
      omega
    unfold valueCut
    rw [if_neg (by rw [hint]; unfold starIndex; omega), hcount, List.take_length]
  unfold starIndex at hint hlen
  rw [setValue_cut rest stof hopen hstar htext (by omega) (by omega), hcut, if_neg (by omega)]

end Cut

end Hanport.HpDataParser
