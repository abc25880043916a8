import Mathlib

/-!
# Bytes and ASCII character classes

Byte strings as lists of `UInt8`, the bytes of an ASCII literal, and the
character classes of the C locale that the C and C++ libraries use.
-/

namespace Lib.Ascii

abbrev Byte := UInt8

/-- The bytes of an ASCII text. -/
def ascii (s : String) : List Byte := s.toList.map Char.toUInt8

/-- The text with these bytes as its characters. -/
def text (bs : List Byte) : String := String.ofList (bs.map Char.ofUInt8)

/-- `isspace`: blank, tab, line feed, vertical tab, form feed, carriage
return. -/
def isSpace (b : Byte) : Bool :=
  b == ' '.toUInt8 || (9 ≤ b && b ≤ 13)

/-- Value of a decimal digit. -/
def decDigit? (b : Byte) : Option ℕ :=
  if '0'.toUInt8 ≤ b ∧ b ≤ '9'.toUInt8 then some (b.toNat - 48) else none

/-- Value of a hexadecimal digit in either case. -/
def hexDigit? (b : Byte) : Option ℕ :=
  if '0'.toUInt8 ≤ b ∧ b ≤ '9'.toUInt8 then some (b.toNat - 48)
  else if 'a'.toUInt8 ≤ b ∧ b ≤ 'f'.toUInt8 then some (b.toNat - 87)
  else if 'A'.toUInt8 ≤ b ∧ b ≤ 'F'.toUInt8 then some (b.toNat - 55)
  else none

/-- Value of a digit string in a base, most significant digit first. -/
def ofDigits (base : ℕ) (ds : List ℕ) : ℕ := ds.foldl (fun acc d => acc * base + d) 0

def isHexDigit (b : Byte) : Bool := (hexDigit? b).isSome

/-- The text keeps every byte. -/
@[simp] theorem ascii_text (bs : List Byte) : ascii (text bs) = bs := by
  have hbyte : ∀ b ∈ bs, (Char.toUInt8 ∘ Char.ofUInt8) b = b :=
    fun b _ => UInt8.toUInt8_toUInt32 b
  unfold ascii text
  rw [String.toList_ofList, List.map_map]
  exact (List.map_congr_left hbyte).trans (List.map_id' bs)

/-! ## The classes as ranges of codes -/

theorem isSpace_iff (b : Byte) :
    isSpace b = true ↔ b.toNat = 32 ∨ (9 ≤ b.toNat ∧ b.toNat ≤ 13) := by
  simp only [isSpace, Bool.or_eq_true, beq_iff_eq, Bool.and_eq_true, decide_eq_true_eq,
    UInt8.le_iff_toNat_le, ← UInt8.toNat_inj]
  rfl

theorem isHexDigit_iff (b : Byte) :
    isHexDigit b = true ↔ (48 ≤ b.toNat ∧ b.toNat ≤ 57) ∨ (97 ≤ b.toNat ∧ b.toNat ≤ 102) ∨
      (65 ≤ b.toNat ∧ b.toNat ≤ 70) := by
  have h0 : '0'.toUInt8.toNat = 48 := rfl
  have h9 : '9'.toUInt8.toNat = 57 := rfl
  have ha : 'a'.toUInt8.toNat = 97 := rfl
  have hf : 'f'.toUInt8.toNat = 102 := rfl
  have hA : 'A'.toUInt8.toNat = 65 := rfl
  have hF : 'F'.toUInt8.toNat = 70 := rfl
  unfold isHexDigit hexDigit?
  simp only [UInt8.le_iff_toNat_le, h0, h9, ha, hf, hA, hF]
  split_ifs <;> simp <;> omega

/-- A hexadecimal digit is none of the other bytes. -/
theorem ne_of_isHexDigit {b c : Byte} (hb : isHexDigit b = true) (hc : isHexDigit c = false) :
    b ≠ c := by
  intro h
  rw [h, hc] at hb
  cases hb

theorem hexDigit?_lt {b : Byte} {d : ℕ} (h : hexDigit? b = some d) : d < 16 := by
  unfold hexDigit? at h
  have h9 : '9'.toUInt8.toNat = 57 := rfl
  have hf : 'f'.toUInt8.toNat = 102 := rfl
  have hF : 'F'.toUInt8.toNat = 70 := rfl
  simp only [UInt8.le_iff_toNat_le, h9, hf, hF] at h
  split_ifs at h <;> simp at h <;> omega

/-- `n` digits are worth less than the `n`-th power of the base. -/
theorem ofDigits_lt {base : ℕ} {ds : List ℕ} (h : ∀ d ∈ ds, d < base) :
    ofDigits base ds < base ^ ds.length := by
  induction ds using List.reverseRecOn with
  | nil => simp [ofDigits]
  | append_singleton ds d ih =>
      have hd : d < base := h d (by simp)
      have hlt := ih fun x hx => h x (by simp [hx])
      unfold ofDigits at hlt ⊢
      rw [List.foldl_append, List.length_append, List.length_singleton, pow_succ]
      show _ * base + d < _
      calc _ < (ds.foldl (fun acc d => acc * base + d) 0 + 1) * base := by
            rw [Nat.add_mul, Nat.one_mul]
            omega
        _ ≤ base ^ ds.length * base := Nat.mul_le_mul_right base hlt

end Lib.Ascii
