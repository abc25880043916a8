import Hanport.Model.HanportMessageValidator

/-!
# The CRC field

What the validator reads from the four bytes behind the `!`. A genuine field
is four hexadecimal digits that spell the CRC (`SpellsCrc`). `std::stoi` reads
such a field as its number (`stoi16_spelled`), and whatever else it accepts
from four bytes has fewer than four digits (`OddSpelling`).
-/

namespace Hanport.HanportMessageValidator

open Lib.Ascii Lib.Strtol

/-- The field is four hexadecimal digits, in any case, that spell the CRC. -/
structure SpellsCrc (field : List Byte) (crc : BitVec 16) : Prop where
  four : field.length = 4
  digit : ∀ b ∈ field, isHexDigit b = true
  value : ofDigits 16 (field.filterMap hexDigit?) = crc.toNat

/-- The field without its CR and LF bytes. -/
def lessNewlines (field : List Byte) : List Byte :=
  field.filter fun b => b ≠ '\r'.toUInt8 ∧ b ≠ '\n'.toUInt8

/-- The field, less CR and LF, reads as a number of fewer than four digits that
agrees with the CRC modulo `2^16`: blanks, a sign, a `0x`, line ends or trailing
bytes take the place of the missing digits. -/
def OddSpelling (field : List Byte) (crc : BitVec 16) : Prop :=
  ∃ n blanks sgn pre digits rest,
    Reads16Parts (lessNewlines field) n blanks sgn pre digits rest ∧
    digits.length < 4 ∧ BitVec.ofInt 16 n = crc

/-! ## Four digits -/

theorem filterMap_hexDigit?_length {ds : List Byte} (h : ∀ b ∈ ds, isHexDigit b = true) :
    (ds.filterMap hexDigit?).length = ds.length := by
  rw [List.length_filterMap_eq_countP, List.countP_eq_length]
  exact h

theorem filterMap_hexDigit?_lt (ds : List Byte) : ∀ d ∈ ds.filterMap hexDigit?, d < 16 := by
  intro d hd
  obtain ⟨b, _, hb⟩ := List.mem_filterMap.mp hd
  exact hexDigit?_lt hb

/-- `k` hexadecimal digits are worth less than `16^k`. -/
theorem ofDigits_hex_lt {ds : List Byte} (h : ∀ b ∈ ds, isHexDigit b = true) :
    ofDigits 16 (ds.filterMap hexDigit?) < 16 ^ ds.length := by
  have hlt := ofDigits_lt (filterMap_hexDigit?_lt ds)
  rwa [filterMap_hexDigit?_length h] at hlt

theorem lessNewlines_digits {ds : List Byte} (h : ∀ b ∈ ds, isHexDigit b = true) :
    lessNewlines ds = ds := by
  unfold lessNewlines
  rw [List.filter_eq_self]
  intro b hb
  rw [decide_eq_true_iff]
  exact ⟨ne_of_isHexDigit (h b hb) rfl, ne_of_isHexDigit (h b hb) rfl⟩

theorem has0x_digits {ds : List Byte} (h : ∀ b ∈ ds, isHexDigit b = true) :
    has0x ds = false := by
  match ds, h with
  | [], _ => rfl
  | [_], _ => rfl
  | [_, _], _ => rfl
  | z :: x :: d :: t, h =>
      have hx := h x (by simp)
      have hlow : x ≠ 'x'.toUInt8 := ne_of_isHexDigit hx rfl
      have hupp : x ≠ 'X'.toUInt8 := ne_of_isHexDigit hx rfl
      simp [has0x, hlow, hupp]

/-- A signed run of digits reads as its number. -/
theorem reads16_signed_digits {sgn ds : List Byte}
    (hs : sgn = [] ∨ sgn = ascii "+" ∨ sgn = ascii "-") (hne : ds ≠ [])
    (h : ∀ b ∈ ds, isHexDigit b = true) :
    Reads16Parts (sgn ++ ds) (signed (sgn = ascii "-") ds) [] sgn [] ds [] where
  text := by simp
  blank := by simp
  sign := hs
  base := .inl ⟨rfl, by rw [List.append_nil]; exact has0x_digits h⟩
  nonempty := hne
  digit := h
  longest := by simp
  value := rfl

/-- `std::stoi` reads four digits as their number. -/
theorem stoi16_spelled {field : List Byte} {crc : BitVec 16} (h : SpellsCrc field crc) :
    stoi16 (lessNewlines field) = .ok (crc.toNat : ℤ) := by
  have hne : field ≠ [] := by
    intro hnil
    have hfour := h.four
    rw [hnil] at hfour
    cases hfour
  have hread := reads16_signed_digits (.inl rfl) hne h.digit
  have hval : signed ([] = ascii "-") field = (crc.toNat : ℤ) := by
    rw [← h.value]
    rfl
  rw [lessNewlines_digits h.digit, stoi16_eq_ok_iff]
  refine ⟨⟨_, _, _, _, _, hval ▸ hread⟩, ?_⟩
  unfold InInt
  omega

/-! ## Fewer than four digits -/

/-- What is read from a field that is not four digits has fewer than four. -/
theorem digits_lt_four {field blanks sgn pre digits rest : List Byte} {n : ℤ}
    (hlen : field.length = 4) (hodd : ¬ ∀ b ∈ field, isHexDigit b = true)
    (h : Reads16Parts (lessNewlines field) n blanks sgn pre digits rest) :
    digits.length < 4 := by
  by_contra hge
  have hfilter : (lessNewlines field).length ≤ 4 := by
    rw [← hlen]
    exact List.length_filter_le _ _
  have htext := congrArg List.length h.text
  simp only [List.length_append] at htext
  have hfull : (lessNewlines field).length = field.length := by omega
  have hself : lessNewlines field = field :=
    (List.filter_sublist).eq_of_length hfull
  have hnil : blanks = [] ∧ sgn = [] ∧ pre = [] ∧ rest = [] := by
    refine ⟨?_, ?_, ?_, ?_⟩ <;> apply List.length_eq_zero_iff.mp <;> omega
  obtain ⟨rfl, rfl, rfl, rfl⟩ := hnil
  have hdigits : field = digits := by
    rw [← hself, h.text]
    simp
  exact hodd (hdigits ▸ h.digit)

/-- Fewer than four digits with a sign are a number below `16^3` in absolute
value. -/
theorem signed_bound (neg : Bool) {digits : List Byte}
    (hd : ∀ b ∈ digits, isHexDigit b = true) (hlen : digits.length < 4) :
    -4096 < signed neg digits ∧ signed neg digits < 4096 := by
  have hlt := ofDigits_hex_lt hd
  have hpow : 16 ^ digits.length ≤ 16 ^ 3 := Nat.pow_le_pow_right (by decide) (by omega)
  unfold signed
  split <;> constructor <;> omega

/-- The CRCs that a number of fewer than four digits can agree with. -/
theorem toNat_of_small {n : ℤ} {crc : BitVec 16} (hlo : -4096 < n) (hhi : n < 4096)
    (h : BitVec.ofInt 16 n = crc) : crc.toNat < 0x1000 ∨ 0xF000 < crc.toNat := by
  subst h
  rw [BitVec.toNat_ofInt]
  omega

/-! ## Writing three digits -/

/-- The digit of a value below 16. -/
def hexChar (d : ℕ) : Byte := if d < 10 then UInt8.ofNat (48 + d) else UInt8.ofNat (55 + d)

theorem hexDigit?_hexChar : ∀ d, d < 16 → hexDigit? (hexChar d) = some d := by decide

/-- The three digits of a number below `16^3`. -/
def hex3 (n : ℕ) : List Byte :=
  [hexChar (n / 256), hexChar (n / 16 % 16), hexChar (n % 16)]

theorem isHexDigit_hex3 {n : ℕ} (h : n < 4096) : ∀ b ∈ hex3 n, isHexDigit b = true := by
  have h1 := hexDigit?_hexChar (n / 256) (by omega)
  have h2 := hexDigit?_hexChar (n / 16 % 16) (by omega)
  have h3 := hexDigit?_hexChar (n % 16) (by omega)
  simp [hex3, isHexDigit, h1, h2, h3]

theorem ofDigits_hex3 {n : ℕ} (h : n < 4096) :
    ofDigits 16 ((hex3 n).filterMap hexDigit?) = n := by
  have h1 := hexDigit?_hexChar (n / 256) (by omega)
  have h2 := hexDigit?_hexChar (n / 16 % 16) (by omega)
  have h3 := hexDigit?_hexChar (n % 16) (by omega)
  simp only [hex3, List.filterMap_cons, List.filterMap_nil, h1, h2, h3, ofDigits,
    List.foldl_cons, List.foldl_nil]
  omega

/-- A sign and three digits take the place of four digits. -/
theorem oddSpelling_signed_hex3 {sgn : List Byte} (hs : sgn = ascii "+" ∨ sgn = ascii "-")
    {n : ℕ} (h : n < 4096) :
    (sgn ++ hex3 n).length = 4 ∧ '/'.toUInt8 ∉ sgn ++ hex3 n ∧
      (¬ ∀ b ∈ sgn ++ hex3 n, isHexDigit b = true) ∧
      OddSpelling (sgn ++ hex3 n)
        (BitVec.ofInt 16 (if sgn = ascii "-" then -(n : ℤ) else (n : ℤ))) := by
  have hdigit := isHexDigit_hex3 h
  have hread := reads16_signed_digits (.inr hs) (by simp [hex3]) hdigit
  have hval : signed (sgn = ascii "-") (hex3 n) =
      if sgn = ascii "-" then -(n : ℤ) else (n : ℤ) := by
    unfold signed
    rw [ofDigits_hex3 h]
    simp
  have hslash : '/'.toUInt8 ∉ hex3 n := fun hmem => ne_of_isHexDigit (hdigit _ hmem) rfl rfl
  have hkeep : lessNewlines (sgn ++ hex3 n) = sgn ++ hex3 n := by
    have hsgn : lessNewlines sgn = sgn := by rcases hs with rfl | rfl <;> rfl
    show List.filter _ (sgn ++ hex3 n) = _
    rw [List.filter_append]
    exact congrArg₂ (· ++ ·) hsgn (lessNewlines_digits hdigit)
  have hodd : OddSpelling (sgn ++ hex3 n)
      (BitVec.ofInt 16 (if sgn = ascii "-" then -(n : ℤ) else (n : ℤ))) := by
    refine ⟨_, [], sgn, [], hex3 n, [], ?_, Nat.lt_succ_self 3, rfl⟩
    rw [hkeep, ← hval]
    exact hread
  rcases hs with rfl | rfl
  · refine ⟨rfl, ?_, fun hall => ne_of_isHexDigit (hall _ List.mem_cons_self) rfl rfl, hodd⟩
    exact fun hmem => (List.mem_append.mp hmem).elim (by decide) hslash
  · refine ⟨rfl, ?_, fun hall => ne_of_isHexDigit (hall _ List.mem_cons_self) rfl rfl, hodd⟩
    exact fun hmem => (List.mem_append.mp hmem).elim (by decide) hslash

/-- Every CRC outside the range of four significant digits has an odd
spelling. -/
theorem exists_oddSpelling (crc : BitVec 16)
    (h : crc.toNat < 0x1000 ∨ 0xF000 < crc.toNat) :
    ∃ field, field.length = 4 ∧ '/'.toUInt8 ∉ field ∧ (¬ ∀ b ∈ field, isHexDigit b = true) ∧
      OddSpelling field crc := by
  rcases h with h | h
  · have hcrc : BitVec.ofInt 16 (if ascii "+" = ascii "-" then -(crc.toNat : ℤ) else crc.toNat) =
        crc := by
      rw [if_neg (by decide)]
      simp
    exact ⟨_, hcrc ▸ oddSpelling_signed_hex3 (.inl rfl) (by omega : crc.toNat < 4096)⟩
  · have hcrc : BitVec.ofInt 16 (if ascii "-" = ascii "-" then -((2 ^ 16 - crc.toNat : ℕ) : ℤ)
        else ((2 ^ 16 - crc.toNat : ℕ) : ℤ)) = crc := by
      rw [if_pos rfl]
      apply BitVec.eq_of_toNat_eq
      rw [BitVec.toNat_ofInt]
      omega
    exact ⟨_, hcrc ▸ oddSpelling_signed_hex3 (.inr rfl) (by omega : 2 ^ 16 - crc.toNat < 4096)⟩

end Hanport.HanportMessageValidator
