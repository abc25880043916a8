import Hanport.Logic.CrcField
import Hanport.Logic.Frames

/-!
# Which CRC fields the validator accepts

A frame passes when `std::stoi` makes the transmitted CRC out of its last four
bytes. Four hexadecimal digits are read as they stand; a frame with any other
field passes exactly when the field is an odd spelling of the CRC, and such
spellings exist exactly for the CRCs outside `0x1000 .. 0xF000`.
-/

namespace Hanport.HanportMessageValidator

open Lib.Ascii Lib.Strtol HpSerialRead

/-- The CRC of the frame with this body: of the bytes from `/` to `!`. -/
def bodyCrc (body : List Byte) : BitVec 16 := calculateCrc (slash :: body ++ [bang])

theorem passes_frame_iff {body field : List Byte} (hb : bang ∉ body) :
    Passes (frame body field) ↔
      ∃ n, stoi16 (lessNewlines field) = .ok n ∧ BitVec.ofInt 16 n = bodyCrc body := by
  have hbang : '!'.toUInt8 ∉ slash :: body := by
    rw [List.mem_cons, not_or]
    exact ⟨slash_ne_bang.symm, hb⟩
  exact passes_iff hbang

/-- A genuine field passes. -/
theorem passes_of_spellsCrc {body field : List Byte} (hb : bang ∉ body)
    (h : SpellsCrc field (bodyCrc body)) : Passes (frame body field) := by
  rw [passes_frame_iff hb]
  refine ⟨_, stoi16_spelled h, ?_⟩
  simp

/-- **What passes.** A frame passes iff its field is genuine or an odd
spelling of the CRC that is not four digits. -/
theorem passes_frame_iff_spelling {body field : List Byte} (hb : bang ∉ body)
    (hlen : field.length = 4) :
    Passes (frame body field) ↔ SpellsCrc field (bodyCrc body) ∨
      (¬ ∀ b ∈ field, isHexDigit b = true) ∧ OddSpelling field (bodyCrc body) := by
  by_cases hdigit : ∀ b ∈ field, isHexDigit b = true
  · have hspelled : SpellsCrc field (BitVec.ofNat 16 (ofDigits 16 (field.filterMap hexDigit?))) := by
      refine ⟨hlen, hdigit, ?_⟩
      have hlt := ofDigits_hex_lt hdigit
      rw [hlen] at hlt
      rw [BitVec.toNat_ofNat]
      omega
    have hread := stoi16_spelled hspelled
    constructor
    · intro hpass
      obtain ⟨n, hn, hcrc⟩ := (passes_frame_iff hb).mp hpass
      rw [hread] at hn
      cases hn
      have heq : BitVec.ofNat 16 (ofDigits 16 (field.filterMap hexDigit?)) = bodyCrc body := by
        rw [← hcrc, BitVec.ofInt_natCast, BitVec.ofNat_toNat, BitVec.setWidth_eq]
      exact .inl (heq ▸ hspelled)
    · rintro (hgood | ⟨hodd, _⟩)
      · exact passes_of_spellsCrc hb hgood
      · exact absurd hdigit hodd
  · rw [passes_frame_iff hb]
    constructor
    · intro hpasses
      obtain ⟨n, hn, hcrc⟩ := hpasses
      obtain ⟨⟨blanks, sgn, pre, digits, rest, hparts⟩, _⟩ := (stoi16_eq_ok_iff _ _).mp hn
      exact .inr ⟨hdigit, n, _, _, _, _, _, hparts, digits_lt_four hlen hdigit hparts, hcrc⟩
    · rintro (hgood | ⟨_, n, blanks, sgn, pre, digits, rest, hparts, hfew, hcrc⟩)
      · exact absurd hgood.digit hdigit
      · have hbound := signed_bound (decide (sgn = ascii "-")) hparts.digit hfew
        rw [← hparts.value] at hbound
        refine ⟨n, (stoi16_eq_ok_iff _ _).mpr ⟨⟨_, _, _, _, _, hparts⟩, ?_⟩, hcrc⟩
        unfold InInt
        omega

/-- A frame with the field `field` can be returned by `hpRead`. -/
def Returnable (body field : List Byte) : Prop :=
  ∃ reads rest, hpRead reads = some (frame body field, rest)

/-- A frame passes without a genuine field iff its field is an odd
spelling. -/
theorem passes_genuine_iff {body field : List Byte} (hb : bang ∉ body)
    (hlen : field.length = 4) :
    (Passes (frame body field) → SpellsCrc field (bodyCrc body)) ↔
      (∀ b ∈ field, isHexDigit b = true) ∨ ¬ OddSpelling field (bodyCrc body) := by
  rw [passes_frame_iff_spelling hb hlen]
  constructor
  · intro h
    by_cases hdigit : ∀ b ∈ field, isHexDigit b = true
    · exact .inl hdigit
    · exact .inr fun hodd => hdigit (h (.inr ⟨hdigit, hodd⟩)).digit
  · intro h hspelling
    rcases hspelling with hgood | ⟨hdigit, hodd⟩
    · exact hgood
    · rcases h with hall | hnot
      · exact absurd hall hdigit
      · exact absurd hodd hnot

/-- The CRCs that have odd spellings. -/
theorem OddSpelling.crc_range {field : List Byte} {crc : BitVec 16} (h : OddSpelling field crc) :
    crc.toNat < 0x1000 ∨ 0xF000 < crc.toNat := by
  obtain ⟨n, blanks, sgn, pre, digits, rest, hparts, hfew, hcrc⟩ := h
  have hbound := signed_bound (decide (sgn = ascii "-")) hparts.digit hfew
  rw [← hparts.value] at hbound
  exact toNat_of_small hbound.1 hbound.2 hcrc

/-- **Only genuine CRC fields pass, odd spellings apart.** For every frame that
`hpRead` can return, passing implies a genuine field iff the field is four
hexadecimal digits or is no odd spelling of the CRC. A body admits nothing but
genuine fields iff its CRC lies in `0x1000 .. 0xF000`. -/
theorem passes_only_genuine_iff {body : List Byte} (hs : slash ∉ body) (hb : bang ∉ body) :
    (∀ field, Returnable body field →
      ((Passes (frame body field) → SpellsCrc field (bodyCrc body)) ↔
        (∀ b ∈ field, isHexDigit b = true) ∨ ¬ OddSpelling field (bodyCrc body))) ∧
    ((∀ field, Returnable body field → Passes (frame body field) →
        SpellsCrc field (bodyCrc body)) ↔
      0x1000 ≤ (bodyCrc body).toNat ∧ (bodyCrc body).toNat ≤ 0xF000) := by
  have hframe : ∀ field, Returnable body field ↔ slash ∉ field ∧ field.length = 4 := by
    intro field
    unfold Returnable
    rw [hpRead_returns_iff, isFrame_parts hb]
    exact and_iff_right hs
  refine ⟨fun field hf => passes_genuine_iff hb ((hframe field).mp hf).2, ?_, ?_⟩
  · intro hall
    by_contra hout
    obtain ⟨field, hlen, hslash, hdigit, hodd⟩ := exists_oddSpelling (bodyCrc body) (by omega)
    have hpass := hall field ((hframe field).mpr ⟨hslash, hlen⟩)
    rcases (passes_genuine_iff hb hlen).mp hpass with h | h
    · exact hdigit h
    · exact h hodd
  · intro hcrc field hf
    apply (passes_genuine_iff hb ((hframe field).mp hf).2).mpr
    refine .inr fun hodd => ?_
    have := hodd.crc_range
    omega

/-- The CRC of the body `a` is `0x41d8`, so a field that passes behind it is
genuine. -/
theorem passes_only_genuine_of_crc_41d8 :
    Passes (frame (ascii "a") (ascii "41D8")) ∧
      SpellsCrc (ascii "41D8") (bodyCrc (ascii "a")) := by
  have hs : slash ∉ ascii "a" := by decide
  have hb : bang ∉ ascii "a" := by decide
  have hcrc : bodyCrc (ascii "a") = 0x41d8#16 := by decide +kernel
  have hpass : Passes (frame (ascii "a") (ascii "41D8")) := by decide +kernel
  have hreturn : Returnable (ascii "a") (ascii "41D8") :=
    ⟨oneByteReads (ascii "/a!41D8"), [], rfl⟩
  have hgenuine := (passes_only_genuine_iff hs hb).2.mpr (by
    rw [hcrc]
    decide)
  exact ⟨hpass, hgenuine _ hreturn hpass⟩

/-- The body `10` has the CRC `0x038d`; the frame `/10!38d` with a CR in the
place of a digit passes. -/
theorem passes_with_cr_for_digit :
    ¬ ∀ body field, Returnable body field → bang ∉ body → Passes (frame body field) →
      SpellsCrc field (bodyCrc body) := by
  intro hall
  have hb : bang ∉ ascii "10" := by decide
  have hreturn : Returnable (ascii "10") (ascii "38d\r") :=
    ⟨oneByteReads (ascii "/10!38d\r"), [], rfl⟩
  have hpass : Passes (frame (ascii "10") (ascii "38d\r")) :=
    (passes_frame_iff hb).mpr ⟨0x38d, rfl, by decide +kernel⟩
  have hspells := hall _ _ hreturn hb hpass
  exact ne_of_isHexDigit (hspells.digit '\r'.toUInt8 (by simp [ascii])) rfl rfl

end Hanport.HanportMessageValidator
