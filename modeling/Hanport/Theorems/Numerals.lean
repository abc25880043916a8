import Hanport.Lib.DecimalText
import Hanport.Theorems.ValueCut

/-!
# From which texts a value is stored

`set_value` leaves the check of its text to `std::stof`, which skips leading blanks
and ignores what stands behind the numeral. So a line with a known code stores a value
iff both delimiters are there and the text between them is converted; a text that is a
numeral as a whole is stored as the nearest `float`.
-/

namespace Hanport.HpDataParser

open Lib Lib.Ascii Lib.Delimiter Lib.Strtof

/-- The text between the first `(` of the line and the first `*`. -/
def Between (line text : List Byte) : Prop :=
  ∃ code rest, line = valueLine code text rest ∧
    '('.toUInt8 ∉ code ∧ '*'.toUInt8 ∉ code ∧ '*'.toUInt8 ∉ text

/-- `parse_electricity_data` assigns the value to the field. -/
def Stores (line : List Byte) (d : HpData) (f : Field) (v : Binary32) : Prop :=
  parseElectricityData stof line (obisCode line) d = .ok (d.set f v)

/-- `parse_electricity_data` throws, and `parse_message` stops at the line with the
object as it was. -/
def Throws (line : List Byte) (d : HpData) : Prop :=
  ∃ e, parseElectricityData stof line (obisCode line) d = .error e ∧
    ∀ rest, ¬ Skipped line → parseLines stof (line :: rest) d = (d, .error e)

theorem between_unique {line text text' : List Byte} (h : Between line text)
    (h' : Between line text') : text = text' := by
  obtain ⟨code, rest, hline, hopen, -, htext⟩ := h
  obtain ⟨code', rest', hline', hopen', -, htext'⟩ := h'
  obtain ⟨-, htail⟩ := first_split_unique hopen hopen' (hline.symm.trans hline')
  exact (first_split_unique htext htext' htail).1

theorem throws_of_error {line : List Byte} {d : HpData} {e : String}
    (h : parseElectricityData stof line (obisCode line) d = .error e) : Throws line d := by
  refine ⟨e, h, fun rest hs => ?_⟩
  rw [parseLines, if_neg hs, h]

section Known

variable {line : List Byte} {f : Field} (h : target (obisCode line) = some f)
include h

/-- Without a text between the delimiters the line throws. -/
theorem throws_of_not_between (hno : ∀ text, ¬ Between line text) (d : HpData) :
    Throws line d := by
  have hknown := parseElectricityData_known stof h d
  rcases line_cases h with ⟨hopen, -⟩ | ⟨code, tail, rfl, hopen, hstar, hcode⟩ |
    ⟨code, text, rest, rfl, -, hopen, hstar, htext, -⟩
  · rw [setValue_no_open hopen] at hknown
    exact throws_of_error hknown
  · rw [setValue_no_star hopen hcode hstar] at hknown
    exact throws_of_error hknown
  · exact absurd ⟨code, rest, rfl, hopen, hstar, htext⟩ (hno text)

variable (hint : ∀ pos, find line '*'.toUInt8 = some pos → pos < 2 ^ 31)
include hint

theorem parseElectricityData_between {text : List Byte} (hb : Between line text) (d : HpData) :
    parseElectricityData stof line (obisCode line) d =
      match stof text with
      | some value => .ok (d.set f value)
      | none => .error "failed to convert string to float for value" := by
  obtain ⟨code, rest, rfl, hopen, hstar, htext⟩ := hb
  have hlt := hint _ (find_star rest hstar htext)
  rw [parseElectricityData_known stof h, setValue_eq rest stof hopen hstar htext hlt]
  cases stof text with
  | some value => rfl
  | none => rfl

theorem stores_of_between {text : List Byte} {v : Binary32} (hb : Between line text)
    (hv : stof text = some v) (d : HpData) : Stores line d f v := by
  unfold Stores
  rw [parseElectricityData_between h hint hb, hv]

theorem throws_of_between {text : List Byte} (hb : Between line text) (hv : stof text = none)
    (d : HpData) : Throws line d := by
  have hparse := parseElectricityData_between h hint hb d
  rw [hv] at hparse
  exact throws_of_error hparse

/-- The line stores the value of its text, or it throws. -/
theorem stores_or_throws (d : HpData) :
    (∃ text v, Between line text ∧ stof text = some v ∧ Stores line d f v) ∨
      (∀ text, Between line text → stof text = none) ∧ Throws line d := by
  by_cases hbetween : ∃ text, Between line text
  · obtain ⟨text, hb⟩ := hbetween
    cases hv : stof text with
    | some v => exact .inl ⟨text, v, hb, hv, stores_of_between h hint hb hv d⟩
    | none =>
        refine .inr ⟨fun text' hb' => ?_, throws_of_between h hint hb hv d⟩
        rwa [between_unique hb' hb]
  · push Not at hbetween
    exact .inr ⟨fun text hb => absurd hb (hbetween text), throws_of_not_between h hbetween d⟩

/-- A numeral is stored as the nearest `float` with its sign, unless it is out of
range. -/
theorem numeral_stored {text : List Byte} {neg : Bool} {N k : ℕ} (hb : Between line text)
    (hnum : IsNumeral text neg N k) (d : HpData) :
    (InFloatRange N k →
      ∃ v, Stores line d f v ∧ v.neg = neg ∧ v.Nearest (numeralValue neg N k)) ∧
    (¬ InFloatRange N k → Throws line d) := by
  have hstof := stof_of_isNumeral hnum
  constructor
  · intro hrange
    rw [if_pos hrange] at hstof
    exact ⟨_, stores_of_between h hint hb hstof d, Binary32.neg_ofUnits _ _ _,
      ofUnits_nearest_numeral neg hrange⟩
  · intro hrange
    rw [if_neg hrange] at hstof
    exact throws_of_between h hint hb hstof d

/-- **Stored or thrown.** For every line with a known code whose first `*`, if there is
one, is at an index below `2^31`: a value is stored iff there is a text between the
delimiters that `std::stof` converts, and it is the value of this text; else the line
throws and changes nothing. A text that is a numeral as a whole is stored as the nearest
`float`, or throws out of range; one that begins with no numeral throws. -/
theorem stored_iff (d : HpData) :
    (∀ d', parseElectricityData stof line (obisCode line) d = .ok d' ↔
      ∃ text v, Between line text ∧ stof text = some v ∧ d' = d.set f v) ∧
    (Throws line d ↔ ∀ text, Between line text → stof text = none) ∧
    ∀ text, Between line text →
      (∀ neg N k, IsNumeral text neg N k →
        (InFloatRange N k →
          ∃ v, Stores line d f v ∧ v.neg = neg ∧ v.Nearest (numeralValue neg N k)) ∧
        (¬ InFloatRange N k → Throws line d)) ∧
      (¬ BeginsNumeral (Strtol.sign (text.dropWhile isSpace)).2 → Throws line d) := by
  refine ⟨fun d' => ?_, ?_, fun text hb => ⟨fun neg N k hnum => ?_, fun hno => ?_⟩⟩
  · constructor
    · intro hok
      rcases stores_or_throws h hint d with ⟨text, v, hb, hv, hstores⟩ | ⟨-, e, he, -⟩
      · unfold Stores at hstores
        rw [hstores, Except.ok.injEq] at hok
        exact ⟨text, v, hb, hv, hok.symm⟩
      · rw [he] at hok
        cases hok
    · rintro ⟨text, v, hb, hv, rfl⟩
      exact stores_of_between h hint hb hv d
  · constructor
    · rintro ⟨e, he, -⟩
      rcases stores_or_throws h hint d with ⟨text, v, -, -, hstores⟩ | ⟨hnone, -⟩
      · unfold Stores at hstores
        rw [hstores] at he
        cases he
      · exact hnone
    · intro hnone
      rcases stores_or_throws h hint d with ⟨text, v, hb, hv, -⟩ | ⟨-, hthrows⟩
      · rw [hnone text hb] at hv
        cases hv
      · exact hthrows
  · exact numeral_stored h hint hb hnum d
  · exact throws_of_between h hint hb (stof_of_not_begins hno) d

end Known

/-- 1.727 kW. -/
theorem stored_active_power :
    ∃ v, Stores (ascii "1-0:1.7.0(0001.727*kW)") {} .activePowerImport v ∧ v.neg = false ∧
      v.Nearest (1727 / 10 ^ 3) := by
  have h : target (obisCode (ascii "1-0:1.7.0(0001.727*kW)")) = some .activePowerImport := rfl
  have hfind : find (ascii "1-0:1.7.0(0001.727*kW)") '*'.toUInt8 = some 18 := rfl
  have hb : Between (ascii "1-0:1.7.0(0001.727*kW)") (ascii "0001.727") :=
    ⟨ascii "1-0:1.7.0", ascii "kW)", by decide⟩
  have hwhole : ∀ b ∈ ascii "0001", isDecDigit b = true := List.all_eq_true.mp rfl
  have hfrac : ∀ b ∈ ascii "727", isDecDigit b = true := List.all_eq_true.mp rfl
  have hnum : IsNumeral (ascii "0001.727") false 1727 3 :=
    .pointed .none hwhole (by decide) hfrac (by decide)
  have hrange : InFloatRange 1727 3 := by decide
  exact (((stored_iff h (star_lt hfind (by omega)) {}).2.2 _ hb).1 false 1727 3 hnum).1 hrange

/-- 12 is stored from `12abc`. -/
theorem letters_ignored :
    ¬ ∀ (line : List Byte) (f : Field) (d d' : HpData), target (obisCode line) = some f →
      parseElectricityData stof line (obisCode line) d = .ok d' →
      ∃ text neg N k v, Between line text ∧ IsNumeral text neg N k ∧
        v.Nearest (numeralValue neg N k) ∧ d' = d.set f v := by
  intro hall
  have h : target (obisCode (ascii "1-0:1.7.0(12abc*kW)")) = some .activePowerImport := rfl
  have hfind : find (ascii "1-0:1.7.0(12abc*kW)") '*'.toUInt8 = some 15 := rfl
  have hb : Between (ascii "1-0:1.7.0(12abc*kW)") (ascii "12abc") :=
    ⟨ascii "1-0:1.7.0", ascii "kW)", by decide⟩
  have hv : stof (ascii "12abc") = some ⟨0x41400000#32⟩ := by decide +kernel
  have hstores := stores_of_between h (star_lt hfind (by omega)) hb hv {}
  obtain ⟨text, neg, N, k, -, hb', hnum, -⟩ := hall _ _ _ _ h hstores
  rw [between_unique hb' hb] at hnum
  rcases hnum.bytes 'a'.toUInt8 (by decide) with hbyte | hbyte | hbyte
  · exact absurd hbyte.range (by decide)
  · exact absurd hbyte (by decide)
  · exact absurd hbyte (by decide)

end Hanport.HpDataParser
