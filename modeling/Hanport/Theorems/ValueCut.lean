import Hanport.Theorems.Parsing

/-!
# Where `set_value` cuts a line with a known code

`set_value` does not compare its two positions. A known code holds neither
delimiter, so the first `*` of such a line is behind its first `(`, and the count
between them is right as long as the index of the `*` is an `int`; from `2^31` on it
never is.
-/

namespace Hanport.HpDataParser

open Lib Lib.Ascii Lib.Delimiter

/-- `read_x_chars` -/
def readXChars (line : List Byte) : ℤ :=
  toInt (find line '*'.toUInt8) - (toInt (find line '('.toUInt8) + 1)

/-- `set_value` hands `text` to `std::stof`, whatever this makes of it. -/
def HandsOver (line text : List Byte) : Prop :=
  ∀ stof, setValue stof line =
    match stof text with
    | some value => .ok value
    | none => .error "failed to convert string to float for value"

/-- `set_value` throws for want of a delimiter, or the first `*` is behind the first
`(`, the count is not negative and exactly the bytes between are handed over. -/
def CutCorrectly (line : List Byte) : Prop :=
  ('('.toUInt8 ∉ line ∧
    ∀ stof, setValue stof line = .error "failed to locate '(' in value line") ∨
  ('*'.toUInt8 ∉ line ∧
    ∀ stof, setValue stof line = .error "failed to locate '*' in value line") ∨
  ∃ code text rest, line = valueLine code text rest ∧
    '('.toUInt8 ∉ code ∧ '*'.toUInt8 ∉ code ∧ '*'.toUInt8 ∉ text ∧
    0 ≤ readXChars line ∧ HandsOver line text

/-! ## The lines of a known code -/

theorem find_eq_none_iff (line : List Byte) (c : Byte) : find line c = none ↔ c ∉ line :=
  findIdx?_eq_none_iff_notMem c line

theorem star_lt {line : List Byte} {n : ℕ} (hfind : find line '*'.toUInt8 = some n)
    (hn : n < 2 ^ 31) : ∀ pos, find line '*'.toUInt8 = some pos → pos < 2 ^ 31 := by
  intro pos hpos
  rw [hfind, Option.some.injEq] at hpos
  omega

/-- The code up to its end, the code with an open value, or a value line. -/
theorem line_cases {line : List Byte} {f : Field} (h : target (obisCode line) = some f) :
    ('('.toUInt8 ∉ line ∧ '*'.toUInt8 ∉ line) ∨
    (∃ code tail, line = code ++ '('.toUInt8 :: tail ∧ '('.toUInt8 ∉ code ∧
      '*'.toUInt8 ∉ line ∧ valueStart code < 2 ^ 31) ∨
    ∃ code text rest, line = valueLine code text rest ∧ target code = some f ∧
      '('.toUInt8 ∉ code ∧ '*'.toUInt8 ∉ code ∧ '*'.toUInt8 ∉ text ∧
      valueStart code < 2 ^ 31 := by
  by_cases hopen : '('.toUInt8 ∈ line
  · obtain ⟨code, tail, rfl, hcode⟩ := List.eq_append_cons_of_mem hopen
    have hobis : obisCode (code ++ '('.toUInt8 :: tail) = code := takeWhile_first_split hcode
    rw [hobis] at h
    obtain ⟨-, hstar, hten⟩ := target_delimiters h
    have hstart : valueStart code < 2 ^ 31 := by
      unfold valueStart
      omega
    by_cases htail : '*'.toUInt8 ∈ tail
    · obtain ⟨text, rest, rfl, htext⟩ := List.eq_append_cons_of_mem htail
      exact .inr (.inr ⟨code, text, rest, rfl, h, hcode, hstar, htext, hstart⟩)
    · have hnone : '*'.toUInt8 ∉ code ++ '('.toUInt8 :: tail := by
        rw [List.mem_append, List.mem_cons]
        rintro (hmem | hmem | hmem)
        · exact hstar hmem
        · exact absurd hmem (by decide)
        · exact htail hmem
      exact .inr (.inl ⟨code, tail, rfl, hcode, hnone, hstart⟩)
  · have hobis : obisCode line = line := by
      unfold obisCode
      rw [List.takeWhile_eq_self_iff]
      intro b hb
      rw [decide_eq_true_iff]
      exact fun he => hopen (he ▸ hb)
    rw [hobis] at h
    exact .inl ⟨hopen, (target_delimiters h).2.1⟩

theorem setValue_no_open {line : List Byte} (h : '('.toUInt8 ∉ line)
    (stof : List Byte → Option Binary32) :
    setValue stof line = .error "failed to locate '(' in value line" := by
  unfold setValue
  rw [(find_eq_none_iff line _).mpr h]
  rfl

theorem setValue_no_star {code tail : List Byte} (hopen : '('.toUInt8 ∉ code)
    (hcode : valueStart code < 2 ^ 31) (hstar : '*'.toUInt8 ∉ code ++ '('.toUInt8 :: tail)
    (stof : List Byte → Option Binary32) :
    setValue stof (code ++ '('.toUInt8 :: tail) =
      .error "failed to locate '*' in value line" := by
  have hpos : toInt (find (code ++ '('.toUInt8 :: tail) '('.toUInt8) = code.length := by
    unfold valueStart at hcode
    rw [find_first_split hopen, toInt_some (by omega)]
  have hne : ¬ (code.length : ℤ) = intNpos := by
    unfold intNpos
    omega
  unfold setValue
  simp only [hpos, (find_eq_none_iff _ _).mpr hstar]
  rw [if_neg hne]
  rfl

/-! ## The cut -/

theorem readXChars_valueLine {code text : List Byte} (rest : List Byte)
    (hopen : '('.toUInt8 ∉ code) (hstar : '*'.toUInt8 ∉ code) (htext : '*'.toUInt8 ∉ text)
    (hcode : valueStart code < 2 ^ 31) :
    readXChars (valueLine code text rest) = starInt code text - valueStart code := by
  unfold readXChars
  rw [toInt_star rest hstar htext, toInt_open rest hopen hcode]
  rfl

/-- Below `2^31` the cut is right. -/
theorem cutCorrectly_of_lt {code text : List Byte} (rest : List Byte)
    (hopen : '('.toUInt8 ∉ code) (hstar : '*'.toUInt8 ∉ code) (htext : '*'.toUInt8 ∉ text)
    (hlt : starIndex code text < 2 ^ 31) : CutCorrectly (valueLine code text rest) := by
  have hcode : valueStart code < 2 ^ 31 := by
    unfold starIndex at hlt
    omega
  have hint : starInt code text = starIndex code text := toInt_some hlt
  refine .inr (.inr ⟨code, text, rest, rfl, hopen, hstar, htext, ?_, ?_⟩)
  · rw [readXChars_valueLine rest hopen hstar htext hcode, hint]
    unfold starIndex
    omega
  · exact fun stof => setValue_eq rest stof hopen hstar htext hlt

/-- From `2^31` on it is wrong: a count that is not negative ends before the `*`. -/
theorem starIndex_lt_of_handsOver {code text : List Byte} (rest : List Byte)
    (hopen : '('.toUInt8 ∉ code) (hstar : '*'.toUInt8 ∉ code) (htext : '*'.toUInt8 ∉ text)
    (hcode : valueStart code < 2 ^ 31) (hcount : 0 ≤ readXChars (valueLine code text rest))
    (hhands : HandsOver (valueLine code text rest) text) : starIndex code text < 2 ^ 31 := by
  rw [readXChars_valueLine rest hopen hstar htext hcode] at hcount
  by_contra hge
  have hbounds := starInt_bounds code text
  have hwraps : starInt code text + 2 ^ 32 ≤ starIndex code text := starInt_wraps (by omega)
  have hcut : valueCut code text rest ≠ text := by
    unfold valueCut
    rw [if_neg (by omega)]
    intro heq
    have hlen := congrArg List.length heq
    rw [List.length_take] at hlen
    unfold starIndex at hwraps
    omega
  -- a conversion of this text alone tells the two apart
  have hvalue := hhands fun t => if t = text then some 0 else none
  rw [setValue_cut rest _ hopen hstar htext hcode (by omega)] at hvalue
  simp only [if_true, if_neg hcut, if_neg (show starInt code text ≠ -1 by omega)] at hvalue
  cases hvalue

theorem starIndex_lt_of_cutCorrectly {code text : List Byte} (rest : List Byte)
    (hopen : '('.toUInt8 ∉ code) (htext : '*'.toUInt8 ∉ text) (hcode : valueStart code < 2 ^ 31)
    (hcut : CutCorrectly (valueLine code text rest)) : starIndex code text < 2 ^ 31 := by
  rcases hcut with ⟨hno, -⟩ | ⟨hno, -⟩ |
    ⟨code', text', rest', heq, hopen', hstar', htext', hcount, hhands⟩
  · exact absurd (by simp [valueLine]) hno
  · exact absurd (by simp [valueLine]) hno
  · obtain ⟨rfl, htail⟩ := first_split_unique hopen hopen' heq
    obtain ⟨rfl, rfl⟩ := first_split_unique htext htext' htail
    exact starIndex_lt_of_handsOver rest hopen hstar' htext hcode hcount hhands

/-- **Where the cut is right.** For every line with a known code, whatever else it
holds: either a delimiter is missing and `set_value` throws for this reason, or the
bytes strictly between the first `(` and the first `*` behind it are handed over, iff
the index of the first `*`, if there is one, is below `2^31`. In a line shorter than
`2^31` bytes the casts keep every position and tell it from `npos`. -/
theorem cutCorrectly_iff {line : List Byte} {f : Field} (h : target (obisCode line) = some f) :
    (CutCorrectly line ↔ ∀ pos, find line '*'.toUInt8 = some pos → pos < 2 ^ 31) ∧
    (line.length < 2 ^ 31 → ∀ c, (toInt (find line c) = intNpos ↔ find line c = none) ∧
      ∀ pos, find line c = some pos → toInt (find line c) = pos) := by
  constructor
  · rcases line_cases h with ⟨hopen, hstar⟩ | ⟨code, tail, rfl, hopen, hstar, hcode⟩ |
      ⟨code, text, rest, rfl, -, hopen, hstar, htext, hcode⟩
    · rw [(find_eq_none_iff line _).mpr hstar]
      exact iff_of_true (.inl ⟨hopen, setValue_no_open hopen⟩) (by simp)
    · rw [(find_eq_none_iff _ _).mpr hstar]
      exact iff_of_true (.inr (.inl ⟨hstar, setValue_no_star hopen hcode hstar⟩)) (by simp)
    · rw [find_star rest hstar htext]
      constructor
      · intro hcut pos hpos
        cases hpos
        exact starIndex_lt_of_cutCorrectly rest hopen htext hcode hcut
      · exact fun hall => cutCorrectly_of_lt rest hopen hstar htext (hall _ rfl)
  · intro hlen c
    have hkept : ∀ pos, find line c = some pos → toInt (find line c) = pos := by
      intro pos hpos
      have hlt := List.findIdx?_eq_some_iff_getElem.mp hpos
      rw [hpos, toInt_some (hlt.1.trans hlen)]
    refine ⟨?_, hkept⟩
    cases hfind : find line c with
    | none => exact iff_of_true rfl rfl
    | some pos =>
        rw [← hfind, hkept pos hfind, hfind]
        unfold intNpos
        exact iff_of_false (by omega) (by simp)

/-- A reading of active power. -/
theorem cutCorrectly_active_power : CutCorrectly (ascii "1-0:1.7.0(0001.727*kW)") := by
  have h : target (obisCode (ascii "1-0:1.7.0(0001.727*kW)")) = some .activePowerImport := rfl
  have hfind : find (ascii "1-0:1.7.0(0001.727*kW)") '*'.toUInt8 = some 18 := rfl
  exact (cutCorrectly_iff h).1.mpr (star_lt hfind (by omega))

/-- A reading of `n` zeros. -/
def zeros (n : ℕ) : List Byte :=
  valueLine (ascii "1-0:1.7.0") (List.replicate n '0'.toUInt8) (ascii "kW)")

/-- The line is not skipped: its only `-` stands behind a `1`. -/
theorem not_skipped_zeros (n : ℕ) : ¬ Skipped (zeros n) := by
  have hcode : ascii "1-0:1.7.0" = ascii "1" ++ '-'.toUInt8 :: ascii "0:1.7.0" := rfl
  have hstamp : ascii "0-0:1.0.0" = ascii "0" ++ '-'.toUInt8 :: ascii "0:1.0.0" := rfl
  have hline : zeros n = ascii "1" ++ '-'.toUInt8 :: (ascii "0:1.7.0" ++
      '('.toUInt8 :: (List.replicate n '0'.toUInt8 ++ '*'.toUInt8 :: ascii "kW)")) := by
    rw [zeros, valueLine, hcode]
    simp
  have hrest : '-'.toUInt8 ∉ ascii "0:1.7.0" ++
      '('.toUInt8 :: (List.replicate n '0'.toUInt8 ++ '*'.toUInt8 :: ascii "kW)") := by
    rw [List.mem_append, List.mem_cons, List.mem_append]
    rintro (h | h | h | h)
    · exact absurd h (by decide)
    · exact absurd h (by decide)
    · exact absurd (List.eq_of_mem_replicate h) (by decide)
    · exact absurd h (by decide)
  have hone : '-'.toUInt8 ∉ ascii "1" := by decide
  rintro (hnone | hwithin)
  · rw [hline] at hnone
    exact hnone (by simp)
  · rw [hline, hstamp] at hwithin
    exact absurd (suffix_of_split_within hone hrest hwithin) (by decide)

theorem obisCode_zeros (n : ℕ) : obisCode (zeros n) = ascii "1-0:1.7.0" :=
  takeWhile_first_split (by decide)

theorem cutCorrectly_zeros {n : ℕ} (h : CutCorrectly (zeros n)) : n < 2 ^ 31 := by
  have hopen : '('.toUInt8 ∉ ascii "1-0:1.7.0" := by decide
  have hlen : (ascii "1-0:1.7.0").length = 9 := rfl
  have htext : '*'.toUInt8 ∉ List.replicate n '0'.toUInt8 := by
    intro hmem
    exact absurd (List.eq_of_mem_replicate hmem) (by decide)
  have hlt := starIndex_lt_of_cutCorrectly _ hopen htext (by rw [valueStart, hlen]; omega) h
  rw [starIndex, List.length_replicate] at hlt
  omega

/-- With the `*` at index `2^32 - 1`, which becomes -1, the `*` counts as missing. -/
theorem star_taken_for_npos :
    ¬ ∀ (line : List Byte) (f : Field), ¬ Skipped line → target (obisCode line) = some f →
      CutCorrectly line := by
  intro hall
  have hknown : target (ascii "1-0:1.7.0") = some .activePowerImport := rfl
  have hcut := hall (zeros (2 ^ 32 - 11)) .activePowerImport (not_skipped_zeros _) (by
    rw [obisCode_zeros, hknown])
  have hlt := cutCorrectly_zeros hcut
  omega

end Hanport.HpDataParser
