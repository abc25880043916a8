import Hanport.Lib.DecimalText
import Hanport.Logic.ImageValues
import Hanport.Logic.LineCut
import Hanport.Logic.Thousandfold
import Hanport.Theorems.Parsing

/-!
# Readings of whole watts in the registers

A power is sent in kilowatts with three decimals. `std::stof` rounds it to a
`float`, the product with 1000 is rounded again, and the cast truncates where it
should round: the registers show `N` watts for the numeral of `N / 1000` unless both
roundings go down (`LosesWatt`), and then `N - 1`.
-/

namespace Hanport.HpDataParser

open Lib Lib.Ascii Lib.Strtof HpModbuss

/-- A numeral of `N / 1000` with three decimals and any leading zeros. -/
structure SpellsThousandths (whole frac : List Byte) (N : ℕ) : Prop where
  wholeDigit : ∀ b ∈ whole, isDecDigit b = true
  fracDigit : ∀ b ∈ frac, isDecDigit b = true
  three : frac.length = 3
  value : digitsValue (whole ++ frac) = N

/-- The two registers of a field decode to `N`. -/
def ShowsWatts (wild : Binary32 → BitVec 32) (d : HpData) (f : Field) (N : ℕ) : Prop :=
  ∃ i, (decodePairs (makeRegs wild d))[Field.all.idxOf f + 1]? = some i ∧ i.toInt = N

/-- The whole numeral is converted: the cast keeps the index of the `*`, or makes it
negative but not -1, or puts it before the numeral. -/
def ReadWhole (code text : List Byte) : Prop :=
  starInt code text ≠ -1 ∧
    (starInt code text < valueStart code ∨ starInt code text = starIndex code text)

/-- A proper part of the numeral is converted: the cast moves the index of the `*`
into it. -/
def ReadPart (code text : List Byte) : Prop :=
  valueStart code < starInt code text ∧ starInt code text ≠ starIndex code text

/-- Below `2^31` the whole numeral is converted. -/
theorem readWhole_of_lt {code text : List Byte} (h : starIndex code text < 2 ^ 31) :
    ReadWhole code text := by
  have hint : starInt code text = starIndex code text := toInt_some h
  exact ⟨by omega, .inr hint⟩

/-! ## The value of the numeral -/

/-- The `float` that `std::stof` makes of `N / 1000`. -/
theorem scaled_thousandths {N : ℕ} (hN : N ≤ 9999999) :
    scaled false N 10 (-3) = some (Binary32.ofUnits false (N * 2 ^ 149) 1000) := by
  rcases Nat.eq_zero_or_pos N with rfl | hpos
  · rw [scaled_zero, Nat.zero_mul, Binary32.ofUnits_zero]
  · obtain ⟨hfinite, -⟩ := trunc_thousandths hpos hN
    have hinf := ((Binary32.isFinite_iff _).mp hfinite).2
    have hnum : N * 10 ^ (-3 : ℤ).toNat * 2 ^ 149 = N * 2 ^ 149 := by
      rw [show (-3 : ℤ).toNat = 0 from rfl, pow_zero, Nat.mul_one]
    have hden : 10 ^ (- -3 : ℤ).toNat = 1000 := rfl
    unfold scaled
    simp only [hnum, hden, hinf, Bool.false_eq_true, if_false]
    rw [if_neg (by omega)]

/-- What the registers show of it. -/
theorem thousandfold_thousandths (wild : Binary32 → BitVec 32) {N : ℕ} (hN : N ≤ 9999999) :
    (thousandfold wild (Binary32.ofUnits false (N * 2 ^ 149) 1000)).toInt =
      ((if LosesWatt N then N - 1 else N : ℕ) : ℤ) := by
  rcases Nat.eq_zero_or_pos N with rfl | hpos
  · rw [Nat.zero_mul, Binary32.ofUnits_zero]
    exact thousandfold_toInt wild (n := 0) rfl (by decide)
  · obtain ⟨-, htrunc⟩ := trunc_thousandths hpos hN
    refine thousandfold_toInt wild htrunc ?_
    unfold Strtol.InInt
    split <;> omega

theorem not_losesWatt_iff (N : ℕ) : (if LosesWatt N then N - 1 else N) = N ↔ ¬ LosesWatt N := by
  have hzero : ¬ LosesWatt 0 := by decide
  by_cases h : LosesWatt N
  · have hpos : N ≠ 0 := by
      rintro rfl
      exact hzero h
    rw [if_pos h]
    exact ⟨fun he => absurd he (by omega), fun hn => absurd h hn⟩
  · simp [h]

section Numeral

variable {whole frac : List Byte} {N : ℕ} (h : SpellsThousandths whole frac N)
include h

theorem SpellsThousandths.star : '*'.toUInt8 ∉ whole ++ '.'.toUInt8 :: frac := by
  intro hmem
  have hdigit : isDecDigit '*'.toUInt8 = false := rfl
  rcases List.mem_append.mp hmem with hw | hf
  · rw [h.wholeDigit _ hw] at hdigit
    cases hdigit
  · rcases List.mem_cons.mp hf with hpoint | hf
    · exact absurd hpoint (by decide)
    · rw [h.fracDigit _ hf] at hdigit
      cases hdigit

/-- The whole numeral, whatever does not continue it behind. -/
theorem SpellsThousandths.stof (hN : N ≤ 9999999) {rest : List Byte} (hrest : Stops rest) :
    stof (whole ++ '.'.toUInt8 :: frac ++ rest) =
      some (Binary32.ofUnits false (N * 2 ^ 149) 1000) := by
  have hne : frac ≠ [] := by
    intro hnil
    have hthree := h.three
    rw [hnil] at hthree
    cases hthree
  have hstof := stof_pointed .none h.wholeDigit h.fracDigit hne hrest
  rw [List.nil_append] at hstof
  rw [List.append_assoc, List.cons_append, hstof,
    h.value, h.three]
  exact scaled_thousandths hN

/-- A part that misses the last eleven bytes is zeros. -/
theorem SpellsThousandths.stof_part (hN : N ≤ 9999999) {k : ℕ} (hk : 0 < k)
    (hlen : k + 11 ≤ (whole ++ '.'.toUInt8 :: frac).length) :
    Strtof.stof ((whole ++ '.'.toUInt8 :: frac).take k) = some (Binary32.ofMagnitude false 0) := by
  have hthree := h.three
  rw [List.length_append, List.length_cons] at hlen
  rw [List.take_append_of_le_length (by omega)]
  have hdigits : ∀ b ∈ whole.take k, isDecDigit b = true := fun b hb =>
    h.wholeDigit b (List.mem_of_mem_take hb)
  have hne : whole.take k ≠ [] := by
    intro hnil
    have hnone := congrArg List.length hnil
    rw [List.length_take, List.length_nil] at hnone
    omega
  have hzero : digitsValue (whole.take k) = 0 := by
    have hrest : ∀ b ∈ whole.drop k ++ frac, isDecDigit b = true := by
      intro b hb
      rcases List.mem_append.mp hb with hw | hf
      · exact h.wholeDigit b (List.mem_of_mem_drop hw)
      · exact h.fracDigit b hf
    have hvalue := h.value
    rw [← List.take_append_drop k whole, List.append_assoc, digitsValue_append hrest] at hvalue
    have hpow : 10 ^ 7 ≤ 10 ^ (whole.drop k ++ frac).length := by
      refine Nat.pow_le_pow_right (by decide) ?_
      rw [List.length_append, List.length_drop]
      omega
    by_contra hpos
    have hle : 10 ^ (whole.drop k ++ frac).length ≤
        digitsValue (whole.take k) * 10 ^ (whole.drop k ++ frac).length :=
      Nat.le_mul_of_pos_left _ (Nat.pos_of_ne_zero hpos)
    omega
  have hstof := stof_digits .none hdigits hne
  rw [List.nil_append] at hstof
  rw [hstof, hzero, scaled_zero]

end Numeral

/-! ## The line -/

theorem parseElectricityData_valueLine {stof : List Byte → Option Binary32} {code text : List Byte}
    {f : Field} (hcode : target code = some f) (rest : List Byte) (d : HpData) :
    parseElectricityData stof (valueLine code text rest) (obisCode (valueLine code text rest)) d =
      (setValue stof (valueLine code text rest)).map fun value => d.set f value := by
  have hobis : obisCode (valueLine code text rest) = code :=
    Delimiter.takeWhile_first_split (target_delimiters hcode).1
  exact parseElectricityData_known stof (by rw [hobis, hcode]) d

theorem showsWatts_iff (wild : Binary32 → BitVec 32) (d : HpData) {f : Field}
    (hf : f ∈ Field.powers) (N : ℕ) :
    ShowsWatts wild d f N ↔ (thousandfold wild (d.get f)).toInt = N := by
  unfold ShowsWatts
  rw [decodePairs_power wild d hf]
  simp

theorem showsWatts_set_iff (wild : Binary32 → BitVec 32) (d : HpData) {f : Field}
    (hf : f ∈ Field.powers) (v : Binary32) (N : ℕ) :
    ShowsWatts wild (d.set f v) f N ↔ (thousandfold wild v).toInt = N := by
  rw [showsWatts_iff wild _ hf, HpData.get_set, if_pos rfl]

section Line

variable (wild : Binary32 → BitVec 32) (d : HpData) {code whole frac : List Byte} {f : Field}
  {N : ℕ}
  (hcode : target code = some f) (hf : f ∈ Field.powers) (h : SpellsThousandths whole frac N)
  (hN : N ≤ 9999999) {rest : List Byte}
  (hsize : (valueLine code (whole ++ '.'.toUInt8 :: frac) rest).length < 2 ^ 63)
include hcode h hsize

/-- `set_value` on the line. -/
theorem setValue_numeral :
    setValue stof (valueLine code (whole ++ '.'.toUInt8 :: frac) rest) =
      if starInt code (whole ++ '.'.toUInt8 :: frac) = -1 then
        .error "failed to locate '*' in value line"
      else match stof (valueCut code (whole ++ '.'.toUInt8 :: frac) rest) with
        | some value => .ok value
        | none => .error "failed to convert string to float for value" := by
  obtain ⟨hopen, hstar, hten⟩ := target_delimiters hcode
  exact setValue_cut rest stof hopen hstar h.star (by unfold valueStart; omega) fun _ => hsize

/-- Converted as a whole, the numeral shows `N` unless it loses a watt. -/
theorem shows_of_readWhole (hf : f ∈ Field.powers) (hN : N ≤ 9999999)
    (hread : ReadWhole code (whole ++ '.'.toUInt8 :: frac)) :
    (∃ d', parseElectricityData stof (valueLine code (whole ++ '.'.toUInt8 :: frac) rest)
        (obisCode (valueLine code (whole ++ '.'.toUInt8 :: frac) rest)) d = .ok d' ∧
        ShowsWatts wild d' f N) ↔ ¬ LosesWatt N := by
  have hstar : Stops ('*'.toUInt8 :: rest) := by
    intro b hb
    cases hb
    exact ⟨rfl, by decide, by decide⟩
  have hcut : stof (valueCut code (whole ++ '.'.toUInt8 :: frac) rest) =
      some (Binary32.ofUnits false (N * 2 ^ 149) 1000) := by
    unfold valueCut
    rcases hread.2 with hneg | hkept
    · rw [if_pos hneg]
      exact h.stof hN hstar
    · have hlen : (starInt code (whole ++ '.'.toUInt8 :: frac) - valueStart code).toNat =
          (whole ++ '.'.toUInt8 :: frac).length := by
        rw [hkept]
        unfold starIndex
        omega
      rw [if_neg (by rw [hkept]; unfold starIndex; omega), hlen, List.take_length]
      have hnil : Stops [] := by simp [Stops]
      have hwhole := h.stof hN hnil
      rwa [List.append_nil] at hwhole
  rw [parseElectricityData_valueLine hcode, setValue_numeral hcode h hsize, if_neg hread.1, hcut]
  simp only [Except.map, Except.ok.injEq, exists_eq_left', showsWatts_set_iff wild d hf,
    thousandfold_thousandths wild hN, Nat.cast_inj, not_losesWatt_iff]

/-- Converted in part, the numeral shows 0. -/
theorem shows_of_readPart (hf : f ∈ Field.powers) (hN : N ≤ 9999999)
    (hread : ReadPart code (whole ++ '.'.toUInt8 :: frac)) :
    (∃ d', parseElectricityData stof (valueLine code (whole ++ '.'.toUInt8 :: frac) rest)
        (obisCode (valueLine code (whole ++ '.'.toUInt8 :: frac) rest)) d = .ok d' ∧
        ShowsWatts wild d' f N) ↔ N = 0 := by
  obtain ⟨hstart, hmoved⟩ := hread
  have hwraps := starInt_wraps hmoved
  have hcut : stof (valueCut code (whole ++ '.'.toUInt8 :: frac) rest) =
      some (Binary32.ofMagnitude false 0) := by
    unfold valueCut
    rw [if_neg (by omega)]
    unfold starIndex at hwraps
    exact h.stof_part hN (by omega) (by omega)
  have hzero : (thousandfold wild (Binary32.ofMagnitude false 0)).toInt = 0 :=
    thousandfold_toInt wild rfl (by decide)
  rw [parseElectricityData_valueLine hcode, setValue_numeral hcode h hsize, if_neg (by omega), hcut]
  simp only [Except.map, Except.ok.injEq, exists_eq_left', showsWatts_set_iff wild d hf, hzero]
  omega

end Line

/-- **Whole watts in the registers.** For every `N` up to 9999999, every numeral of
`N / 1000` with three decimals and any padding, every code that sets a power field
and every rest of the line: the line is parsed and the registers of the field show
`N` iff the numeral is converted as a whole and does not lose a watt, or a part of
it is converted and `N` is 0. -/
theorem shows_watts_iff (wild : Binary32 → BitVec 32) (d : HpData)
    {code whole frac rest : List Byte} {f : Field} {N : ℕ} (hcode : target code = some f)
    (hf : f ∈ Field.powers) (h : SpellsThousandths whole frac N) (hN : N ≤ 9999999)
    (hsize : (valueLine code (whole ++ '.'.toUInt8 :: frac) rest).length < 2 ^ 63) :
    (∃ d', parseElectricityData stof (valueLine code (whole ++ '.'.toUInt8 :: frac) rest)
        (obisCode (valueLine code (whole ++ '.'.toUInt8 :: frac) rest)) d = .ok d' ∧
        ShowsWatts wild d' f N) ↔
      (ReadWhole code (whole ++ '.'.toUInt8 :: frac) ∧ ¬ LosesWatt N) ∨
      (ReadPart code (whole ++ '.'.toUInt8 :: frac) ∧ N = 0) := by
  by_cases hwhole : ReadWhole code (whole ++ '.'.toUInt8 :: frac)
  · have hnot : ¬ ReadPart code (whole ++ '.'.toUInt8 :: frac) := by
      intro hpart
      rcases hwhole.2 with hlt | hkept
      · have := hpart.1
        omega
      · exact hpart.2 hkept
    rw [shows_of_readWhole wild d hcode h hsize hf hN hwhole]
    simp [hwhole, hnot]
  · by_cases hpart : ReadPart code (whole ++ '.'.toUInt8 :: frac)
    · rw [shows_of_readPart wild d hcode h hsize hf hN hpart]
      simp [hwhole, hpart]
    · -- the `*` counts as missing, or nothing is left of the numeral
      rw [parseElectricityData_valueLine hcode, setValue_numeral hcode h hsize]
      simp only [hwhole, hpart, false_and, or_self, iff_false]
      rintro ⟨d', hd', -⟩
      by_cases hminus : starInt code (whole ++ '.'.toUInt8 :: frac) = -1
      · rw [if_pos hminus] at hd'
        cases hd'
      · have hempty : valueCut code (whole ++ '.'.toUInt8 :: frac) rest = [] := by
          unfold ReadWhole at hwhole
          unfold ReadPart at hpart
          push Not at hwhole hpart
          obtain ⟨hge, hne⟩ := hwhole hminus
          have hle : starInt code (whole ++ '.'.toUInt8 :: frac) ≤ valueStart code := by
            by_contra hgt
            exact hne (hpart (by omega))
          unfold valueCut
          rw [if_neg (by omega), show (starInt code (whole ++ '.'.toUInt8 :: frac) -
            valueStart code).toNat = 0 by omega, List.take_zero]
        rw [if_neg hminus, hempty, stof_nil] at hd'
        cases hd'

/-- 1.005 kW shows 1005. -/
theorem shows_watts_1005 :
    ∃ d', parseElectricityData stof (ascii "1-0:1.7.0(0001.005*kW)")
        (obisCode (ascii "1-0:1.7.0(0001.005*kW)")) {} = .ok d' ∧
      ShowsWatts (fun _ => 0#32) d' .activePowerImport 1005 := by
  have h : SpellsThousandths (ascii "0001") (ascii "005") 1005 :=
    ⟨List.all_eq_true.mp rfl, List.all_eq_true.mp rfl, rfl, rfl⟩
  have hcode : target (ascii "1-0:1.7.0") = some .activePowerImport := rfl
  have hsize : (valueLine (ascii "1-0:1.7.0") (ascii "0001" ++ '.'.toUInt8 :: ascii "005")
      (ascii "kW)")).length < 2 ^ 63 := by decide
  refine (shows_watts_iff (fun _ => 0#32) {} hcode (by decide) h (by decide) hsize).mpr
    (.inl ⟨?_, ?_⟩)
  · exact readWhole_of_lt (by decide)
  · decide

/-- 1.004 kW shows 1003. -/
theorem watt_lost_at_1004 :
    ¬ ∀ (code whole frac rest : List Byte) (f : Field) (N : ℕ), target code = some f →
      f ∈ Field.powers → SpellsThousandths whole frac N → N ≤ 9999999 →
      ∃ d', parseElectricityData stof (valueLine code (whole ++ '.'.toUInt8 :: frac) rest)
          (obisCode (valueLine code (whole ++ '.'.toUInt8 :: frac) rest)) {} = .ok d' ∧
        ShowsWatts (fun _ => 0#32) d' f N := by
  intro hall
  have hcode : target (ascii "1-0:1.7.0") = some .activePowerImport := rfl
  have h : SpellsThousandths (ascii "0001") (ascii "004") 1004 :=
    ⟨List.all_eq_true.mp rfl, List.all_eq_true.mp rfl, rfl, rfl⟩
  have hshown := hall (ascii "1-0:1.7.0") (ascii "0001") (ascii "004") (ascii "kW)")
    .activePowerImport 1004 hcode (by decide) h (by decide)
  rw [shows_of_readWhole _ _ hcode h (by decide) (by decide) (by decide)
    (readWhole_of_lt (by decide))] at hshown
  exact hshown (by decide)

end Hanport.HpDataParser
