import Hanport.Lib.Strtof
import Hanport.Logic.LineCut

/-!
# Which field each measurement line reaches

The comments of `parse_electricity_data` and the fields of `hpData` assign one
OBIS code to each measured field (`tableCode`). The code follows this table
except for 1-0:63.7.0, which it writes to the export of L3 (`target_eq`), so the
message is read as the table says iff the lines of 63.7.0 and 64.7.0 happen to
leave the same two values.
-/

namespace Hanport.HpDataParser

open Lib Lib.Ascii Lib.Delimiter Lib.Store

/-! ## The table -/

/-- The OBIS code of a field. -/
def tableCode : Field → String
  | .activeEnergyImportTotal => "1-0:1.8.0"
  | .activeEnergyExportTotal => "1-0:2.8.0"
  | .reactiveEnergyImportTotal => "1-0:3.8.0"
  | .reactiveEnergyExportTotal => "1-0:4.8.0"
  | .activePowerImport => "1-0:1.7.0"
  | .activePowerExport => "1-0:2.7.0"
  | .reactivePowerImport => "1-0:3.7.0"
  | .reactivePowerExport => "1-0:4.7.0"
  | .l1ActivePowerImport => "1-0:21.7.0"
  | .l1ActivePowerExport => "1-0:22.7.0"
  | .l2ActivePowerImport => "1-0:41.7.0"
  | .l2ActivePowerExport => "1-0:42.7.0"
  | .l3ActivePowerImport => "1-0:61.7.0"
  | .l3ActivePowerExport => "1-0:62.7.0"
  | .l1ReactivePowerImport => "1-0:23.7.0"
  | .l1ReactivePowerExport => "1-0:24.7.0"
  | .l2ReactivePowerImport => "1-0:43.7.0"
  | .l2ReactivePowerExport => "1-0:44.7.0"
  | .l3ReactivePowerImport => "1-0:63.7.0"
  | .l3ReactivePowerExport => "1-0:64.7.0"
  | .l1VoltageRms => "1-0:32.7.0"
  | .l2VoltageRms => "1-0:52.7.0"
  | .l3VoltageRms => "1-0:72.7.0"
  | .l1CurrentRms => "1-0:31.7.0"
  | .l2CurrentRms => "1-0:51.7.0"
  | .l3CurrentRms => "1-0:71.7.0"

/-- The field that the table assigns to a code. -/
def fieldOf (code : List Byte) : Option Field :=
  Field.all.find? fun f => ascii (tableCode f) = code

/-- Where the code puts the value of a field: the import of L3 goes to the
export. -/
def routed (f : Field) : Field :=
  if f = .l3ReactivePowerImport then .l3ReactivePowerExport else f

theorem branches_eq : branches = Field.all.map fun f => (tableCode f, routed f) := rfl

/-- The branches are the table with one entry misdirected. -/
theorem target_eq (code : List Byte) : target code = (fieldOf code).map routed := by
  unfold target fieldOf
  rw [branches_eq, List.find?_map, Option.map_map]
  rfl

/-- No code stands twice in the table. -/
theorem tableCode_injective {f g : Field} (h : ascii (tableCode f) = ascii (tableCode g)) :
    f = g := by
  -- compared as numbers, which is faster than byte by byte
  have hnumbers : ((Field.all.map fun f => ascii (tableCode f)).map fun code =>
      ofDigits 256 (code.map UInt8.toNat)).Nodup := by decide
  have hcodes := hnumbers.of_map
  exact List.inj_on_of_nodup_map hcodes (Field.mem_all f) (Field.mem_all g) h

theorem fieldOf_tableCode (f : Field) : fieldOf (ascii (tableCode f)) = some f := by
  unfold fieldOf
  cases hfind : Field.all.find? fun g => ascii (tableCode g) = ascii (tableCode f) with
  | none =>
      rw [List.find?_eq_none] at hfind
      exact absurd (decide_eq_true rfl) (hfind f (Field.mem_all f))
  | some g =>
      have hg := List.find?_some hfind
      rw [decide_eq_true_iff] at hg
      rw [tableCode_injective hg]

/-- The codes hold neither delimiter and are at most ten bytes long. -/
theorem tableCode_delimiters (f : Field) :
    '('.toUInt8 ∉ ascii (tableCode f) ∧ '*'.toUInt8 ∉ ascii (tableCode f) ∧
      (ascii (tableCode f)).length ≤ 10 := by
  cases f <;> decide

/-- The codes hold neither delimiter and are at most ten bytes long. -/
theorem target_delimiters {code : List Byte} {f : Field} (h : target code = some f) :
    '('.toUInt8 ∉ code ∧ '*'.toUInt8 ∉ code ∧ code.length ≤ 10 := by
  rw [target_eq, Option.map_eq_some_iff] at h
  obtain ⟨g, hg, _⟩ := h
  unfold fieldOf at hg
  have hcode := List.find?_some hg
  rw [decide_eq_true_iff] at hcode
  rw [← hcode]
  exact tableCode_delimiters g

theorem parseElectricityData_known (stof : List Byte → Option Binary32) {line : List Byte}
    {f : Field} (h : target (obisCode line) = some f) (d : HpData) :
    parseElectricityData stof line (obisCode line) d =
      (setValue stof line).map fun value => d.set f value := by
  unfold parseElectricityData
  rw [h]

/-! ## What a message says -/

/-- The text between the first `(` and the first `*` behind it. -/
def valueText (line : List Byte) : List Byte :=
  ((line.dropWhile fun b => b ≠ '('.toUInt8).drop 1).takeWhile fun b => b ≠ '*'.toUInt8

section Readings

variable (stof : List Byte → Option Binary32)

/-- The line is the measurement of a field: its code, `(`, a numeral, `*` and
anything. The `*` stands at an index that an `int` holds. -/
def IsMeasurement (line : List Byte) : Prop :=
  ∃ f text rest, line = ascii (tableCode f) ++ '('.toUInt8 :: (text ++ '*'.toUInt8 :: rest) ∧
    '*'.toUInt8 ∉ text ∧ (stof text).isSome ∧
    (ascii (tableCode f)).length + 1 + text.length < 2 ^ 31

/-- A line that `parse_message` may meet in a sound message: one that it skips,
one with a code outside the table, or a measurement. -/
def IsSound (line : List Byte) : Prop :=
  Skipped line ∨ fieldOf (obisCode line) = none ∨ IsMeasurement stof line

/-- The reading of a line that is not skipped: the field of its code and the
value of its numeral. -/
def reading (line : List Byte) : Option (Field × Binary32) :=
  if Skipped line then none
  else (fieldOf (obisCode line)).bind fun f => (stof (valueText line)).map fun v => (f, v)

/-- The readings of a message, first to last. -/
def readings (arr : List (List Byte)) : List (Field × Binary32) := arr.filterMap (reading stof)

/-- The result that the table asks for: no exception, each field at its last
reading or else its prior value, and the heartbeat as before. -/
def LastReadings (arr : List (List Byte)) (d : HpData) (result : HpData × Except String Unit) :
    Prop :=
  result.2 = .ok () ∧ result.1.heartbeat = d.heartbeat ∧
    ∀ f, result.1.get f = (lastWrite (readings stof arr) f).getD (d.get f)

/-- The lines of 63.7.0 and 64.7.0 leave what the table asks for: the last
63.7.0 repeats the prior import, and the last of both leaves the export that the
last 64.7.0 asks for. -/
def L3Agrees (arr : List (List Byte)) (d : HpData) : Prop :=
  (lastWrite (readings stof arr) .l3ReactivePowerImport).getD (d.get .l3ReactivePowerImport) =
      d.get .l3ReactivePowerImport ∧
    (lastWhere (fun f => f = .l3ReactivePowerImport ∨ f = .l3ReactivePowerExport)
        (readings stof arr)).getD (d.get .l3ReactivePowerExport) =
      (lastWrite (readings stof arr) .l3ReactivePowerExport).getD (d.get .l3ReactivePowerExport)

variable {stof}

/-- A sound line succeeds and writes its reading where the code routes it. -/
theorem lineEffect_of_sound {line : List Byte} (h : IsSound stof line) :
    lineEffect stof line = .ok ((reading stof line).map fun w => (routed w.1, w.2)) := by
  unfold lineEffect reading
  by_cases hs : Skipped line
  · rw [if_pos hs, if_pos hs]
    rfl
  · rw [if_neg hs, if_neg hs, target_eq]
    rcases h with hskip | hnone | ⟨f, text, rest, rfl, htext, hval, hlen⟩
    · exact absurd hskip hs
    · rw [hnone]
      rfl
    · obtain ⟨hopen, hstar, _⟩ := tableCode_delimiters f
      obtain ⟨v, hv⟩ := Option.isSome_iff_exists.mp hval
      have hcode : obisCode (ascii (tableCode f) ++ '('.toUInt8 :: (text ++ '*'.toUInt8 :: rest)) =
          ascii (tableCode f) := takeWhile_first_split hopen
      have hbetween : valueText (ascii (tableCode f) ++
          '('.toUInt8 :: (text ++ '*'.toUInt8 :: rest)) = text := by
        unfold valueText
        rw [dropWhile_first_split hopen]
        exact takeWhile_first_split htext
      have hvalue := setValue_eq rest stof hopen hstar htext hlen
      unfold valueLine at hvalue
      rw [hcode, fieldOf_tableCode, hbetween, hvalue, hv]
      rfl

/-- A sound message succeeds and writes its readings where the code routes
them. -/
theorem parseLines_of_sound {arr : List (List Byte)} (h : ∀ line ∈ arr, IsSound stof line)
    (d : HpData) :
    parseLines stof arr d =
      (HpData.store.writeAll ((readings stof arr).map fun w => (routed w.1, w.2)) d,
        .ok ()) := by
  have hok : ∀ line ∈ arr, succeeds stof line = true := by
    intro line hline
    unfold succeeds
    rw [lineEffect_of_sound (h line hline)]
  have hwrites : arr.filterMap (lineWrite stof) =
      (readings stof arr).map fun w => (routed w.1, w.2) := by
    unfold readings
    rw [List.map_filterMap]
    apply List.filterMap_congr
    intro line hline
    unfold lineWrite
    rw [lineEffect_of_sound (h line hline)]
  rw [parseLines_eq, (outcome_eq_ok_iff stof arr).mpr hok, List.takeWhile_eq_self_iff.mpr hok,
    hwrites]

/-- The last value routed to a field, against the last one of the field. -/
theorem lastWhere_routed (ws : List (Field × Binary32)) (g : Field) :
    lastWhere (fun f => routed f = g) ws =
      if g = .l3ReactivePowerImport then none
      else if g = .l3ReactivePowerExport then
        lastWhere (fun f => f = .l3ReactivePowerImport ∨ f = .l3ReactivePowerExport) ws
      else lastWrite ws g := by
  unfold lastWrite
  by_cases himport : g = .l3ReactivePowerImport
  · subst himport
    have hnever : (fun f => decide (routed f = .l3ReactivePowerImport)) = fun _ => false := by
      funext f
      cases f <;> rfl
    rw [hnever, if_pos rfl]
    simp [lastWhere]
  · rw [if_neg himport]
    by_cases hexport : g = .l3ReactivePowerExport
    · subst hexport
      rw [if_pos rfl]
      congr 1
      funext f
      cases f <;> rfl
    · rw [if_neg hexport]
      congr 1
      funext f
      unfold routed
      by_cases hf : f = .l3ReactivePowerImport
      · rw [if_pos hf, hf]
        simp [Ne.symm himport, Ne.symm hexport]
      · rw [if_neg hf]

/-- **The readings reach their own fields iff the L3 lines agree.** -/
theorem parseMessage_lastReadings_iff (parser : HpDataParser) (d : HpData)
    (h : ∀ line ∈ parser.messageArray, IsSound stof line) :
    LastReadings stof parser.messageArray d (parseMessage stof parser d) ↔
      L3Agrees stof parser.messageArray d := by
  have hget : ∀ f, (parseMessage stof parser d).1.get f =
      (lastWhere (fun k => routed k = f) (readings stof parser.messageArray)).getD (d.get f) := by
    intro f
    unfold parseMessage
    rw [parseLines_of_sound h d, ← lastWrite_rename]
    exact HpData.store.get_writeAll _ d f
  have hrest : (parseMessage stof parser d).2 = .ok () ∧
      (parseMessage stof parser d).1.heartbeat = d.heartbeat := by
    unfold parseMessage
    rw [parseLines_of_sound h d]
    exact ⟨rfl, HpData.heartbeat_writeAll _ d⟩
  unfold LastReadings L3Agrees
  rw [and_iff_right hrest.1, and_iff_right hrest.2]
  constructor
  · intro hall
    have himport := hall .l3ReactivePowerImport
    have hexport := hall .l3ReactivePowerExport
    rw [hget, lastWhere_routed, if_pos rfl] at himport
    rw [hget, lastWhere_routed, if_neg (by decide), if_pos rfl] at hexport
    exact ⟨himport.symm, hexport⟩
  · intro hl3 f
    obtain ⟨himport, hexport⟩ := hl3
    rw [hget, lastWhere_routed]
    split_ifs with h1 h2
    · rw [h1]
      exact himport.symm
    · rw [h2]
      exact hexport
    · rfl

end Readings

/-- A message with a repeated code, a time stamp and an unknown code. -/
theorem parseMessage_lastReadings_energy :
    LastReadings Strtof.stof
      [ascii "1-0:1.8.0(2*kWh)", ascii "0-0:1.0.0(21W)", ascii "1-0:1.8.0(1.5*kWh)", ascii "1-1(x"]
      {} (parseMessage Strtof.stof
        ⟨[ascii "1-0:1.8.0(2*kWh)", ascii "0-0:1.0.0(21W)", ascii "1-0:1.8.0(1.5*kWh)",
          ascii "1-1(x"], by decide⟩ {}) := by
  have hsound : ∀ line ∈ [ascii "1-0:1.8.0(2*kWh)", ascii "0-0:1.0.0(21W)",
      ascii "1-0:1.8.0(1.5*kWh)", ascii "1-1(x"], IsSound Strtof.stof line := by
    simp only [List.forall_mem_cons]
    refine ⟨.inr (.inr ⟨.activeEnergyImportTotal, ascii "2", ascii "kWh)", ?_⟩),
      .inl (by decide),
      .inr (.inr ⟨.activeEnergyImportTotal, ascii "1.5", ascii "kWh)", ?_⟩),
      .inr (.inl rfl), by simp⟩
    · decide
    · decide
  apply (parseMessage_lastReadings_iff _ _ hsound).mpr
  unfold L3Agrees
  decide

/-- A line of 63.7.0 leaves the import of L3 at 0. -/
theorem parseMessage_misroutes_l3 :
    ¬ ∀ (parser : HpDataParser) (d : HpData),
      (∀ line ∈ parser.messageArray, IsSound Strtof.stof line) →
      LastReadings Strtof.stof parser.messageArray d (parseMessage Strtof.stof parser d) := by
  intro hall
  have hsound : ∀ line ∈ [ascii "1-0:63.7.0(1.5*kvar)"], IsSound Strtof.stof line := by
    simp only [List.forall_mem_cons]
    refine ⟨.inr (.inr ⟨.l3ReactivePowerImport, ascii "1.5", ascii "kvar)", ?_⟩), by simp⟩
    decide
  have hread := hall ⟨[ascii "1-0:63.7.0(1.5*kvar)"], by decide⟩ {} hsound
  exact absurd (hread.2.2 .l3ReactivePowerImport) (by decide)

end Hanport.HpDataParser
