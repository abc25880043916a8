import Hanport.Lib.DecimalText
import Hanport.Theorems.Gateway
import Hanport.Theorems.Parsing
import Hanport.Theorems.Served

/-!
# From the meter to both sinks

A meter that spells its readings as a telegram, one line for each, and its CRC as four
hexadecimal digits, is understood if it comes in reads of its own: whatever the reads
before it, both sinks get the readings it has sent, each under the field of its code, but
for the code of the L3 reactive import, whose readings arrive as exports.
-/

namespace Hanport.Main

open Lib Lib.Ascii Lib.BitPoly HpModbuss HpSerialRead HanportMessageValidator HpDataParser

/-! ## What a meter sends -/

/-- A digit of the CRC field. -/
def crcDigit (n : ℕ) : Byte := (Nat.digitChar n).toUInt8

/-- The CRC in hexadecimal digits, the highest first. -/
def spellCrc (crc : BitVec 16) : List Byte :=
  [crcDigit (crc.toNat / 4096), crcDigit (crc.toNat / 256 % 16), crcDigit (crc.toNat / 16 % 16),
    crcDigit (crc.toNat % 16)]

theorem hexDigit?_crcDigit : ∀ n < 16, hexDigit? (crcDigit n) = some n := by
  decide

theorem spellsCrc_spellCrc (crc : BitVec 16) : SpellsCrc (spellCrc crc) crc := by
  have hlt := crc.isLt
  have hfirst := hexDigit?_crcDigit (crc.toNat / 4096) (by omega)
  have hsecond := hexDigit?_crcDigit (crc.toNat / 256 % 16) (by omega)
  have hthird := hexDigit?_crcDigit (crc.toNat / 16 % 16) (by omega)
  have hfourth := hexDigit?_crcDigit (crc.toNat % 16) (by omega)
  refine ⟨rfl, ?_, ?_⟩
  · simp [spellCrc, isHexDigit, hfirst, hsecond, hthird, hfourth]
  · simp only [spellCrc, List.filterMap_cons, hfirst, hsecond, hthird, hfourth,
      List.filterMap_nil, ofDigits, List.foldl_cons, List.foldl_nil]
    omega

/-- A reading as the meter sends it: the text of a value. -/
structure Reading where
  field : Field
  text : List Byte
  value : Binary32

namespace Reading

/-- The text can stand in a line, and has the value. -/
structure Sendable (stof : List Byte → Option Binary32) (r : Reading) : Prop where
  line : IsTelegramLine r.text
  noStar : '*'.toUInt8 ∉ r.text
  noStamp : ¬ ascii "0-0:1.0.0" <:+: r.text
  short : r.text.length < 2 ^ 30
  value : stof r.text = some r.value

/-- The line of a reading. -/
def line (r : Reading) : List Byte := valueLine (ascii (tableCode r.field)) r.text (ascii "kW)")

/-- The field that gets the value. -/
def write (r : Reading) : Field × Binary32 := (routed r.field, r.value)

end Reading

/-- The lines of the readings, between title and `!`. -/
def readingLines (readings : List Reading) : List (List Byte) := readings.map Reading.line

/-- The telegram of the readings. -/
def telegram (readings : List Reading) : List Byte :=
  frame (telegramBody ([] :: readingLines readings))
    (spellCrc (bodyCrc (telegramBody ([] :: readingLines readings))))

/-! ## One line -/

/-- A text that stands around a byte it does not hold stands on one side of it. -/
theorem infix_split {c : Byte} {w a b : List Byte} (hc : c ∉ w) (h : w <:+: a ++ c :: b) :
    w <:+: a ∨ w <:+: b := by
  rcases List.infix_append_iff.mp h with ha | hb | ⟨front, back, rfl, hfront, hback⟩
  · exact .inl ha
  · rcases List.infix_cons_iff.mp hb with hprefix | hb
    · rcases List.prefix_cons_iff.mp hprefix with rfl | ⟨t, rfl, -⟩
      · exact .inl (List.nil_infix)
      · exact absurd List.mem_cons_self hc
    · exact .inr hb
  · rcases List.prefix_cons_iff.mp hback with rfl | ⟨t, rfl, -⟩
    · rw [List.append_nil]
      exact .inl hfront.isInfix
    · exact absurd (List.mem_append_right _ List.mem_cons_self) hc

theorem isTelegramLine_code (f : Field) : IsTelegramLine (ascii (tableCode f)) := by
  unfold IsTelegramLine
  cases f <;> decide

theorem code_not_skipped (f : Field) :
    '-'.toUInt8 ∈ ascii (tableCode f) ∧ ¬ ascii "0-0:1.0.0" <:+: ascii (tableCode f) := by
  cases f <;> decide

namespace Reading.Sendable

variable {stof : List Byte → Option Binary32} {r : Reading}

theorem isTelegramLine (h : r.Sendable stof) : IsTelegramLine r.line := by
  have hcode := isTelegramLine_code r.field
  have hrest : IsTelegramLine (ascii "kW)") := by
    unfold IsTelegramLine
    decide
  have hopen : IsTelegramLine ['('.toUInt8] := by
    unfold IsTelegramLine
    decide
  have hstar : IsTelegramLine ['*'.toUInt8] := by
    unfold IsTelegramLine
    decide
  unfold Reading.line valueLine
  simp only [IsTelegramLine, List.mem_append, List.mem_cons, List.not_mem_nil, or_false, not_or]
    at hcode hrest hopen hstar ⊢
  have htext := h.line
  unfold IsTelegramLine at htext
  tauto

theorem not_skipped (h : r.Sendable stof) : ¬ Skipped r.line := by
  have hcode := code_not_skipped r.field
  have hopen : '('.toUInt8 ∉ ascii "0-0:1.0.0" := by decide
  have hstar : '*'.toUInt8 ∉ ascii "0-0:1.0.0" := by decide
  unfold Reading.line valueLine
  rintro (hnone | hstamp)
  · exact hnone (List.mem_append_left _ hcode.1)
  · -- the time stamp would have to lie in the code, in the text or in the unit
    rcases infix_split hopen hstamp with hin | hin
    · exact hcode.2 hin
    · rcases infix_split hstar hin with hin | hin
      · exact h.noStamp hin
      · exact absurd hin (by decide)

/-- The line writes the value to the field. -/
theorem lineEffect_line (h : r.Sendable stof) : lineEffect stof r.line = .ok (some r.write) := by
  obtain ⟨hopen, hstar, hlength⟩ := tableCode_delimiters r.field
  have hcode : obisCode r.line = ascii (tableCode r.field) :=
    Lib.Delimiter.takeWhile_first_split hopen
  have htarget : target (obisCode r.line) = some (routed r.field) := by
    rw [hcode, target_eq, fieldOf_tableCode]
    rfl
  have hshort := h.short
  have hlt : starIndex (ascii (tableCode r.field)) r.text < 2 ^ 31 := by
    unfold starIndex valueStart
    omega
  unfold lineEffect
  rw [if_neg h.not_skipped, htarget]
  dsimp only
  rw [Reading.line, setValue_eq _ stof hopen hstar h.noStar hlt, h.value]
  rfl

end Reading.Sendable

/-! ## A telegram -/

section Telegram

variable (env : Env) {readings : List Reading} (h : ∀ r ∈ readings, r.Sendable env.stof)
include h

theorem isTelegramLine_readings : ∀ l ∈ [] :: readingLines readings, IsTelegramLine l := by
  rw [List.forall_mem_cons]
  refine ⟨by unfold IsTelegramLine; decide, List.forall_mem_map.mpr fun r hr => ?_⟩
  exact (h r hr).isTelegramLine

/-- A telegram writes the readings it is made of. -/
theorem messageWrites_readings :
    messageWrites env (telegram readings) = readings.map Reading.write := by
  unfold telegram
  rw [messageWrites_telegram env (isTelegramLine_readings env h) (spellsCrc_spellCrc _)]
  -- each line can be read, so none is cut off
  have hall : ∀ l ∈ readingLines readings, HpDataParser.succeeds env.stof l = true := by
    refine List.forall_mem_map.mpr fun r hr => ?_
    unfold HpDataParser.succeeds
    rw [(h r hr).lineEffect_line]
  rw [List.takeWhile_eq_self_iff.mpr hall]
  unfold readingLines
  rw [List.filterMap_map, ← List.filterMap_eq_map]
  refine List.filterMap_congr fun r hr => ?_
  show lineWrite env.stof r.line = _
  unfold lineWrite
  rw [(h r hr).lineEffect_line]
  rfl

theorem isFrame_readings : IsFrame (telegram readings) :=
  isFrame_telegram (isTelegramLine_readings env h) (spellsCrc_spellCrc _)

theorem not_rejected_readings : ¬ Rejected (telegram readings) := by
  intro hr
  exact hr.2 (passes_of_spellsCrc
    (bang_not_mem_telegramBody (isTelegramLine_readings env h)) (spellsCrc_spellCrc _))

end Telegram

/-! ## Behind any reads -/

/-- One more frame is one more iteration. -/
theorem program_concat (env : Env) (port : BitVec 32) (startEnv : StartEnv)
    (attempts : ℕ → ℕ → HpMqttPub.Attempt) {before reads : List ReadResult}
    (hframe : IsFrame (delivered reads)) :
    program env port startEnv attempts (before ++ reads) =
      let s := (program env port startEnv attempts before).1
      let c : Cycle := ⟨delivered reads, attempts (frames before).length⟩
      ((iteration env s c).1,
        (program env port startEnv attempts before).2 ++ (iteration env s c).2) := by
  have hline := frames_around before hframe []
  rw [List.append_nil, show frames [] = [] from rfl, List.append_nil] at hline
  rw [program_eq, program_eq, hline, cyclesFrom_concat, Nat.zero_add]
  unfold run
  rw [Reactive.run_append]
  simp only [Reactive.run, List.append_nil, List.append_assoc]

/-- A telegram of readings is handed to both sinks. -/
theorem handed_readings (env : Env) (port : BitVec 32) (startEnv : StartEnv)
    (attempts : ℕ → ℕ → HpMqttPub.Attempt) {readings : List Reading}
    (h : ∀ r ∈ readings, r.Sendable env.stof) (before : List ReadResult)
    {reads : List ReadResult} (hdelivers : delivered reads = telegram readings) :
    ∃ d, (program env port startEnv attempts (before ++ reads)).2.filterMap handed =
        (program env port startEnv attempts before).2.filterMap handed ++
          [(.publisher, d), (.modbus, d)] ∧
      d.heartbeat = BitVec.ofNat 32 ((frames before).length + 1) ∧
      ∀ f, d.get f = (Store.lastWrite (readings.map Reading.write) f).getD
        ((program env port startEnv attempts before).1.dataObj.get f) := by
  have hframe : IsFrame (delivered reads) := hdelivers ▸ isFrame_readings env h
  have hkept : ¬ Rejected (delivered reads) := hdelivers ▸ not_rejected_readings env h
  obtain ⟨events, hit, hhanded⟩ := iteration_of_not_rejected env
    (program env port startEnv attempts before).1
    (c := ⟨delivered reads, attempts (frames before).length⟩) hkept
  refine ⟨received env (program env port startEnv attempts before).1 (delivered reads),
    ?_, ?_, ?_⟩
  · rw [program_concat env port startEnv attempts hframe]
    dsimp only
    rw [hit, List.filterMap_append, hhanded]
  · rw [heartbeat_received, heartbeat_program]
    exact heartbeat_succ rfl
  · intro f
    rw [get_received, hdelivers, messageWrites_readings env h]

/-- The import of active energy at 5 kWh, as a meter sends it. -/
def fiveKilowattHours : Reading :=
  ⟨.activeEnergyImportTotal, ascii "5", Binary32.ofUnits false (5 * 2 ^ 149) (10 ^ 0)⟩

theorem sendable_fiveKilowattHours : fiveKilowattHours.Sendable bgsLokal.stof where
  line := by
    unfold IsTelegramLine
    decide
  noStar := by decide
  noStamp := by decide
  short := by decide
  value := by
    have hdigit : ∀ b ∈ ascii "5", Strtof.isDecDigit b = true := List.all_eq_true.mp rfl
    have hnum : Strtof.IsNumeral (ascii "5") false 5 0 := .digits .none hdigit (by decide)
    have hrange : Strtof.InFloatRange 5 0 := by decide
    simp only [bgsLokal, fiveKilowattHours]
    rw [Strtof.stof_of_isNumeral hnum, if_pos hrange]

/-- No line writes to the reactive import of L3. -/
theorem not_mem_messageWrites (env : Env) (message : List Byte) :
    Store.lastWrite (messageWrites env message) .l3ReactivePowerImport = none := by
  have hrouted : ∀ f, routed f ≠ .l3ReactivePowerImport := by
    intro f
    unfold routed
    split_ifs with hf
    · decide
    · exact hf
  rw [Store.lastWrite_eq_none_iff]
  intro w hw
  unfold messageWrites at hw
  cases hv : (validate message).2 with
  | error e =>
      rw [hv] at hw
      cases hw
  | ok lines =>
      rw [hv] at hw
      obtain ⟨line, -, hline⟩ := List.mem_filterMap.mp hw
      have htarget := target_of_lineWrite env.stof hline
      rw [target_eq, Option.map_eq_some_iff] at htarget
      obtain ⟨f, -, hf⟩ := htarget
      exact hf ▸ hrouted f

/-- The reactive import of L3 is 0 in the locals and in all objects handed over. -/
def NeverRead (events : List Event) (s : State) : Prop :=
  s.dataObj.get .l3ReactivePowerImport = 0 ∧
    ∀ p ∈ events.filterMap handed, p.2.get .l3ReactivePowerImport = 0

theorem neverRead_iteration (env : Env) (events : List Event) (s : State) (c : Cycle)
    (h : NeverRead events s) :
    NeverRead (events ++ (iteration env s c).2) (iteration env s c).1 := by
  have hnext : (iteration env s c).1.dataObj.get .l3ReactivePowerImport = 0 := by
    rw [get_iteration, not_mem_messageWrites, Option.getD_none, h.1]
  refine ⟨hnext, fun p hp => ?_⟩
  rw [List.filterMap_append, List.mem_append] at hp
  rcases hp with hin | hlast
  · exact h.2 p hin
  · rcases iteration_cases env s c with ⟨-, later, hit, hnone⟩ | ⟨-, later, hit, hhanded⟩
    · rw [hit] at hlast
      rw [hnone] at hlast
      cases hlast
    · rw [hit] at hlast hnext
      rw [hhanded] at hlast
      rcases List.mem_pair.mp hlast with rfl | rfl <;> exact hnext

/-- **One field is never read.** Where there is a text with a value other than 0 that a
line can hold: a field is 0 in every object that is ever handed to the publisher or to the
Modbus server, whatever comes over the line, iff it is the reactive import of L3. -/
theorem never_read_iff (env : Env) (r : Reading) (hr : r.Sendable env.stof) (hne : r.value ≠ 0)
    (f : Field) :
    (∀ port startEnv attempts reads,
      ∀ p ∈ (program env port startEnv attempts reads).2.filterMap handed, p.2.get f = 0) ↔
      f = .l3ReactivePowerImport := by
  constructor
  · intro hall
    by_contra hf
    have hsend : ∀ r' ∈ [{ r with field := f }], r'.Sendable env.stof :=
      List.forall_mem_singleton.mpr ⟨hr.line, hr.noStar, hr.noStamp, hr.short, hr.value⟩
    -- a telegram that sets any other field shows it
    obtain ⟨d, hhanded, -, hget⟩ := handed_readings env 0 ⟨true, true, 3, none⟩
      (fun _ _ => .delivered) hsend []
      (delivered_oneByteReads (telegram [{ r with field := f }]))
    have hzero := hall 0 ⟨true, true, 3, none⟩ (fun _ _ => .delivered)
      (oneByteReads (telegram [{ r with field := f }])) (.publisher, d)
    rw [List.nil_append] at hhanded
    rw [hhanded] at hzero
    have hvalue : d.get f = r.value := by
      rw [hget, List.map_singleton, Store.lastWrite_singleton]
      unfold Reading.write routed
      simp [hf]
    exact hne (hvalue.symm.trans (hzero (by simp)))
  · rintro rfl port startEnv attempts reads
    have hboot : NeverRead (boot env port startEnv).2 (boot env port startEnv).1 := by
      refine ⟨rfl, ?_⟩
      rw [handed_boot, List.forall_mem_singleton]
      rfl
    rw [program_eq]
    exact (Reactive.history_run (neverRead_iteration env) hboot _).2

/-- With the `std::stof` of the C locale. -/
theorem never_read_iff_bgsLokal :
    (∀ port startEnv attempts reads,
      ∀ p ∈ (program bgsLokal port startEnv attempts reads).2.filterMap handed,
        p.2.get .l3ReactivePowerImport = 0) ↔
      Field.l3ReactivePowerImport = .l3ReactivePowerImport :=
  never_read_iff bgsLokal fiveKilowattHours sendable_fiveKilowattHours (by decide) _

end Hanport.Main
