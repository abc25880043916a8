import Hanport.Lib.DecimalPrint
import Hanport.Theorems.Exposure
import Hanport.Theorems.Gateway
import Hanport.Theorems.Numerals
import Hanport.Theorems.Subscriber

/-!
# What the payloads say

A payload is a text with two decimals. It is the nearest such text to the `float` of its
field; a numeral that the meter sends comes out as the nearest one too, up to one rounding
to `float`, and as the same number if it has at most two decimals and is not too large; and the
heartbeat comes out as an integer, which is the heartbeat as long as a `float` can hold it.
-/

namespace Hanport.Main

open Lib Lib.Ascii Lib.Strtof HpDataParser HpModbuss HpMqttPub HpSerialRead
  HanportMessageValidator

/-! ## Any payload -/

/-- What is no number is printed as a word. -/
def words : List String := ["nan", "-nan", "inf", "-inf"]

theorem fixed2_mem_words {x : Binary32} (h : x.isFinite = false) : x.fixed2 ∈ words := by
  have hkind : x.isNaN = true ∨ x.isNaN = false ∧ x.isInf = true := by
    rw [← Bool.not_eq_true, Binary32.isFinite_iff, not_and_or, Bool.not_eq_false,
      Bool.not_eq_false] at h
    cases hnan : x.isNaN with
    | true => exact .inl rfl
    | false => exact .inr ⟨rfl, h.resolve_left (by simp [hnan])⟩
  unfold Binary32.fixed2
  dsimp only
  rcases hkind with hnan | ⟨hnan, hinf⟩
  · rw [hnan, if_pos rfl]
    cases x.neg <;> decide
  · rw [hnan, hinf, if_neg Bool.false_ne_true, if_pos rfl]
    cases x.neg <;> decide

/-- The text is the nearest one with two decimals to the value. -/
def NearestPayload (value : ℚ) (payload : String) : Prop :=
  ∃ neg N, IsNumeral (ascii payload) neg N 2 ∧ |value - numeralValue neg N 2| ≤ 1 / 200 ∧
    ∀ neg' N', |value - numeralValue neg N 2| ≤ |value - numeralValue neg' N' 2|

theorem nearestPayload_fixed2 {x : Binary32} (h : x.isFinite = true) :
    NearestPayload x.value x.fixed2 :=
  ⟨_, _, Binary32.isNumeral_fixed2 h, Binary32.fixed2_near x, Binary32.fixed2_nearest x⟩

theorem getElem?_allMessages (env : Env) {data : HpData} {i : ℕ} {topic : String}
    {value : Binary32} (h : (individualFields data)[i]? = some (topic, value)) :
    (allMessages env data)[i]? =
      some ⟨env.site ++ "/" ++ env.deviceId ++ topic, value.fixed2, 1⟩ := by
  unfold allMessages fieldMessages
  rw [List.getElem?_map, h]
  rfl

/-- **The nearest text.** In every cycle that publishes, in whatever state, the message of
each field is below the base topic; its payload is the nearest text with two decimals to
the value of the field, at most half a hundredth off, or a word if that is no number. -/
theorem payload_nearest (env : Env) (s : State) (c : Cycle) (data : HpData)
    (messages : List Message) (success : Bool)
    (h : Event.publishAllData data messages success ∈ (iteration env s c).2) (i : ℕ)
    (topic : String) (value : Binary32)
    (hfield : (individualFields data)[i]? = some (topic, value)) :
    ∃ m, messages[i]? = some m ∧ m.topic = env.site ++ "/" ++ env.deviceId ++ topic ∧
      (value.isFinite = true → NearestPayload value.value m.payload) ∧
      (value.isFinite = false → m.payload ∈ words) := by
  obtain ⟨-, -, rfl, -⟩ := (publishAllData_mem_iff env s c _ _ _).mp h
  exact ⟨_, getElem?_allMessages env hfield, rfl, nearestPayload_fixed2, fixed2_mem_words⟩

/-- A telegram with a voltage of 230.4 V. -/
def voltageTelegram : List Byte :=
  frame (telegramBody [[], ascii "1-0:32.7.0(230.4*V)"]) (ascii "A92B")

theorem isTelegramLine_voltage :
    ∀ l ∈ [[], ascii "1-0:32.7.0(230.4*V)"], IsTelegramLine l := by
  unfold IsTelegramLine
  decide

set_option maxRecDepth 20000 in
theorem spellsCrc_voltage :
    SpellsCrc (ascii "A92B") (bodyCrc (telegramBody [[], ascii "1-0:32.7.0(230.4*V)"])) := by
  have hvalue : (bodyCrc (telegramBody [[], ascii "1-0:32.7.0(230.4*V)"])).toNat = 0xA92B := by rfl
  exact ⟨rfl, List.all_eq_true.mp rfl, hvalue.symm⟩

theorem isNumeral_voltage : IsNumeral (ascii "230.4") false 2304 1 :=
  .pointed .none (List.all_eq_true.mp rfl : ∀ b ∈ ascii "230", isDecDigit b = true) (by decide)
    (List.all_eq_true.mp rfl : ∀ b ∈ ascii "4", isDecDigit b = true) (by decide)

theorem voltageTelegram_kept : ¬ Rejected voltageTelegram :=
  fun hr => hr.2 (passes_of_spellsCrc (bang_not_mem_telegramBody isTelegramLine_voltage)
    spellsCrc_voltage)

/-- The voltage of the telegram, in the first cycle. -/
theorem payload_nearest_voltage :
    let data := received bgsLokal { modbusServer := { port := 502 } } voltageTelegram
    ∃ m, (allMessages bgsLokal data)[13]? = some m ∧
      m.topic = "bgs-lokal" ++ "/" ++ "meter1" ++ "/l1/voltage_rms" ∧
      (data.l1VoltageRms.isFinite = true → NearestPayload data.l1VoltageRms.value m.payload) ∧
      (data.l1VoltageRms.isFinite = false → m.payload ∈ words) := by
  intro data
  have hcall := (publishAllData_mem_iff bgsLokal { modbusServer := { port := 502 } }
    ⟨voltageTelegram, fun _ => .delivered⟩ data _ _).mpr ⟨voltageTelegram_kept, rfl, rfl, rfl⟩
  exact payload_nearest bgsLokal _ _ _ _ _ hcall 13 _ _ rfl

/-! ## A numeral of the meter -/

/-- The topic of a field below the base topic. -/
def fieldTopic : Field → String
  | .activeEnergyImportTotal => "/energy/active_import_total"
  | .activeEnergyExportTotal => "/energy/active_export_total"
  | .reactiveEnergyImportTotal => "/energy/reactive_import_total"
  | .reactiveEnergyExportTotal => "/energy/reactive_export_total"
  | .activePowerImport => "/power/active_import"
  | .activePowerExport => "/power/active_export"
  | .reactivePowerImport => "/power/reactive_import"
  | .reactivePowerExport => "/power/reactive_export"
  | .l1ActivePowerImport => "/l1/active_power_import"
  | .l1ActivePowerExport => "/l1/active_power_export"
  | .l2ActivePowerImport => "/l2/active_power_import"
  | .l2ActivePowerExport => "/l2/active_power_export"
  | .l3ActivePowerImport => "/l3/active_power_import"
  | .l3ActivePowerExport => "/l3/active_power_export"
  | .l1ReactivePowerImport => "/l1/reactive_power_import"
  | .l1ReactivePowerExport => "/l1/reactive_power_export"
  | .l2ReactivePowerImport => "/l2/reactive_power_import"
  | .l2ReactivePowerExport => "/l2/reactive_power_export"
  | .l3ReactivePowerImport => "/l3/reactive_power_import"
  | .l3ReactivePowerExport => "/l3/reactive_power_export"
  | .l1VoltageRms => "/l1/voltage_rms"
  | .l2VoltageRms => "/l2/voltage_rms"
  | .l3VoltageRms => "/l3/voltage_rms"
  | .l1CurrentRms => "/l1/current_rms"
  | .l2CurrentRms => "/l2/current_rms"
  | .l3CurrentRms => "/l3/current_rms"

theorem mem_individualFields (data : HpData) (f : Field) :
    (fieldTopic f, data.get f) ∈ individualFields data := by
  cases f <;> simp [individualFields, fieldTopic, HpData.get]

/-- The rounded count: an integer that is off by a relative `2^-24` at most. -/
theorem ofInt_close {n : ℕ} (hn : n < 2 ^ 31) :
    ∃ w : ℕ, (Binary32.ofInt n).fixed2 = toString w ++ ".00" ∧ 2 ^ 24 * |(w : ℤ) - n| ≤ n ∧
      (w = n ↔ ∃ m e, m < 2 ^ 24 ∧ n = m * 2 ^ e) := by
  obtain ⟨w, hw⟩ := Binary32.dvd_units_ofInt hn
  have hword : (Binary32.ofInt n).units / 2 ^ 149 = w := by
    rw [hw]
    exact Nat.mul_div_cancel_left w (by positivity)
  refine ⟨w, by rw [Binary32.fixed2_ofInt hn, hword], ?_, ?_⟩
  · rcases Nat.eq_zero_or_pos n with rfl | hpos
    · have hzero : w = 0 := by
        rw [← hword]
        rfl
      simp [hzero]
    · have hfinite := Binary32.isFinite_ofInt hn
      have hclose := Binary32.value_close false (N := n) (k := 0)
        (by rwa [pow_zero, ← Binary32.ofInt_natCast])
      have hneg : (Binary32.ofInt n).neg = false := by
        rw [Binary32.ofInt_natCast, Binary32.neg_ofUnits]
      have hvalue : (Binary32.ofInt n).value = w := by
        rw [Binary32.value_of_not_neg hneg, hw]
        push_cast
        field_simp
        ring
      have hnumeral : numeralValue false n 0 = n := by
        simp [numeralValue]
      -- from 1 on the relative bound is the larger one
      have hn1 : (1 : ℚ) ≤ n := by exact_mod_cast hpos
      have habs : |(n : ℚ)| = n := abs_of_nonneg (by positivity)
      rw [pow_zero, ← Binary32.ofInt_natCast, hvalue, hnumeral, habs, max_eq_left (by linarith),
        le_div_iff₀ (by positivity)] at hclose
      have hcast : ((2 ^ 24 * |(w : ℤ) - n| : ℤ) : ℚ) ≤ (n : ℤ) := by
        push_cast
        linarith
      exact_mod_cast hcast
  · rw [← Binary32.units_ofInt_eq_iff hn, hw, Nat.mul_comm n]
    exact (Nat.mul_right_inj (by positivity)).symm

/-- **The heartbeat of the broker.** In every run from the start of fewer than `2^31`
cycles, a cycle that publishes does so with an integer as its `/timestamp`. It is off by
a relative `2^-24` at most, and is the number of the cycle iff that is a number of at most
24 bits times a power of two. -/
theorem timestamp_exact_iff (env : Env) (port : BitVec 32) (startEnv : StartEnv)
    (cycles : List Cycle) (n : ℕ) (hn : n < cycles.length) (hsize : n + 1 < 2 ^ 31)
    (hr : ¬ Rejected cycles[n].message) :
    ∃ data messages success, ∃ w : ℕ,
      Event.publishAllData data messages success ∈
        cycleEvents env (boot env port startEnv).1 cycles n hn ∧
      messages[0]? =
        some ⟨env.site ++ "/" ++ env.deviceId ++ "/timestamp", toString w ++ ".00", 1⟩ ∧
      2 ^ 24 * |(w : ℤ) - (n + 1 : ℕ)| ≤ (n + 1 : ℕ) ∧
      (w = n + 1 ↔ ∃ m e, m < 2 ^ 24 ∧ n + 1 = m * 2 ^ e) := by
  have hcounted : Counted n (run env (boot env port startEnv).1 (cycles.take n)).1 :=
    Reactive.counted_run (counted_boot env port startEnv)
      (fun _ _ c h => counted_iteration env c h) cycles hn.le
  obtain ⟨w, hprinted, hclose, hexact⟩ := ofInt_close hsize
  refine ⟨_, _, _, w, (publishAllData_mem_iff env _ _ _ _ _).mpr ⟨hr, rfl, rfl, rfl⟩, ?_, hclose,
    hexact⟩
  rw [getElem?_allMessages env rfl, heartbeat_received, heartbeat_succ hcounted.heartbeat,
    toInt_ofNat_of_lt hsize, hprinted]

/-- The same telegram, `2 ^ 24 + 1` times. -/
def longRun : List Cycle := List.replicate (2 ^ 24 + 1) ⟨voltageTelegram, fun _ => .delivered⟩

theorem length_longRun : 2 ^ 24 < longRun.length := by
  unfold longRun
  rw [List.length_replicate]
  exact Nat.lt_succ_self _

theorem kept_longRun (n : ℕ) (hn : n < longRun.length) : ¬ Rejected longRun[n].message := by
  simp only [longRun, List.getElem_replicate]
  exact voltageTelegram_kept

/-- The last cycle of the long run is not told as it is. -/
theorem timestamp_exact_iff_long :
    ∃ data messages success, ∃ w : ℕ,
      Event.publishAllData data messages success ∈
        cycleEvents bgsLokal (boot bgsLokal 502 ⟨true, true, 3, none⟩).1 longRun (2 ^ 24)
          length_longRun ∧
      messages[0]? = some ⟨"bgs-lokal" ++ "/" ++ "meter1" ++ "/timestamp", toString w ++ ".00", 1⟩ ∧
      2 ^ 24 * |(w : ℤ) - (2 ^ 24 + 1 : ℕ)| ≤ (2 ^ 24 + 1 : ℕ) ∧ w ≠ 2 ^ 24 + 1 := by
  obtain ⟨data, messages, success, w, hcall, hmessage, hclose, hexact⟩ :=
    timestamp_exact_iff bgsLokal 502 ⟨true, true, 3, none⟩ longRun (2 ^ 24) length_longRun
      (by norm_num) (kept_longRun _ _)
  refine ⟨data, messages, success, w, hcall, hmessage, hclose, fun hw => ?_⟩
  -- the number is odd, and too long
  obtain ⟨m, e, hm, hodd⟩ := hexact.mp hw
  cases e with
  | zero => omega
  | succ e =>
      have heven : m * 2 ^ (e + 1) = m * 2 ^ e * 2 := by ring
      omega

end Hanport.Main
