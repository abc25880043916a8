import Hanport.Logic.MainLoop

/-!
# A telegram that fails to parse

`parse_message` assigns line by line and has nothing to undo its assignments with,
so an exception leaves the object as the lines before the failing one made it, and
that object is what `main` goes on to publish and to write.
-/

namespace Hanport.Main

open Lib Lib.Ascii HpModbuss HpDataParser

/-- The failing line: it has a known code, and its value cannot be had. -/
structure FailsWith (stof : List Byte → Option Binary32) (line : List Byte) (e : String) :
    Prop where
  parsed : ¬ Skipped line
  known : ∃ f, target (obisCode line) = some f
  failed : setValue stof line = .error e

theorem lineEffect_eq_error {stof : List Byte → Option Binary32} {line : List Byte} {e : String}
    (h : lineEffect stof line = .error e) : FailsWith stof line e := by
  unfold lineEffect at h
  split_ifs at h with hs
  cases ht : target (obisCode line) with
  | none =>
      rw [ht] at h
      cases h
  | some f =>
      rw [ht] at h
      cases hv : setValue stof line with
      | ok value =>
          rw [hv] at h
          cases h
      | error e' =>
          rw [hv] at h
          cases h
          exact ⟨hs, ⟨f, ht⟩, hv⟩

/-- An exception of `parse_message` leaves what the lines before the failing line
make of the object. -/
theorem parseMessage_eq_error {stof : List Byte → Option Binary32} {parser : HpDataParser}
    {d : HpData} {e : String} (h : (parser.parseMessage stof d).2 = .error e) :
    ∃ pre bad post, parser.messageArray = pre ++ bad :: post ∧
      FailsWith stof bad e ∧
      parseLines stof pre d = ((parser.parseMessage stof d).1, .ok ()) ∧
      (parser.parseMessage stof d).1 =
        HpData.store.writeAll (pre.filterMap (lineWrite stof)) d := by
  unfold parseMessage at h ⊢
  rw [parseLines_eq] at h ⊢
  obtain ⟨pre, bad, post, harr, hpre, hbad, htake⟩ := outcome_eq_error stof h
  refine ⟨pre, bad, post, harr, lineEffect_eq_error hbad, ?_, ?_⟩
  · have hall := (outcome_eq_ok_iff stof pre).mp hpre
    rw [parseLines_eq, hpre, htake, List.takeWhile_eq_self_iff.mpr hall]
  · show HpData.store.writeAll _ d = _
    rw [htake]

/-- What `main` hands over after a message that the validator accepts. -/
theorem iteration_of_valid (env : Env) (s : State) {c : Cycle} {parser : HpDataParser}
    (hvalid : (validate c.message).2 = .ok parser.messageArray) :
    (iteration env s c).1.dataObj =
        (parser.parseMessage env.stof (tick s c.message).dataObj).1 ∧
      (iteration env s c).2.filterMap handed =
        [(.publisher, (parser.parseMessage env.stof (tick s c.message).dataObj).1),
         (.modbus, (parser.parseMessage env.stof (tick s c.message).dataObj).1)] := by
  have hkept : ¬ Rejected c.message := by
    intro hr
    obtain ⟨log, e, hv, _⟩ := validate_of_not_passes hr.2
    rw [hv] at hvalid
    cases hvalid
  have hreceived : received env s c.message =
      (parser.parseMessage env.stof (tick s c.message).dataObj).1 := by
    unfold received messageWrites parseMessage
    rw [hvalid, parseLines_eq]
  obtain ⟨events, hit, hhanded⟩ := iteration_of_not_rejected env s hkept
  rw [hit, ← hreceived]
  exact ⟨rfl, hhanded⟩

/-- Writes leave an object as it was iff the last one to each field repeats its
value. -/
theorem writeAll_eq_self_iff (ws : List (Field × Binary32)) (d : HpData) :
    HpData.store.writeAll ws d = d ↔
      ∀ f v, Store.lastWrite ws f = some v → v = d.get f := by
  have hget : ∀ f, (HpData.store.writeAll ws d).get f =
      (Store.lastWrite ws f).getD (d.get f) := HpData.store.get_writeAll ws d
  constructor
  · intro h f v hv
    have hf := hget f
    rw [h, hv] at hf
    exact hf.symm
  · intro h
    apply HpData.ext_get (HpData.heartbeat_writeAll ws d)
    intro f
    rw [hget]
    cases hv : Store.lastWrite ws f with
    | none => rfl
    | some v => exact h f v hv

/-- **A message that fails to parse counts up to its first failing line.** If
`parse_message` throws, the lines before the one that failed have been processed
and nothing else has happened: each measured field holds the last value that these
lines give it, or its prior value. The object is as before only where these values
repeat the prior ones. `main` hands exactly this object to both sinks. -/
theorem failed_parse_keeps_prefix (env : Env) {parser : HpDataParser} {d : HpData} {e : String}
    (h : (parser.parseMessage env.stof d).2 = .error e) :
    ∃ pre bad post, parser.messageArray = pre ++ bad :: post ∧ FailsWith env.stof bad e ∧
      parseLines env.stof pre d = ((parser.parseMessage env.stof d).1, .ok ()) ∧
      (parser.parseMessage env.stof d).1.heartbeat = d.heartbeat ∧
      (∀ f, (parser.parseMessage env.stof d).1.get f =
        (Store.lastWrite (pre.filterMap (lineWrite env.stof)) f).getD (d.get f)) ∧
      ((parser.parseMessage env.stof d).1 = d ↔
        ∀ f v, Store.lastWrite (pre.filterMap (lineWrite env.stof)) f = some v → v = d.get f) ∧
      ∀ (s : State) (c : Cycle), (tick s c.message).dataObj = d →
        (validate c.message).2 = .ok parser.messageArray →
        (iteration env s c).1.dataObj = (parser.parseMessage env.stof d).1 ∧
        (iteration env s c).2.filterMap handed =
          [(.publisher, (parser.parseMessage env.stof d).1),
           (.modbus, (parser.parseMessage env.stof d).1)] := by
  obtain ⟨pre, bad, post, harr, hbad, hlines, hwrites⟩ := parseMessage_eq_error h
  refine ⟨pre, bad, post, harr, hbad, hlines, ?_, ?_, ?_, ?_⟩
  · rw [hwrites, HpData.heartbeat_writeAll]
  · rw [hwrites]
    exact HpData.store.get_writeAll _ d
  · rw [hwrites]
    exact writeAll_eq_self_iff _ d
  · intro s c htick hvalid
    rw [← htick]
    exact iteration_of_valid env s hvalid

/-- The second line of a message fails, after the first has been stored. -/
theorem failed_parse_keeps_prefix_second_line :
    ∃ pre bad post, [ascii "1-0:1.8.0(1*kWh)", ascii "1-0:2.8.0(x*kWh)"] = pre ++ bad :: post ∧
      FailsWith Strtof.stof bad "failed to convert string to float for value" := by
  let parser : HpDataParser := ⟨[ascii "1-0:1.8.0(1*kWh)", ascii "1-0:2.8.0(x*kWh)"], by simp⟩
  have hfails : (parser.parseMessage Strtof.stof {}).2 =
      .error "failed to convert string to float for value" := rfl
  obtain ⟨pre, bad, post, harr, hbad, _⟩ := failed_parse_keeps_prefix bgsLokal hfails
  exact ⟨pre, bad, post, harr, hbad⟩

/-- The first line of that message has changed the object. -/
theorem failed_parse_changes_readings :
    ¬ ∀ (parser : HpDataParser) (d : HpData),
      (∃ e, (parser.parseMessage Strtof.stof d).2 = .error e) →
      (parser.parseMessage Strtof.stof d).1 = d := by
  intro hall
  let parser : HpDataParser := ⟨[ascii "1-0:1.8.0(1*kWh)", ascii "1-0:2.8.0(x*kWh)"], by simp⟩
  have hfails : (parser.parseMessage Strtof.stof {}).2 =
      .error "failed to convert string to float for value" := rfl
  have hvalue : (parser.parseMessage Strtof.stof {}).1.activeEnergyImportTotal ≠ 0 := by
    decide
  exact hvalue (congrArg HpData.activeEnergyImportTotal (hall parser {} ⟨_, hfails⟩))

end Hanport.Main
