import Hanport.Logic.MainLoop

/-!
# Rejected messages do not reach the measurements

Two runs whose messages differ only in rejected ones hand the same measured values
to the publisher and to the Modbus server, in the same order: a rejected message is
hidden, states are equivalent when their measured fields agree, and the writes of
any other message do not depend on the state it arrives in.
-/

namespace Hanport.Main

open Lib Lib.Ascii HpModbuss

/-- The 26 measured values of an object. -/
def measured (d : HpData) : List Binary32 := Field.all.map d.get

/-- The measured values that an event hands over. -/
def handedValues (e : Event) : Option (Sink × List Binary32) :=
  (handed e).map fun p => (p.1, measured p.2)

/-- The messages that are not rejected. -/
def kept (messages : List (List Byte)) : List (List Byte) :=
  messages.filter fun message => ¬ Rejected message

/-- States whose measured fields agree. -/
def SameReadings (s t : State) : Prop := ∀ f, s.dataObj.get f = t.dataObj.get f

theorem sameReadings_equivalence : Equivalence SameReadings where
  refl _ _ := rfl
  symm h f := (h f).symm
  trans h h' f := (h f).trans (h' f)

theorem filterMap_handedValues (events : List Event) :
    events.filterMap handedValues =
      (events.filterMap handed).map fun p => (p.1, measured p.2) := by
  rw [List.map_filterMap]
  rfl

/-- What the run can see of the message of a cycle. -/
def visible (c : Cycle) : Option (List Byte) :=
  if Rejected c.message then none else some c.message

theorem filterMap_visible (cycles : List Cycle) :
    cycles.filterMap visible = kept (cycles.map Cycle.message) := by
  induction cycles with
  | nil => rfl
  | cons c cycles ih =>
      unfold kept at ih ⊢
      rw [List.map_cons]
      by_cases h : Rejected c.message
      · have hnone : visible c = none := if_pos h
        rw [List.filterMap_cons_none hnone, ih, List.filter_cons_of_neg (by simpa using h)]
      · have hsome : visible c = some c.message := if_neg h
        rw [List.filterMap_cons_some hsome, ih, List.filter_cons_of_pos (by simpa using h)]

/-- A rejected message keeps the readings and hands over nothing. -/
theorem iteration_hidden (env : Env) (s : State) (c : Cycle) (h : visible c = none) :
    SameReadings s (iteration env s c).1 ∧
      (iteration env s c).2.filterMap handedValues = [] := by
  have hr : Rejected c.message := by
    by_contra hnot
    rw [visible, if_neg hnot] at h
    cases h
  obtain ⟨events, hit, hnone⟩ := iteration_of_rejected env s hr
  rw [hit, filterMap_handedValues, hnone]
  exact ⟨fun f => (get_tick s c.message f).symm, rfl⟩

theorem measured_eq {d e : HpData} (h : ∀ f, d.get f = e.get f) : measured d = measured e :=
  List.map_congr_left fun f _ => h f

/-- The same message takes equal readings to equal readings, and hands over the
same values. -/
theorem iteration_visible (env : Env) (s t : State) (c c' : Cycle) (message : List Byte)
    (hst : SameReadings s t) (hc : visible c = some message) (hc' : visible c' = some message) :
    SameReadings (iteration env s c).1 (iteration env t c').1 ∧
      (iteration env s c).2.filterMap handedValues =
        (iteration env t c').2.filterMap handedValues := by
  have hof : ∀ c : Cycle, visible c = some message → ¬ Rejected message ∧ c.message = message := by
    intro c hc
    rw [visible] at hc
    split_ifs at hc with hr
    cases hc
    exact ⟨hr, rfl⟩
  obtain ⟨hr, hm⟩ := hof c hc
  obtain ⟨_, hm'⟩ := hof c' hc'
  obtain ⟨events, hit, hhanded⟩ := iteration_of_not_rejected env s (c := c) (hm ▸ hr)
  obtain ⟨events', hit', hhanded'⟩ := iteration_of_not_rejected env t (c := c') (hm' ▸ hr)
  have hreceived : ∀ f, (received env s message).get f = (received env t message).get f := by
    intro f
    rw [get_received, get_received, hst f]
  rw [hit, hit', filterMap_handedValues, filterMap_handedValues, hhanded, hhanded', hm, hm']
  refine ⟨hreceived, ?_⟩
  simp only [List.map_cons, List.map_nil, measured_eq hreceived]

/-- **Rejected messages do not influence the measurements.** Runs from states with
equal readings, whose messages are the same apart from rejected ones, hand the same
measured values to `publishAllData` and to `set_from_hpData`. -/
theorem rejected_messages_invisible (env : Env) {s t : State} (hst : SameReadings s t)
    {cycles cycles' : List Cycle}
    (h : kept (cycles.map Cycle.message) = kept (cycles'.map Cycle.message)) :
    (run env s cycles).2.filterMap handedValues =
      (run env t cycles').2.filterMap handedValues := by
  rw [← filterMap_visible, ← filterMap_visible] at h
  exact Reactive.observed_eq sameReadings_equivalence (iteration_hidden env)
    (iteration_visible env) hst h

/-- A valid reading of 2 kWh, alone and between two rejected messages, on a server
that runs and on one that could not start. -/
theorem rejected_messages_invisible_around_reading :
    (run bgsLokal (boot bgsLokal 502 ⟨true, true, 3, none⟩).1
      [{ message := ascii "/\n1-0:1.8.0(2*kWh)\n!B3D3" }]).2.filterMap handedValues =
    (run bgsLokal (boot bgsLokal 502 ⟨false, true, 3, none⟩).1
      [{ message := ascii "/!0000" }, { message := ascii "/\n1-0:1.8.0(2*kWh)\n!B3D3" },
       { message := ascii "/\n1-0:1.8.0(2*kWh)\n!zzzz" }]).2.filterMap handedValues := by
  have hboot : SameReadings (boot bgsLokal 502 ⟨true, true, 3, none⟩).1
      (boot bgsLokal 502 ⟨false, true, 3, none⟩).1 := fun f => by
    rw [dataObj_boot, dataObj_boot]
  have hkept : kept [ascii "/\n1-0:1.8.0(2*kWh)\n!B3D3"] =
      kept [ascii "/!0000", ascii "/\n1-0:1.8.0(2*kWh)\n!B3D3",
        ascii "/\n1-0:1.8.0(2*kWh)\n!zzzz"] := by
    decide +kernel
  exact rejected_messages_invisible bgsLokal hboot hkept

end Hanport.Main
