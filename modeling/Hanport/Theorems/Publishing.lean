import Hanport.Logic.MainLoop

/-!
# Which cycles are reported as published

`publish` turns a failure into `false`, and `publishAllData` returns whether all
27 fields were delivered. `main` does not look at that result: it waits for an
exception that never comes, and reports every cycle that it publishes at all.
-/

namespace Hanport.Main

open Lib Lib.Ascii HpMqttPub

/-- The events of iteration `n` of a run. -/
def cycleEvents (env : Env) (s : State) (cycles : List Cycle) (n : ℕ) (hn : n < cycles.length) :
    List Event :=
  (iteration env (run env s (cycles.take n)).1 cycles[n]).2

/-- The path behind `publishAllData` that reports success. -/
def ReportsPublished (events : List Event) : Prop :=
  Event.log .info "Data published successfully to MQTT" ∈ events

/-- The cycle attempts 27 messages, and each attempt succeeds. -/
def AllPublished (c : Cycle) (events : List Event) : Prop :=
  ∃ data messages success, Event.publishAllData data messages success ∈ events ∧
    messages.length = 27 ∧ ∀ i < messages.length, publish (c.attempts i) = true

/-- The messages of the 27 fields. -/
def allMessages (env : Env) (data : HpData) : List Message :=
  fieldMessages (env.site ++ "/" ++ env.deviceId) (individualFields data)

theorem length_allMessages (env : Env) (data : HpData) : (allMessages env data).length = 27 := by
  unfold allMessages fieldMessages
  rw [List.length_map]
  rfl

theorem publish_iff (attempt : Attempt) : publish attempt = true ↔ attempt = .delivered := by
  cases attempt <;> decide

/-- All 27 attempts of a cycle succeed. -/
def allSucceed (attempts : ℕ → Attempt) : Bool :=
  (List.range 27).all fun i => publish (attempts i)

theorem allSucceed_iff (attempts : ℕ → Attempt) :
    allSucceed attempts = true ↔ ∀ i < 27, attempts i = .delivered := by
  simp only [allSucceed, List.all_eq_true, List.mem_range, publish_iff]

/-- `publishAllData` attempts all messages and returns whether each was delivered. -/
theorem publishAllData_eq (env : Env) (data : HpData) (attempts : ℕ → Attempt) :
    publishAllData attempts data env.site env.deviceId =
      (allMessages env data, allSucceed attempts) := by
  unfold publishAllData publishIndividualFields
  rw [publishFields_eq, Bool.true_and]
  simp only [Nat.zero_add]
  rfl

/-! ## One iteration -/

/-- Only a rejected message keeps a cycle from the report. -/
theorem reportsPublished_iff (env : Env) (s : State) (c : Cycle) :
    ReportsPublished (iteration env s c).2 ↔ ¬ Rejected c.message := by
  unfold ReportsPublished
  by_cases hr : Rejected c.message
  · obtain ⟨log, hit, hlog⟩ := rejected_iteration env s hr
    rw [hit]
    exact iff_of_false (fun hmem => hlog _ hmem rfl rfl) (not_not_intro hr)
  · obtain ⟨log, hit, -⟩ := not_rejected_iteration env s hr
    rw [hit]
    exact iff_of_true (List.mem_append_right _ (by simp [exposing])) hr

/-- A cycle calls `publishAllData` once, for all fields, unless its message is
rejected. -/
theorem publishAllData_mem_iff (env : Env) (s : State) (c : Cycle) (data : HpData)
    (messages : List Message) (success : Bool) :
    Event.publishAllData data messages success ∈ (iteration env s c).2 ↔
      ¬ Rejected c.message ∧ data = received env s c.message ∧
        messages = allMessages env data ∧ success = allSucceed c.attempts := by
  by_cases hr : Rejected c.message
  · obtain ⟨log, hit, hlog⟩ := rejected_iteration env s hr
    rw [hit]
    exact iff_of_false (fun hmem => hlog _ hmem) fun h => h.1 hr
  · obtain ⟨log, hit, hlog⟩ := not_rejected_iteration env s hr
    have hnone : Event.publishAllData data messages success ∉ log := fun hmem => hlog _ hmem
    rw [hit, List.mem_append, or_iff_right hnone, and_iff_right hr]
    unfold exposing
    rw [publishAllData_eq]
    simp only [List.mem_cons, Event.publishAllData.injEq, reduceCtorEq, List.not_mem_nil, or_false]
    apply and_congr_right
    rintro rfl
    rfl

theorem allPublished_iff (env : Env) (s : State) (c : Cycle) :
    AllPublished c (iteration env s c).2 ↔
      ¬ Rejected c.message ∧ ∀ i < 27, c.attempts i = .delivered := by
  constructor
  · rintro ⟨data, messages, success, hmem, hlength, hall⟩
    rw [hlength] at hall
    have hcall := (publishAllData_mem_iff env s c _ _ _).mp hmem
    refine ⟨hcall.1, (allSucceed_iff _).mp ?_⟩
    simpa only [allSucceed, List.all_eq_true, List.mem_range] using hall
  · rintro ⟨hr, hall⟩
    refine ⟨_, _, _, (publishAllData_mem_iff env s c _ _ _).mpr ⟨hr, rfl, rfl, rfl⟩,
      length_allMessages env _, ?_⟩
    intro i hi
    rw [length_allMessages] at hi
    rw [hall i hi]
    rfl

/-! ## Runs -/

/-- **A report means delivery iff nothing fails.** In a run of the loop, the cycles
that are reported as published are those whose 27 messages were all delivered, iff
each cycle has its message rejected or all its attempts delivered. Whatever fails, a
cycle whose message is not rejected attempts the messages of all fields, and
`publishAllData` tells whether all were delivered. -/
theorem reports_match_deliveries_iff (env : Env) (s : State) (cycles : List Cycle) :
    ((∀ (n : ℕ) (hn : n < cycles.length),
        ReportsPublished (cycleEvents env s cycles n hn) ↔
          AllPublished cycles[n] (cycleEvents env s cycles n hn)) ↔
      ∀ c ∈ cycles, Rejected c.message ∨ ∀ i < 27, c.attempts i = .delivered) ∧
    (∀ (n : ℕ) (hn : n < cycles.length), ¬ Rejected cycles[n].message →
      ∃ data success, Event.publishAllData data (allMessages env data) success ∈
        cycleEvents env s cycles n hn) ∧
    (∀ (n : ℕ) (hn : n < cycles.length) (data : HpData) (messages : List Message)
        (success : Bool),
      Event.publishAllData data messages success ∈ cycleEvents env s cycles n hn →
        messages = allMessages env data ∧ messages.length = 27 ∧
          (success = true ↔ ∀ i < 27, cycles[n].attempts i = .delivered)) := by
  refine ⟨?_, ?_, ?_⟩
  · rw [List.forall_mem_iff_forall_getElem]
    apply forall₂_congr
    intro n hn
    unfold cycleEvents
    rw [reportsPublished_iff, allPublished_iff]
    tauto
  · intro n hn hr
    exact ⟨_, _, (publishAllData_mem_iff env _ _ _ _ _).mpr ⟨hr, rfl, rfl, rfl⟩⟩
  · intro n hn data messages success hmem
    obtain ⟨-, -, hmessages, hsuccess⟩ := (publishAllData_mem_iff env _ _ _ _ _).mp hmem
    refine ⟨hmessages, ?_, ?_⟩
    · rw [hmessages, length_allMessages]
    · rw [hsuccess, allSucceed_iff]

/-- A cycle whose first publish finds no connection is reported all the same. -/
theorem unpublished_cycle_reported :
    ¬ ∀ (env : Env) (s : State) (cycles : List Cycle) (n : ℕ) (hn : n < cycles.length),
      ReportsPublished (cycleEvents env s cycles n hn) ↔
        AllPublished cycles[n] (cycleEvents env s cycles n hn) := by
  intro hall
  have hkept : ¬ Rejected (ascii "/!28DC") := by decide +kernel
  have hcycle := hall bgsLokal { modbusServer := { port := 502 } }
    [{ message := ascii "/!28DC"
       attempts := fun i => if i = 0 then .notConnected else .delivered }] 0 (by decide)
  unfold cycleEvents at hcycle
  rw [reportsPublished_iff, allPublished_iff] at hcycle
  exact absurd ((hcycle.mp hkept).2 0 (by decide)) (by decide)

end Hanport.Main
