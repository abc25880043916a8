import Hanport.Logic.LineWrites
import Hanport.Model.Main

/-!
# What an iteration of the loop does

A message that the validator rejects costs the iteration its publishing and its
register update; any other message is a list of writes to the data object
(`messageWrites`), and the object they make is handed to the publisher and to
the Modbus server (`iteration_cases`).
-/

namespace Hanport.Main

open Lib Lib.Ascii HpModbuss HpDataParser HanportMessageValidator

/-- The message is given to the validator, and does not pass. -/
def Rejected (message : List Byte) : Prop := message ≠ [] ∧ ¬ Passes message

instance (message : List Byte) : Decidable (Rejected message) :=
  inferInstanceAs (Decidable (_ ∧ _))

/-- Where a data object goes. -/
inductive Sink where
  | publisher
  | modbus
  deriving DecidableEq, Repr

/-- The data object that an event hands over. -/
def handed : Event → Option (Sink × HpData)
  | .log _ _ => none
  | .publishAllData data _ _ => some (.publisher, data)
  | .setFromHpData data _ => some (.modbus, data)

/-- A line of the log other than the report of a published cycle. -/
def IsNote : Event → Prop
  | .log level text => level = .info → text ≠ "Data published successfully to MQTT"
  | .publishAllData _ _ _ => False
  | .setFromHpData _ _ => False

theorem handed_notes {log : List Event} (h : ∀ x ∈ log, IsNote x) : log.filterMap handed = [] := by
  rw [List.filterMap_eq_nil_iff]
  intro x hx
  have hnote := h x hx
  cases x with
  | log level text => rfl
  | publishAllData data messages success => exact hnote.elim
  | setFromHpData data startAddress => exact hnote.elim

/-- The writes that a message makes to the measured fields: those of its lines
before the first failing one. -/
def messageWrites (env : Env) (message : List Byte) : List (Field × Binary32) :=
  match (validate message).2 with
  | .error _ => []
  | .ok lines => (lines.takeWhile (succeeds env.stof)).filterMap (lineWrite env.stof)

/-- The data object after the message `message` in the state `s`. -/
def received (env : Env) (s : State) (message : List Byte) : HpData :=
  HpData.store.writeAll (messageWrites env message) (tick s message).dataObj

/-! ## The first two `try` blocks -/

theorem validate_of_not_passes {raw : List Byte} (h : ¬ Passes raw) :
    ∃ log e, validate raw = (log, .error e) ∧ ∀ x ∈ log, IsNote x := by
  unfold validate
  cases hv : new raw with
  | error e => exact ⟨_, _, rfl, List.forall_mem_nil _⟩
  | ok v =>
      dsimp only
      have hne : v.getCalculatedCrc ≠ v.getTransmittedCrc := fun heq => h ⟨v, hv, heq⟩
      rw [if_pos hne]
      exact ⟨_, _, rfl, List.forall_mem_singleton.mpr (by simp [IsNote])⟩

theorem validate_of_passes {raw : List Byte} (h : Passes raw) :
    ∃ log lines, validate raw = (log, .ok lines) ∧ ∀ x ∈ log, IsNote x := by
  obtain ⟨v, hv, heq⟩ := h
  unfold validate
  rw [hv]
  dsimp only
  rw [if_neg (not_not_intro heq), messageToStringArr_eq]
  exact ⟨_, _, rfl, List.forall_mem_singleton.mpr (by simp [IsNote])⟩

/-- The empty message does not pass. -/
theorem not_passes_nil : ¬ Passes [] := by
  intro hpasses
  obtain ⟨v, hv, _⟩ := hpasses
  cases hv

theorem parse_eq (env : Env) (lines : List (List Byte)) (d : HpData) :
    ∃ log, parse env lines d =
        (HpData.store.writeAll
          ((lines.takeWhile (succeeds env.stof)).filterMap (lineWrite env.stof)) d, log) ∧
      ∀ x ∈ log, IsNote x := by
  unfold parse HpDataParser.new
  by_cases hnil : lines = []
  · rw [dif_pos hnil, hnil]
    exact ⟨_, rfl, List.forall_mem_singleton.mpr (by simp [IsNote])⟩
  · rw [dif_neg hnil]
    dsimp only
    unfold parseMessage
    rw [parseLines_eq]
    cases outcome env.stof lines with
    | ok u => exact ⟨_, rfl, List.forall_mem_singleton.mpr (by simp [IsNote])⟩
    | error e => exact ⟨_, rfl, List.forall_mem_singleton.mpr (by simp [IsNote])⟩

/-! ## The iteration -/

@[simp] theorem tick_rawHpMessage (s : State) (message : List Byte) :
    (tick s message).rawHpMessage = message := rfl

theorem get_tick (s : State) (message : List Byte) (f : Field) :
    (tick s message).dataObj.get f = s.dataObj.get f := by
  cases f <;> rfl

/-- The state that publishing and writing the registers leave, for the data
object `d`. -/
def exposed (env : Env) (s : State) (d : HpData) : State where
  dataObj := d
  rawHpMessage := []
  heartbeat := s.heartbeat + 1
  modbusServer := HpModbuss.setFromHpData env.wild s.modbusServer d 0

/-- The events of publishing `d` and writing it to the registers. -/
def exposing (env : Env) (d : HpData) (attempts : ℕ → HpMqttPub.Attempt) : List Event :=
  [.publishAllData d (HpMqttPub.publishAllData attempts d env.site env.deviceId).1
     (HpMqttPub.publishAllData attempts d env.site env.deviceId).2,
   .log .info "Data published successfully to MQTT",
   .setFromHpData d 0,
   .log .debug s!"Modbus registers updated (heartbeat: {d.heartbeat.toInt})"]

theorem rejected_iteration (env : Env) (s : State) {c : Cycle} (h : Rejected c.message) :
    ∃ log, iteration env s c = (tick s c.message, log) ∧ ∀ x ∈ log, IsNote x := by
  obtain ⟨log, e, hv, hlog⟩ := validate_of_not_passes h.2
  unfold iteration
  dsimp only
  rw [tick_rawHpMessage, if_neg h.1, hv]
  refine ⟨_, rfl, List.forall_mem_append.mpr ⟨hlog, ?_⟩⟩
  exact List.forall_mem_singleton.mpr (by simp [IsNote])

theorem not_rejected_iteration (env : Env) (s : State) {c : Cycle} (h : ¬ Rejected c.message) :
    ∃ log, iteration env s c =
        (exposed env s (received env s c.message),
          log ++ exposing env (received env s c.message) c.attempts) ∧
      ∀ x ∈ log, IsNote x := by
  unfold iteration
  dsimp only
  rw [tick_rawHpMessage]
  by_cases hnil : c.message = []
  · have hreceived : received env s c.message = (tick s c.message).dataObj := by
      obtain ⟨log, e, hv, _⟩ := validate_of_not_passes not_passes_nil
      unfold received messageWrites
      rw [hnil, hv]
      rfl
    rw [if_pos hnil, hreceived]
    unfold publishAndWrite exposed tick
    rw [hnil]
    exact ⟨[], rfl, List.forall_mem_nil _⟩
  · have hpasses : Passes c.message := by
      by_contra hnot
      exact h ⟨hnil, hnot⟩
    obtain ⟨log, lines, hv, hlog⟩ := validate_of_passes hpasses
    obtain ⟨parseLog, hp, hparseLog⟩ := parse_eq env lines (tick s c.message).dataObj
    have hreceived : received env s c.message = (parse env lines (tick s c.message).dataObj).1 := by
      unfold received messageWrites
      rw [hv, hp]
    rw [if_neg hnil, hv, hreceived]
    dsimp only
    rw [hp]
    exact ⟨log ++ parseLog, rfl, List.forall_mem_append.mpr ⟨hlog, hparseLog⟩⟩

theorem iteration_of_rejected (env : Env) (s : State) {c : Cycle} (h : Rejected c.message) :
    ∃ events, iteration env s c = (tick s c.message, events) ∧ events.filterMap handed = [] := by
  obtain ⟨log, hit, hlog⟩ := rejected_iteration env s h
  exact ⟨log, hit, handed_notes hlog⟩

theorem iteration_of_not_rejected (env : Env) (s : State) {c : Cycle} (h : ¬ Rejected c.message) :
    ∃ events, iteration env s c = (exposed env s (received env s c.message), events) ∧
      events.filterMap handed =
        [(.publisher, received env s c.message), (.modbus, received env s c.message)] := by
  obtain ⟨log, hit, hlog⟩ := not_rejected_iteration env s h
  refine ⟨_, hit, ?_⟩
  rw [List.filterMap_append, handed_notes hlog]
  rfl

/-- **An iteration.** A rejected message changes nothing but the heartbeat and hands
over nothing; any other message has its object handed to both sinks. -/
theorem iteration_cases (env : Env) (s : State) (c : Cycle) :
    (Rejected c.message ∧ ∃ events, iteration env s c = (tick s c.message, events) ∧
      events.filterMap handed = []) ∨
    (¬ Rejected c.message ∧ ∃ events,
      iteration env s c = (exposed env s (received env s c.message), events) ∧
      events.filterMap handed =
        [(.publisher, received env s c.message), (.modbus, received env s c.message)]) := by
  by_cases h : Rejected c.message
  · exact .inl ⟨h, iteration_of_rejected env s h⟩
  · exact .inr ⟨h, iteration_of_not_rejected env s h⟩

/-- The message has the effect of its writes on the measured fields. -/
theorem get_received (env : Env) (s : State) (message : List Byte) (f : Field) :
    (received env s message).get f =
      (Store.lastWrite (messageWrites env message) f).getD (s.dataObj.get f) := by
  show HpData.store.get (HpData.store.writeAll _ _) f = _
  rw [Store.get_writeAll]
  cases f <;> rfl

theorem heartbeat_received (env : Env) (s : State) (message : List Byte) :
    (received env s message).heartbeat = s.heartbeat + 1 :=
  HpData.heartbeat_writeAll _ _

/-! ## The measured fields after a run -/

theorem dataObj_boot (env : Env) (port : BitVec 32) (startEnv : StartEnv) :
    (boot env port startEnv).1.dataObj = {} := rfl

theorem handed_startServer (port : BitVec 32) (startEnv : StartEnv) :
    (startServer port startEnv).2.filterMap handed = [] := by
  unfold startServer
  dsimp only
  cases (start { port := port.setWidth 16 } startEnv).2 <;> rfl

theorem handed_initRegisters (env : Env) (server : Impl) :
    (initRegisters env server).2.filterMap handed = [(.modbus, {})] := rfl

/-- Before the loop only the Modbus server gets an object, the initial one. -/
theorem handed_boot (env : Env) (port : BitVec 32) (startEnv : StartEnv) :
    (boot env port startEnv).2.filterMap handed = [(.modbus, {})] := by
  unfold boot
  dsimp only
  rw [List.filterMap_append, handed_startServer, handed_initRegisters, List.nil_append]

/-- The writes that the messages of a run make to the measured fields. -/
def runWrites (env : Env) (cycles : List Cycle) : List (Field × Binary32) :=
  cycles.flatMap fun c => messageWrites env c.message

theorem messageWrites_of_rejected (env : Env) {message : List Byte} (h : Rejected message) :
    messageWrites env message = [] := by
  obtain ⟨log, e, hv, -⟩ := validate_of_not_passes h.2
  unfold messageWrites
  rw [hv]

/-- An iteration has the effect of the writes of its message, rejected or not. -/
theorem get_iteration (env : Env) (s : State) (c : Cycle) (f : Field) :
    (iteration env s c).1.dataObj.get f =
      (Store.lastWrite (messageWrites env c.message) f).getD (s.dataObj.get f) := by
  rcases iteration_cases env s c with ⟨hr, events, hit, -⟩ | ⟨-, events, hit, -⟩
  · rw [hit, messageWrites_of_rejected env hr, Store.lastWrite_nil]
    exact get_tick s c.message f
  · rw [hit]
    exact get_received env s c.message f

/-- **After a run** a field has the value of its last write. -/
theorem get_run (env : Env) (s : State) (cycles : List Cycle) (f : Field) :
    (run env s cycles).1.dataObj.get f =
      (Store.lastWrite (runWrites env cycles) f).getD (s.dataObj.get f) := by
  unfold run runWrites
  induction cycles generalizing s with
  | nil => rfl
  | cons c cycles ih =>
      rw [Reactive.run, ih, get_iteration, List.flatMap_cons, Store.lastWrite_append]
      cases Store.lastWrite (cycles.flatMap fun c => messageWrites env c.message) f <;> rfl

end Hanport.Main
