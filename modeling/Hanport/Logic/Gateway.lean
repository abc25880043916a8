import Hanport.Logic.MainLoop
import Hanport.Model.Program

/-!
# What the program is for

The gateway, without bytes, registers and topics: it counts its cycles, keeps the last
reading of each field, and shows a snapshot of both to the publisher and to the Modbus
server whenever a telegram has arrived that can be used. `main` simulates it
(`iteration_simulates`).
-/

namespace Hanport.Main

open Lib Lib.Ascii HpModbuss HpSerialRead HanportMessageValidator

/-- What has arrived in a cycle. -/
inductive Arrival where
  | unusable
  | telegram (values : List (Field × Binary32))

structure Snapshot where
  heartbeat : BitVec 32
  reading : Field → Binary32

/-- The state of the gateway. -/
structure Gateway where
  cycles : ℕ := 0
  reading : Field → Binary32 := fun _ => 0

namespace Gateway

/-- The count is shown modulo `2^32`. -/
def snapshot (g : Gateway) : Snapshot := ⟨BitVec.ofNat 32 g.cycles, g.reading⟩

/-- One cycle. -/
def step (g : Gateway) : Arrival → Gateway × List (Sink × Snapshot)
  | .unusable => ({ g with cycles := g.cycles + 1 }, [])
  | .telegram values =>
      let g : Gateway :=
        { cycles := g.cycles + 1
          reading := fun f => (Store.lastWrite values f).getD (g.reading f) }
      (g, [(.publisher, g.snapshot), (.modbus, g.snapshot)])

/-- What is shown over a list of cycles. -/
def shows (arrivals : List Arrival) : List (Sink × Snapshot) :=
  (Reactive.run step {} arrivals).2

/-- Cycles without a telegram at the end show nothing. -/
theorem shows_append_unusable (arrivals : List Arrival) (n : ℕ) :
    shows (arrivals ++ List.replicate n .unusable) = shows arrivals := by
  have hsilent : ∀ g : Gateway, (Reactive.run step g (List.replicate n .unusable)).2 = [] := by
    induction n with
    | zero => exact fun _ => rfl
    | succ n ih => exact fun g => ih _
  unfold shows
  rw [Reactive.run_append, hsilent, List.append_nil]

end Gateway

/-- The snapshot that a data object is. -/
def snapshotOf (d : HpData) : Snapshot := ⟨d.heartbeat, d.get⟩

/-- What an event shows, and to whom. -/
def shown (e : Event) : Option (Sink × Snapshot) :=
  (handed e).map fun p => (p.1, snapshotOf p.2)

theorem filterMap_shown (events : List Event) :
    events.filterMap shown = (events.filterMap handed).map fun p => (p.1, snapshotOf p.2) := by
  rw [List.map_filterMap]
  rfl

/-- What a message is to the gateway. -/
def arrival (env : Env) (message : List Byte) : Arrival :=
  if Rejected message then .unusable else .telegram (messageWrites env message)

/-- The locals of `main` as a state of the gateway. -/
structure Represents (s : State) (g : Gateway) : Prop where
  heartbeat : s.heartbeat = BitVec.ofNat 32 g.cycles
  reading : s.dataObj.get = g.reading

theorem represents_boot (env : Env) (port : BitVec 32) (startEnv : StartEnv) :
    Represents (boot env port startEnv).1 {} := by
  refine ⟨rfl, ?_⟩
  funext f
  rw [dataObj_boot]
  cases f <;> rfl

/-- **An iteration is a cycle of the gateway.** -/
theorem iteration_simulates (env : Env) (s : State) (g : Gateway) (c : Cycle)
    (h : Represents s g) :
    Represents (iteration env s c).1 (g.step (arrival env c.message)).1 ∧
      (iteration env s c).2.filterMap shown = (g.step (arrival env c.message)).2 := by
  have hcount : s.heartbeat + 1 = BitVec.ofNat 32 (g.cycles + 1) := by
    rw [h.heartbeat, BitVec.ofNat_add]
    rfl
  unfold arrival
  by_cases hr : Rejected c.message
  · obtain ⟨events, hit, hnone⟩ := iteration_of_rejected env s hr
    rw [hit, if_pos hr, filterMap_shown, hnone]
    refine ⟨⟨hcount, ?_⟩, rfl⟩
    funext f
    rw [get_tick, h.reading]
    rfl
  · obtain ⟨events, hit, hhanded⟩ := iteration_of_not_rejected env s hr
    -- the data object is the readings of the gateway, field by field
    have hreading : (received env s c.message).get =
        fun f => (Store.lastWrite (messageWrites env c.message) f).getD (g.reading f) := by
      funext f
      rw [get_received, h.reading]
    have hsnapshot : snapshotOf (received env s c.message) =
        ⟨BitVec.ofNat 32 (g.cycles + 1),
          fun f => (Store.lastWrite (messageWrites env c.message) f).getD (g.reading f)⟩ := by
      unfold snapshotOf
      rw [heartbeat_received, hcount, hreading]
    rw [hit, if_neg hr, filterMap_shown, hhanded]
    refine ⟨⟨hcount, hreading⟩, ?_⟩
    simp only [List.map_cons, List.map_nil, hsnapshot]
    rfl

/-- The loop shows what the gateway shows for the messages. -/
theorem run_shows (env : Env) {s : State} {g : Gateway} (h : Represents s g)
    (cycles : List Cycle) :
    (run env s cycles).2.filterMap shown =
      (Reactive.run Gateway.step g (cycles.map fun c => arrival env c.message)).2 :=
  (Reactive.run_simulates (iteration_simulates env) h cycles).2

end Hanport.Main
