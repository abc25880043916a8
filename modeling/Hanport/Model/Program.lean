import Hanport.Model.HpSerialRead
import Hanport.Model.Main

/-!
# `main` over the reads of the serial port

The loop of main.cpp together with `hpRead`: an iteration ticks the heartbeat and
waits in `hpRead`, which takes the reads up to the end of a frame, and goes on with
the frame. Where the reads end the loop waits in `hpRead`. The fates of the publish
attempts are given for each iteration. The server thread is not in it: no Modbus client
writes to the table.
-/

namespace Hanport.Main

open Lib Lib.Ascii HpModbuss HpSerialRead

/-- The loop from iteration `k` on, in at most `n` iterations. -/
def loop (env : Env) (attempts : ℕ → ℕ → HpMqttPub.Attempt) :
    ℕ → ℕ → State → List ReadResult → State × List Event
  | 0, _, s, _ => (s, [])
  | n + 1, k, s, reads =>
      match hpRead reads with
      -- `hpRead` waits for more
      | none => (s, [])
      | some (message, rest) =>
          let (s, events) := iteration env s ⟨message, attempts k⟩
          let (s, later) := loop env attempts n (k + 1) s rest
          (s, events ++ later)

/-- The program from the start of the Modbus server on. Each iteration takes at least
one read, so there are no more of them than reads. -/
def program (env : Env) (port : BitVec 32) (startEnv : StartEnv)
    (attempts : ℕ → ℕ → HpMqttPub.Attempt) (reads : List ReadResult) : State × List Event :=
  let (s, events) := boot env port startEnv
  let (s, later) := loop env attempts reads.length 0 s reads
  (s, events ++ later)

/-- The cycles of a loop that gets these messages. -/
def cyclesFrom (attempts : ℕ → ℕ → HpMqttPub.Attempt) (k : ℕ) (messages : List (List Byte)) :
    List Cycle :=
  messages.mapIdx fun i message => ⟨message, attempts (k + i)⟩

theorem cyclesFrom_cons (attempts : ℕ → ℕ → HpMqttPub.Attempt) (k : ℕ) (message : List Byte)
    (messages : List (List Byte)) :
    cyclesFrom attempts k (message :: messages) =
      ⟨message, attempts k⟩ :: cyclesFrom attempts (k + 1) messages := by
  unfold cyclesFrom
  simp only [List.mapIdx_cons, Nat.add_zero, Nat.add_assoc, Nat.add_comm 1]

theorem cyclesFrom_concat (attempts : ℕ → ℕ → HpMqttPub.Attempt) (k : ℕ)
    (messages : List (List Byte)) (message : List Byte) :
    cyclesFrom attempts k (messages ++ [message]) =
      cyclesFrom attempts k messages ++ [⟨message, attempts (k + messages.length)⟩] := by
  unfold cyclesFrom
  rw [List.mapIdx_concat]

theorem length_cyclesFrom (attempts : ℕ → ℕ → HpMqttPub.Attempt) (k : ℕ)
    (messages : List (List Byte)) : (cyclesFrom attempts k messages).length = messages.length :=
  List.length_mapIdx

@[simp] theorem map_message_cyclesFrom (attempts : ℕ → ℕ → HpMqttPub.Attempt) (k : ℕ)
    (messages : List (List Byte)) :
    (cyclesFrom attempts k messages).map Cycle.message = messages := by
  induction messages generalizing k with
  | nil => rfl
  | cons message messages ih => rw [cyclesFrom_cons, List.map_cons, ih]

/-- The loop runs through the messages of the calls of `hpRead`. -/
theorem loop_eq_run (env : Env) (attempts : ℕ → ℕ → HpMqttPub.Attempt) (n k : ℕ) (s : State)
    (reads : List ReadResult) :
    loop env attempts n k s reads = run env s (cyclesFrom attempts k (hpReadCalls n reads)) := by
  induction n generalizing k s reads with
  | zero => rfl
  | succ n ih =>
      rw [loop, hpReadCalls]
      cases hpRead reads with
      | none => rfl
      | some p =>
          dsimp only
          rw [ih, cyclesFrom_cons]
          rfl

theorem program_eq (env : Env) (port : BitVec 32) (startEnv : StartEnv)
    (attempts : ℕ → ℕ → HpMqttPub.Attempt) (reads : List ReadResult) :
    program env port startEnv attempts reads =
      ((run env (boot env port startEnv).1 (cyclesFrom attempts 0 (frames reads))).1,
        (boot env port startEnv).2 ++
          (run env (boot env port startEnv).1 (cyclesFrom attempts 0 (frames reads))).2) := by
  unfold program frames
  dsimp only
  rw [loop_eq_run]

end Hanport.Main
