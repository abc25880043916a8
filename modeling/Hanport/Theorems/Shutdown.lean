import Hanport.Logic.Lifecycle

/-!
# How `stop` ends

`stop` waits for a thread that may be anywhere in its loop. It returns within five steps
of the two threads, in whatever order they are taken, and leaves nothing behind; and at no
time is the thread in its loop without the context and the mapping that it works with. What
the loop does behind `select` is one step: `accept`, `modbus_receive` and `modbus_reply` are
taken to return.
-/

namespace Hanport.HpModbuss

open Lib.Lts

/-- Until the thread is joined, the context and the mapping are held. -/
structure Guarded (s : Server) : Prop where
  inv : Inv s
  held : s.api = .closing ∨ s.api = .joining → s.impl.ctx = true ∧ s.impl.mbMapping.isSome

/-- A thread in its loop works with a context and a mapping. -/
theorem Guarded.of_serving {s : Server} (hs : Guarded s) (h : Serving s.impl) :
    s.impl.ctx = true ∧ s.impl.mbMapping.isSome := by
  have hsome : s.impl.serverThread ≠ none := by
    rcases h with h | h <;> rw [h] <;> simp
  -- with `running` set all is held; cleared, the thread is there until `stop` joins it
  by_cases hrun : s.impl.running = true
  · have hup := (hs.inv.up hrun).2
    exact ⟨hup.ctx, hup.mapping⟩
  · have hoff : s.impl.running = false := by simpa using hrun
    cases hapi : s.api with
    | idle => exact absurd (hs.inv.idle hapi hoff).thread hsome
    | freeing => exact absurd (hs.inv.freeing hapi).2 hsome
    | closing => exact hs.held (.inl hapi)
    | joining => exact hs.held (.inr hapi)

theorem guarded_boot (port : BitVec 16) : Guarded (boot port) where
  inv := inv_boot port
  held := by simp [boot]

theorem guarded_step (s : Server) (l : Label) (s' : Server) (hs : Guarded s)
    (h : step s l = some s') : Guarded s' := by
  refine ⟨inv_step s l s' hs.inv h, ?_⟩
  cases steps_of_step hs.inv h with
  | start env hidle => simp [hidle]
  | stopOff hidle hoff => exact hs.held
  | stop hidle hon =>
      have hup := (hs.inv.up hon).2
      exact fun _ => ⟨hup.ctx, hup.mapping⟩
  | stopClose hpc =>
      have hheld := hs.held (.inl hpc)
      unfold stopClose
      split_ifs
      · exact fun _ => hheld
      · exact fun _ => hheld
  | stopJoin hpc hjoin => simp
  | stopFree hpc => simp
  | loopTest hpc => exact hs.held
  | select ret hpc => cases ret <;> exact hs.held

/-- **The thread has what it works with, and nothing is lost.** In every execution of the
calls of `start` and `stop` and of the thread: where the thread is in its loop, the context
and the mapping are held; they are freed only when there is no thread; and a `start` that
goes ahead overwrites no context, mapping, socket or thread. -/
theorem handles_safe (port : BitVec 16) {h : List (Server × Label)} {s : Server}
    (hexec : Exec step (boot port) h s) :
    (∀ t ∈ visited h s, Serving t.impl → t.impl.ctx = true ∧ t.impl.mbMapping.isSome) ∧
    (∀ t, (t, Label.stopFree) ∈ h → t.impl.serverThread = none) ∧
    ∀ t env, (t, Label.start env) ∈ h → t.impl.running = false → Cleared t.impl := by
  have hall := hexec.forall_visited (guarded_boot port) guarded_step
  refine ⟨fun t ht => (hall t ht).of_serving, ?_, ?_⟩
  · intro t hmem
    have hi := (hall t (mem_visited_of_mem hmem)).inv
    obtain ⟨t', hstep⟩ := hexec.enabled _ hmem
    cases steps_of_step hi hstep with
    | stopFree hpc => exact (hi.freeing hpc).2
  · intro t env hmem hrun
    have hi := (hall t (mem_visited_of_mem hmem)).inv
    obtain ⟨t', hstep⟩ := hexec.enabled _ hmem
    cases steps_of_step hi hstep with
    | start env hidle => exact hi.idle hidle hrun

/-- A start, a stop and a start. -/
theorem handles_safe_restart :
    ∃ (h : List (Server × Label)) (s : Server),
      h.map Prod.snd = [.start ⟨true, true, 7, none⟩, .stop, .stopClose, .loopTest, .stopJoin,
        .stopFree, .start ⟨true, true, 8, none⟩] ∧
      (∀ t ∈ visited h s, Serving t.impl → t.impl.ctx = true ∧ t.impl.mbMapping.isSome) ∧
      (∀ t, (t, Label.stopFree) ∈ h → t.impl.serverThread = none) ∧
      ∀ t env, (t, Label.start env) ∈ h → t.impl.running = false → Cleared t.impl :=
  ⟨_, _, rfl, handles_safe 502 (.next (.next (.next (.next (.next (.next (.next .start rfl) rfl)
    rfl) rfl) rfl) rfl) rfl)⟩

end Hanport.HpModbuss
