import Hanport.Logic.Lifecycle

/-!
# The reported status over the life of the server

`status()` is truthful in every state between calls iff no `start` fails at the
creation of its thread and no `select` fails while the server is running: the
first leaves `running` set without a thread, unlike the three failures before it,
and the second ends the loop without clearing `running`.
-/

namespace Hanport.HpModbuss

open Lib.Lts

/-- **The status is truthful iff every step is good**, and in every execution a
`start` that goes ahead finds no thread left to join, so none is ever
replaced. -/
theorem status_truthful_iff (port : BitVec 16) {h : List (Server × Label)} {s : Server}
    (hexec : Exec step (boot port) h s) :
    ((∀ t ∈ visited h s, t.api = .idle → Truthful t.impl) ↔ ∀ p ∈ h, GoodStep p.1 p.2) ∧
    (∀ t env, (t, Label.start env) ∈ h → t.impl.running = false →
      t.impl.serverThread = none) ∧
    ∀ t ∈ visited h s, t.terminated = false := by
  have hinv := hexec.forall_visited (inv_boot port) inv_step
  have hsound : Sound (boot port) := ⟨inv_boot port, fun hrun => absurd hrun (by simp [boot])⟩
  refine ⟨?_, ?_, fun t ht => (hinv t ht).alive⟩
  · exact hexec.forall_iff hsound sound_step (fun t ht => ht.truthful)
      fun t l t' ht => not_truthful_of_bad t l t' ht.inv
  · intro t env hmem hrun
    have hi := hinv t (mem_visited_of_mem hmem)
    obtain ⟨t', hstep⟩ := hexec.enabled _ hmem
    cases steps_of_step hi hstep with
    | start env hidle => exact (hi.idle hidle hrun).thread

/-- A start, one pass of the loop, and a stop during which the loop ends. -/
theorem status_truthful_start_stop :
    ∃ h s, h.map Prod.snd = [.start ⟨true, true, 7, none⟩, .loopTest, .select (.ready 1),
        .stop, .stopClose, .loopTest, .stopJoin, .stopFree] ∧
      Exec step (boot 502) h s ∧ ∀ t ∈ visited h s, t.api = .idle → Truthful t.impl := by
  have hrun : ∃ h s, h.map Prod.snd = [.start ⟨true, true, 7, none⟩, .loopTest,
        .select (.ready 1), .stop, .stopClose, .loopTest, .stopJoin, .stopFree] ∧
      Exec step (boot 502) h s :=
    ⟨_, _, rfl, .next (.next (.next (.next (.next (.next (.next (.next .start rfl) rfl) rfl) rfl)
      rfl) rfl) rfl) rfl⟩
  obtain ⟨h, s, hlabels, hexec⟩ := hrun
  refine ⟨h, s, hlabels, hexec, (status_truthful_iff 502 hexec).1.mpr ?_⟩
  intro p hp
  have hmem : p.2 ∈ h.map Prod.snd := List.mem_map_of_mem hp
  rw [hlabels] at hmem
  simp only [List.mem_cons, List.not_mem_nil, or_false] at hmem
  rcases hmem with h | h | h | h | h | h | h | h <;> rw [h]
  · exact fun _ _ => rfl
  all_goals trivial

/-- The system has no thread to give: `start` throws, and the status stays
`running`. -/
theorem status_running_without_thread :
    ¬ ∀ h s, Exec step (boot 502) h s → ∀ t ∈ visited h s, t.api = .idle → Truthful t.impl := by
  intro hall
  have hstep : ∃ s, step (boot 502)
      (.start ⟨true, true, 7, some "Resource temporarily unavailable"⟩) = some s := ⟨_, rfl⟩
  obtain ⟨s, hstep⟩ := hstep
  have hbad : ¬ GoodStep (boot 502)
      (.start ⟨true, true, 7, some "Resource temporarily unavailable"⟩) := by
    intro hgood
    exact absurd (hgood rfl ⟨rfl, rfl, by decide⟩) (by decide)
  apply not_truthful_of_bad (boot 502) _ s (inv_boot 502) hbad hstep
  exact hall _ s (.next .start hstep) s (mem_visited_self _ s)

end Hanport.HpModbuss
