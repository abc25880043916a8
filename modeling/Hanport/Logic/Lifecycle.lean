import Hanport.Model.ServerThread

/-!
# The invariant of the server's life

In every reachable state: while no call runs and `running` is clear, nothing is
held and no thread is left to join (`Cleared`); while `running` is set, no call
runs and the context, the mapping and the socket are held; and each part of
`stop` finds what the part before it left. No step breaks this, not even a failed
thread creation or a failed `select`.
-/

namespace Hanport.HpModbuss

open Lib.Lts

/-- Nothing is held and no thread has to be joined. -/
structure Cleared (s : Impl) : Prop where
  running : s.running = false
  ctx : s.ctx = false
  mapping : s.mbMapping = none
  socket : s.serverSocket = -1
  thread : s.serverThread = none

/-- The context, the mapping and the listening socket are held. -/
structure Holds (s : Impl) : Prop where
  ctx : s.ctx = true
  mapping : s.mbMapping.isSome
  socket : s.serverSocket ≠ -1

/-- The server thread is inside its loop. -/
def Serving (s : Impl) : Prop :=
  s.serverThread = some .atTest ∨ s.serverThread = some .inSelect

/-- `status()` tells whether everything is held and the thread serves. -/
def Truthful (s : Impl) : Prop := status s = "running" ↔ Holds s ∧ Serving s

/-- The calls of `start` get as far as creating the thread. -/
def StartEnv.ReachesThread (env : StartEnv) : Prop :=
  env.newTcp = true ∧ env.newMapping = true ∧ env.listen ≠ -1

theorem status_eq_running (s : Impl) : status s = "running" ↔ s.running = true := by
  unfold status
  cases s.running <;> decide

/-! ## `start` -/

/-- The state in which `start` creates the thread. -/
def served (s : Impl) (env : StartEnv) : Impl :=
  { s with
    running := true
    ctx := true
    mbMapping := some mappingNew
    serverSocket := env.listen }

theorem start_of_running {s : Impl} (h : s.running = true) (env : StartEnv) :
    start s env = (s, .returned) := by
  unfold start
  rw [if_pos h]

/-- A `start` that does not reach the thread gives back what it took. -/
theorem start_of_not_reachesThread {s : Impl} (hs : Cleared s) {env : StartEnv}
    (h : ¬ env.ReachesThread) : (start s env).1 = s ∧ (start s env).2 ≠ .terminated := by
  obtain ⟨port, thread, running, ctx, mapping, socket, registers⟩ := s
  obtain ⟨rfl, rfl, rfl, rfl, rfl⟩ := hs
  obtain ⟨newTcp, newMapping, listen, threadError⟩ := env
  unfold StartEnv.ReachesThread at h
  unfold start
  cases newTcp with
  | false => simp
  | true =>
      cases newMapping with
      | false => simp
      | true =>
          have hlisten : listen = -1 := by simpa using h
          simp [hlisten]

/-- A `start` that reaches the thread holds everything, whether the thread comes
about or not. -/
theorem start_of_reachesThread {s : Impl} (hs : Cleared s) {env : StartEnv}
    (h : env.ReachesThread) :
    start s env =
      match env.threadError with
      | none => ({ served s env with serverThread := some .atTest }, .returned)
      | some what => (served s env, .threw what) := by
  obtain ⟨port, thread, running, ctx, mapping, socket, registers⟩ := s
  obtain ⟨rfl, rfl, rfl, rfl, rfl⟩ := hs
  obtain ⟨newTcp, newMapping, listen, threadError⟩ := env
  obtain ⟨rfl, rfl, hlisten⟩ := h
  unfold start served
  cases threadError <;> simp_all

/-! ## The invariant -/

structure Inv (s : Server) : Prop where
  alive : s.terminated = false
  idle : s.api = .idle → s.impl.running = false → Cleared s.impl
  up : s.impl.running = true → s.api = .idle ∧ Holds s.impl
  closing : s.api = .closing → s.impl.ctx = true
  joining : s.api = .joining → s.impl.serverSocket = -1
  freeing : s.api = .freeing → s.impl.serverSocket = -1 ∧ s.impl.serverThread = none

theorem Inv.not_terminated {s : Server} (hi : Inv s) : ¬ s.terminated = true := by
  rw [hi.alive]
  exact Bool.false_ne_true

/-- While a `stop` is under way, `running` is cleared. -/
theorem Inv.off_of_busy {s : Server} (hi : Inv s) (hbusy : s.api ≠ .idle) :
    s.impl.running = false := by
  by_contra hrun
  exact hbusy (hi.up (by simpa using hrun)).1

theorem inv_boot (port : BitVec 16) : Inv (boot port) where
  alive := rfl
  idle := fun _ _ => ⟨rfl, rfl, rfl, rfl, rfl⟩
  up := by simp [boot]
  closing := by simp [boot]
  joining := by simp [boot]
  freeing := by simp [boot]

/-! ## What a step does -/

/-- The steps of a program that has not been terminated. -/
inductive Steps (s : Server) : Label → Server → Prop where
  | start (env : StartEnv) (hidle : s.api = .idle) :
      Steps s (.start env)
        { s with
          impl := (HpModbuss.start s.impl env).1
          terminated := (HpModbuss.start s.impl env).2 = .terminated }
  | stopOff (hidle : s.api = .idle) (hoff : s.impl.running = false) : Steps s .stop s
  | stop (hidle : s.api = .idle) (hon : s.impl.running = true) :
      Steps s .stop { s with impl := stopLock s.impl, api := .closing }
  | stopClose (hpc : s.api = .closing) :
      Steps s .stopClose { s with impl := HpModbuss.stopClose s.impl, api := .joining }
  | stopJoin (hpc : s.api = .joining) (hjoin : canJoin s.impl = true) :
      Steps s .stopJoin { s with impl := HpModbuss.stopJoin s.impl, api := .freeing }
  | stopFree (hpc : s.api = .freeing) :
      Steps s .stopFree { s with impl := HpModbuss.stopFree s.impl, api := .idle }
  | loopTest (hpc : s.impl.serverThread = some .atTest) :
      Steps s .loopTest { s with impl := threadTest s.impl }
  | select (ret : SelectResult) (hpc : s.impl.serverThread = some .inSelect) :
      Steps s (.select ret) { s with impl := threadSelect s.impl ret }

theorem steps_of_step {s s' : Server} {l : Label} (hi : Inv s) (h : step s l = some s') :
    Steps s l s' := by
  unfold step at h
  rw [if_neg hi.not_terminated] at h
  cases l with
  | start env =>
      obtain ⟨hidle, h⟩ := Option.ite_none_right_eq_some.mp h
      cases h
      exact .start env hidle
  | stop =>
      obtain ⟨hidle, h⟩ := Option.ite_none_right_eq_some.mp h
      split_ifs at h with hoff
      · cases h
        exact .stopOff hidle hoff
      · cases h
        exact .stop hidle (by simpa using hoff)
  | stopClose =>
      obtain ⟨hpc, h⟩ := Option.ite_none_right_eq_some.mp h
      cases h
      exact .stopClose hpc
  | stopJoin =>
      obtain ⟨hpc, h⟩ := Option.ite_none_right_eq_some.mp h
      cases h
      exact .stopJoin hpc.1 hpc.2
  | stopFree =>
      obtain ⟨hpc, h⟩ := Option.ite_none_right_eq_some.mp h
      cases h
      exact .stopFree hpc
  | loopTest =>
      obtain ⟨hpc, h⟩ := Option.ite_none_right_eq_some.mp h
      cases h
      exact .loopTest hpc
  | select ret =>
      obtain ⟨hpc, h⟩ := Option.ite_none_right_eq_some.mp h
      cases h
      exact .select ret hpc

/-! ## One step -/

theorem inv_start {s : Server} (hi : Inv s) (hidle : s.api = .idle) (env : StartEnv) :
    Inv { s with
      impl := (start s.impl env).1
      terminated := (start s.impl env).2 = .terminated } := by
  by_cases hrun : s.impl.running = true
  · rw [start_of_running hrun]
    exact ⟨by simp, hi.idle, hi.up, hi.closing, hi.joining, hi.freeing⟩
  · have hc := hi.idle hidle (by simpa using hrun)
    by_cases henv : env.ReachesThread
    · have hheld : ∀ th, Inv { s with impl := { served s.impl env with serverThread := th }
                                      terminated := false } := by
        intro th
        refine ⟨rfl, fun _ h => ?_, fun _ => ⟨hidle, rfl, rfl, henv.2.2⟩, ?_, ?_, ?_⟩
        · exact absurd h (by simp [served])
        · intro h
          cases hidle.symm.trans h
        · intro h
          cases hidle.symm.trans h
        · intro h
          cases hidle.symm.trans h
      rw [start_of_reachesThread hc henv]
      cases env.threadError with
      | none => exact hheld (some .atTest)
      | some what => exact hheld (served s.impl env).serverThread
    · obtain ⟨hsame, hres⟩ := start_of_not_reachesThread hc henv
      rw [hsame, show decide ((start s.impl env).2 = .terminated) = false by simpa using hres]
      exact ⟨rfl, hi.idle, hi.up, hi.closing, hi.joining, hi.freeing⟩

/-- The thread changes nothing but its own place. -/
theorem inv_thread {s : Server} (hi : Inv s) (hin : Serving s.impl) (th : Option ThreadPc) :
    Inv { s with impl := { s.impl with serverThread := th } } := by
  have hsome : s.impl.serverThread ≠ none := by
    rcases hin with h | h <;> rw [h] <;> simp
  refine ⟨hi.alive, ?_, ?_, hi.closing, hi.joining, ?_⟩
  · intro hidle hrun
    exact absurd (hi.idle hidle hrun).thread hsome
  · intro hrun
    obtain ⟨hidle, hholds⟩ := hi.up hrun
    exact ⟨hidle, hholds.ctx, hholds.mapping, hholds.socket⟩
  · intro hfree
    exact absurd (hi.freeing hfree).2 hsome

/-- **Every step keeps the invariant.** -/
theorem inv_step (s : Server) (l : Label) (s' : Server) (hi : Inv s)
    (h : step s l = some s') : Inv s' := by
  cases steps_of_step hi h with
  | start env hidle => exact inv_start hi hidle env
  | stopOff hidle hoff => exact hi
  | stop hidle hon =>
      have hup := (hi.up hon).2
      refine ⟨hi.alive, ?_, ?_, fun _ => hup.ctx, ?_, ?_⟩ <;> intro h <;>
        exact absurd h (by simp [stopLock])
  | stopClose hpc =>
      have hctx := hi.closing hpc
      have hrun := hi.off_of_busy (by simp [hpc])
      have himpl : stopClose s.impl = { s.impl with serverSocket := -1 } := by
        unfold stopClose
        rw [if_pos hctx]
      rw [himpl]
      refine ⟨hi.alive, ?_, ?_, ?_, fun _ => rfl, ?_⟩
      · simp
      · intro h
        exact absurd (hrun.symm.trans h) Bool.false_ne_true
      · simp
      · simp
  | stopJoin hpc hjoin =>
      have hrun := hi.off_of_busy (by simp [hpc])
      refine ⟨hi.alive, ?_, ?_, ?_, ?_, fun _ => ⟨hi.joining hpc, rfl⟩⟩
      · simp
      · intro h
        exact absurd (hrun.symm.trans h) Bool.false_ne_true
      · simp
      · simp
  | stopFree hpc =>
      have hrun := hi.off_of_busy (by simp [hpc])
      have hfree := hi.freeing hpc
      refine ⟨hi.alive, fun _ _ => ⟨hrun, rfl, rfl, hfree.1, hfree.2⟩, ?_, ?_, ?_, ?_⟩
      · intro h
        exact absurd (hrun.symm.trans h) Bool.false_ne_true
      · simp
      · simp
      · simp
  | loopTest hpc => exact inv_thread hi (.inl hpc) _
  | select ret hpc =>
      cases ret with
      | failed => exact inv_thread hi (.inr hpc) _
      | timeout => exact inv_thread hi (.inr hpc) _
      | ready n => exact inv_thread hi (.inr hpc) _

/-! ## Good steps -/

/-- A step on which the status stays truthful: a `start` whose thread comes
about whenever it gets that far, and a `select` that does not fail while the
server is running. -/
def GoodStep (s : Server) : Label → Prop
  | .start env => s.impl.running = false → env.ReachesThread → env.threadError = none
  | .select .failed => s.impl.running = false
  | _ => True

/-- After good steps the thread serves whenever `running` is set. -/
structure Sound (s : Server) : Prop where
  inv : Inv s
  serves : s.impl.running = true → Serving s.impl

theorem sound_step (s : Server) (l : Label) (s' : Server) (hs : Sound s) (hgood : GoodStep s l)
    (h : step s l = some s') : Sound s' := by
  refine ⟨inv_step s l s' hs.inv h, ?_⟩
  cases steps_of_step hs.inv h with
  | start env hidle =>
      intro hrun'
      by_cases hrun : s.impl.running = true
      · rw [start_of_running hrun]
        exact hs.serves hrun
      · have hoff : s.impl.running = false := by simpa using hrun
        have hc := hs.inv.idle hidle hoff
        by_cases henv : env.ReachesThread
        · rw [start_of_reachesThread hc henv, hgood hoff henv]
          exact .inl rfl
        · rw [(start_of_not_reachesThread hc henv).1] at hrun'
          exact absurd hrun' hrun
  | stopOff hidle hoff => exact hs.serves
  | stop hidle hon =>
      intro hrun'
      exact absurd hrun' (by simp [stopLock])
  | stopClose hpc =>
      unfold stopClose
      split <;> exact hs.serves
  | stopJoin hpc hjoin =>
      intro hrun
      cases hpc.symm.trans (hs.inv.up hrun).1
  | stopFree hpc => exact hs.serves
  | loopTest hpc =>
      intro hrun
      have hon : s.impl.running = true := hrun
      refine .inr ?_
      unfold threadTest
      rw [if_pos hon]
  | select ret hpc =>
      intro hrun
      cases ret with
      | failed => exact absurd (hgood.symm.trans hrun) Bool.false_ne_true
      | timeout => exact .inl rfl
      | ready n => exact .inl rfl

/-- Sound states are truthful while no call runs. -/
theorem Sound.truthful {s : Server} (hs : Sound s) (hidle : s.api = .idle) :
    Truthful s.impl := by
  unfold Truthful
  rw [status_eq_running]
  constructor
  · intro hrun
    exact ⟨(hs.inv.up hrun).2, hs.serves hrun⟩
  · intro hup
    obtain ⟨hholds, _⟩ := hup
    by_contra hrun
    have hc := hs.inv.idle hidle (by simpa using hrun)
    exact absurd (hc.ctx.symm.trans hholds.ctx) Bool.false_ne_true

/-- A step that is not good leaves a status that is not truthful. -/
theorem not_truthful_of_bad (s : Server) (l : Label) (s' : Server) (hi : Inv s)
    (hbad : ¬ GoodStep s l) (h : step s l = some s') :
    ¬ (s'.api = .idle → Truthful s'.impl) := by
  cases steps_of_step hi h with
  | start env hidle =>
      unfold GoodStep at hbad
      push Not at hbad
      obtain ⟨hoff, henv, hthread⟩ := hbad
      have hc := hi.idle hidle hoff
      obtain ⟨what, hwhat⟩ := Option.ne_none_iff_exists'.mp hthread
      rw [start_of_reachesThread hc henv, hwhat]
      intro htruth
      have hserving := ((htruth hidle).mp ((status_eq_running _).mpr rfl)).2
      have hnone : (served s.impl env).serverThread = none := hc.thread
      rcases hserving with h1 | h1 <;> rw [hnone] at h1 <;> cases h1
  | select ret hpc =>
      cases ret with
      | failed =>
          have hrun : s.impl.running = true := by
            unfold GoodStep at hbad
            simpa using hbad
          intro htruth
          have hidle := (hi.up hrun).1
          have hserving := ((htruth hidle).mp ((status_eq_running _).mpr hrun)).2
          rcases hserving with h1 | h1 <;> cases h1
      | timeout => exact absurd trivial hbad
      | ready n => exact absurd trivial hbad
  | stopOff hidle hoff => exact absurd trivial hbad
  | stop hidle hon => exact absurd trivial hbad
  | stopClose hpc => exact absurd trivial hbad
  | stopJoin hpc hjoin => exact absurd trivial hbad
  | stopFree hpc => exact absurd trivial hbad
  | loopTest hpc => exact absurd trivial hbad

end Hanport.HpModbuss
