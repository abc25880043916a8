import Hanport.Logic.Registers

/-!
# The map of registers and the table that clients read

Over any sequence of calls the map and the table agree below address 1000 iff no
`start` creates its table over registers that are already set, and no bulk write
wraps past address 65535 onto an address below 1000 with a value of its own. The
comment in `start` announces a copy of the map into the new table, but the table
stays zeroed.
-/

namespace Hanport.HpModbuss

open Lib Lib.Store Lib.Lts

/-- A call of the API by its arguments. -/
inductive Call where
  | start (env : StartEnv)
  | stop
  | setHoldingRegister (address : BitVec 16) (value : Word)
  | setHoldingRegisters (address : BitVec 16) (values : List Word)
  | setFromHpData (d : HpData) (startAddress : BitVec 16)

/-- Wherever a table exists, it holds the values of the map below address 1000,
and 0 where the map has none. -/
def Agrees (s : Impl) : Prop :=
  ∀ tab, s.mbMapping = some tab → ∀ k : Fin nbReg, tab.get k = regAt s.registers (tabKey k)

/-- The values of a bulk write that wrap round onto an address below 1000 are
those that its other values, or else the map, leave there. -/
def WrapsHarmlessly (registers : BitVec 16 → Option Word) (address : BitVec 16)
    (values : List Word) : Prop :=
  ∀ k : Fin nbReg, ∀ v, lastWrite (wrappedWrites address values) (tabKey k) = some v →
    v = (lastWrite (tabWrites address 0 values) k).getD (regAt registers (tabKey k))

/-- A bulk write that stays below address 65536 does not wrap. -/
theorem wrapsHarmlessly_of_le {registers : BitVec 16 → Option Word} {address : BitVec 16}
    {values : List Word} (h : address.toNat + values.length ≤ 2 ^ 16) :
    WrapsHarmlessly registers address values := by
  intro k v hv
  have hnone : wrappedWrites address values = [] := by
    unfold wrappedWrites
    rw [List.drop_eq_nil_of_le (by unfold directCount; omega)]
    rfl
  rw [hnone] at hv
  cases hv

/-! ## One call -/

theorem setHoldingRegister_eq (s : Impl) (address : BitVec 16) (value : Word) :
    setHoldingRegister s address value = setHoldingRegisters s address [value] := by
  unfold setHoldingRegister setHoldingRegisters storeRegisters storeRegisters storeRegister
  rw [Nat.add_zero, BitVec.ofNat_toNat, BitVec.setWidth_eq]

/-- After a bulk write the two agree iff it wraps harmlessly. -/
theorem agrees_setHoldingRegisters_iff {s : Impl} (hs : Agrees s) (address : BitVec 16)
    (values : List Word) :
    Agrees (setHoldingRegisters s address values) ↔
      (s.mbMapping.isSome → WrapsHarmlessly s.registers address values) := by
  unfold setHoldingRegisters
  rw [storeRegisters_eq]
  unfold Agrees
  dsimp only
  cases hmap : s.mbMapping with
  | none => simp
  | some tab =>
      have hpoint : ∀ k : Fin nbReg,
          ((tabStore.writeAll (tabWrites address 0 values) tab).get k =
            regAt (keyStore.writeAll (keyWrites address 0 values) s.registers) (tabKey k)) ↔
          ∀ v, lastWrite (wrappedWrites address values) (tabKey k) = some v →
            v = (lastWrite (tabWrites address 0 values) k).getD (regAt s.registers (tabKey k)) := by
        intro k
        have htab : (tabStore.writeAll (tabWrites address 0 values) tab).get k =
            (lastWrite (tabWrites address 0 values) k).getD (regAt s.registers (tabKey k)) := by
          rw [← hs tab hmap k]
          exact tabStore.get_writeAll _ tab k
        have hkey : regAt (keyStore.writeAll (keyWrites address 0 values) s.registers)
            (tabKey k) = (lastWrite (keyWrites address 0 values) (tabKey k)).getD
              (regAt s.registers (tabKey k)) := keyStore.get_writeAll _ _ _
        rw [htab, hkey, lastWrite_keyWrites]
        cases lastWrite (wrappedWrites address values) (tabKey k) with
        | none => simp
        | some v =>
            simp only [Option.some_or, Option.getD_some, Option.some.injEq, forall_eq']
            exact eq_comm
      simp only [Option.map_some, Option.some.injEq, forall_eq', Option.isSome_some, forall_const]
      exact forall_congr' hpoint

section Calls

variable (wild : Binary32 → BitVec 32)

/-- The state after a call. -/
def call (s : Impl) : Call → Impl
  | .start env => (start s env).1
  | .stop => stop s
  | .setHoldingRegister address value => setHoldingRegister s address value
  | .setHoldingRegisters address values => setHoldingRegisters s address values
  | .setFromHpData d startAddress => setFromHpData wild s d startAddress

/-- A call that keeps the agreement: a `start` that gets a table and a socket
finds every register below 1000 absent or 0, and a bulk write beside a table wraps
harmlessly. -/
def GoodCall (s : Impl) : Call → Prop
  | .start env => s.running = false → env.ReachesThread →
      ∀ k : Fin nbReg, regAt s.registers (tabKey k) = 0#16
  | .stop => True
  | .setHoldingRegister _ _ => True
  | .setHoldingRegisters address values =>
      s.mbMapping.isSome → WrapsHarmlessly s.registers address values
  | .setFromHpData d startAddress =>
      s.mbMapping.isSome → WrapsHarmlessly s.registers startAddress (makeRegs wild d)

end Calls

/-- Between calls everything is held while the server is running, and nothing
otherwise. -/
structure Steady (s : Impl) : Prop where
  off : s.running = false → Cleared s
  on : s.running = true → Holds s

theorem steady_start {s : Impl} (hs : Steady s) (env : StartEnv) : Steady (start s env).1 := by
  by_cases hrun : s.running = true
  · rw [start_of_running hrun]
    exact hs
  · have hc := hs.off (by simpa using hrun)
    by_cases henv : env.ReachesThread
    · have hheld : ∀ th, Steady { served s env with serverThread := th } :=
        fun th => ⟨fun h => absurd h (by simp [served]), fun _ => ⟨rfl, rfl, henv.2.2⟩⟩
      rw [start_of_reachesThread hc henv]
      cases env.threadError with
      | none => exact hheld (some .atTest)
      | some what => exact hheld (served s env).serverThread
    · rw [(start_of_not_reachesThread hc henv).1]
      exact hs

/-- A `stop` of a running server gives everything back. -/
theorem cleared_stop {s : Impl} (hs : Steady s) : Cleared (stop s) := by
  unfold stop
  by_cases hrun : s.running = false
  · rw [if_pos hrun]
    exact hs.off hrun
  · rw [if_neg hrun]
    have hctx : (stopLock s).ctx = true := (hs.on (by simpa using hrun)).ctx
    unfold stopClose
    rw [if_pos hctx]
    exact ⟨rfl, rfl, rfl, rfl, rfl⟩

theorem steady_setHoldingRegisters {s : Impl} (hs : Steady s) (address : BitVec 16)
    (values : List Word) : Steady (setHoldingRegisters s address values) := by
  unfold setHoldingRegisters
  rw [storeRegisters_eq]
  refine ⟨fun hrun => ?_, fun hrun => ?_⟩
  · have hc := hs.off hrun
    refine ⟨hrun, hc.ctx, ?_, hc.socket, hc.thread⟩
    show s.mbMapping.map _ = none
    rw [hc.mapping]
    rfl
  · have hh := hs.on hrun
    refine ⟨hh.ctx, ?_, hh.socket⟩
    show (s.mbMapping.map _).isSome = true
    rw [Option.isSome_map]
    exact hh.mapping

/-- Every call leaves a steady state. -/
theorem steady_call (wild : Binary32 → BitVec 32) {s : Impl} (hs : Steady s) (c : Call) :
    Steady (call wild s c) := by
  cases c with
  | start env => exact steady_start hs env
  | stop =>
      have hc := cleared_stop hs
      exact ⟨fun _ => hc, fun hrun => absurd (hc.running.symm.trans hrun) Bool.false_ne_true⟩
  | setHoldingRegister address value =>
      show Steady (setHoldingRegister s address value)
      rw [setHoldingRegister_eq]
      exact steady_setHoldingRegisters hs address [value]
  | setHoldingRegisters address values => exact steady_setHoldingRegisters hs address values
  | setFromHpData d startAddress =>
      exact steady_setHoldingRegisters hs startAddress (makeRegs wild d)

/-- A new table agrees with the map iff the map is 0 below address 1000. -/
theorem agrees_start_iff {s : Impl} (hs : Steady s) (ha : Agrees s) (env : StartEnv) :
    Agrees (start s env).1 ↔ (s.running = false → env.ReachesThread →
      ∀ k : Fin nbReg, regAt s.registers (tabKey k) = 0#16) := by
  by_cases hrun : s.running = true
  · rw [start_of_running hrun]
    exact ⟨fun _ hoff => absurd (hoff.symm.trans hrun) Bool.false_ne_true, fun _ => ha⟩
  · have hoff : s.running = false := by simpa using hrun
    have hc := hs.off hoff
    by_cases henv : env.ReachesThread
    · have hnew : ∀ th, Agrees { served s env with serverThread := th } ↔
          ∀ k : Fin nbReg, regAt s.registers (tabKey k) = 0#16 := by
        intro th
        have hzero : ∀ k : Fin nbReg, mappingNew.get k = 0#16 := by
          intro k
          exact Vector.getElem_replicate k.isLt
        constructor
        · intro h k
          rw [← hzero k]
          exact (h mappingNew rfl k).symm
        · intro h tab htab k
          cases htab
          rw [hzero k]
          exact (h k).symm
      rw [start_of_reachesThread hc henv]
      have hcond : (s.running = false → env.ReachesThread →
          ∀ k : Fin nbReg, regAt s.registers (tabKey k) = 0#16) ↔
          ∀ k : Fin nbReg, regAt s.registers (tabKey k) = 0#16 :=
        ⟨fun h => h hoff henv, fun h _ _ => h⟩
      rw [hcond]
      cases env.threadError with
      | none => exact hnew (some .atTest)
      | some what => exact hnew (served s env).serverThread
    · rw [(start_of_not_reachesThread hc henv).1]
      exact ⟨fun _ _ h => absurd h henv, fun _ => ha⟩

/-- From an agreeing state a call leads to an agreeing state iff it is good. -/
theorem agrees_call_iff (wild : Binary32 → BitVec 32) {s : Impl} (hs : Steady s)
    (ha : Agrees s) (c : Call) : Agrees (call wild s c) ↔ GoodCall wild s c := by
  cases c with
  | start env => exact agrees_start_iff hs ha env
  | stop =>
      refine ⟨fun _ => trivial, fun _ tab htab => ?_⟩
      have hnone : (stop s).mbMapping = none := (cleared_stop hs).mapping
      exact absurd (hnone.symm.trans htab) (by simp)
  | setHoldingRegister address value =>
      refine ⟨fun _ => trivial, fun _ => ?_⟩
      show Agrees (setHoldingRegister s address value)
      rw [setHoldingRegister_eq, agrees_setHoldingRegisters_iff ha]
      exact fun _ => wrapsHarmlessly_of_le (by rw [List.length_singleton]; omega)
  | setHoldingRegisters address values => exact agrees_setHoldingRegisters_iff ha address values
  | setFromHpData d startAddress =>
      exact agrees_setHoldingRegisters_iff ha startAddress (makeRegs wild d)

/-- **The map and the table agree in every state iff every call is good.** -/
theorem registers_agree_iff (wild : Binary32 → BitVec 32) (port : BitVec 16)
    (calls : List Call) :
    (∀ t ∈ states (call wild) { port := port } calls, Agrees t) ↔
      ∀ p ∈ history (call wild) { port := port } calls, GoodCall wild p.1 p.2 := by
  have hsteady : Steady { port := port } :=
    ⟨fun _ => ⟨rfl, rfl, rfl, rfl, rfl⟩, fun h => absurd h Bool.false_ne_true⟩
  have hagrees : Agrees { port := port } := fun tab htab => absurd htab (by simp)
  refine Exec.forall_iff (K := fun t => Steady t ∧ Agrees t) ⟨hsteady, hagrees⟩ ?_
    (fun t ht => ht.2) ?_ (exec_history (call wild) { port := port } calls)
  · intro t c t' ht hgood hstep
    cases hstep
    exact ⟨steady_call wild ht.1 c, (agrees_call_iff wild ht.1 ht.2 c).mpr hgood⟩
  · intro t c t' ht hbad hstep
    cases hstep
    rwa [agrees_call_iff wild ht.1 ht.2 c]

/-- A register is set before the server is started: the table shows 0. -/
theorem registers_disagree_after_start :
    ¬ ∀ calls, ∀ t ∈ states (call fun _ => 0#32) { port := 502#16 } calls, Agrees t := by
  intro hall
  have hagrees := hall [.setHoldingRegister 5#16 7#16, .start ⟨true, true, 7, none⟩] _
    (mem_visited_self _ _) mappingNew rfl ⟨5, by decide⟩
  exact absurd hagrees (by decide)

end Hanport.HpModbuss
