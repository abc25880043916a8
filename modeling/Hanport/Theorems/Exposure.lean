import Hanport.Logic.Image
import Hanport.Logic.MainLoop
import Hanport.Model.HpSerialRead

/-!
# What the registers expose at the end of an iteration

The comment of main.cpp has the registers written in every loop, so that the
heartbeat and the last-known values are always exposed. An iteration whose message
the validator rejects takes `continue` before that write, so the registers keep an
older heartbeat; every other iteration, also one whose parse fails, leaves them
current. Hence the registers are current throughout a run iff it has no rejected
message.
-/

namespace Hanport.Main

open Lib Lib.Ascii HpModbuss

/-- The heartbeat in registers 0 and 1. -/
def exposedHeartbeat (s : State) : BitVec 32 :=
  decodeInt (regAt s.modbusServer.registers 0#16) (regAt s.modbusServer.registers 1#16)

/-- The registers expose the data object after `n` iterations: the map, and the
table as well where there is one, hold its image, with the heartbeat `n`. -/
structure Exposed (env : Env) (s : State) (n : ℕ) : Prop where
  map : ∀ k < imageSize, s.modbusServer.registers (BitVec.ofNat 16 k) =
    (makeRegs env.wild s.dataObj)[k]?
  table : ∀ tab, s.modbusServer.mbMapping = some tab → ∀ k < imageSize,
    tab[k]? = (makeRegs env.wild s.dataObj)[k]?
  heartbeat : (exposedHeartbeat s).toInt = n

/-! ## A register update -/

theorem setFromHpData_registers (wild : Binary32 → BitVec 32) (s : Impl) (d : HpData) {k : ℕ}
    (hk : k < imageSize) :
    (HpModbuss.setFromHpData wild s d 0#16).registers (BitVec.ofNat 16 k) =
      (makeRegs wild d)[k]? := by
  have hlen := makeRegs_length wild d
  have hstored := storeRegisters_registers s 0 (makeRegs wild d)
    (by rw [hlen]; decide) (j := k) (by rw [hlen]; exact hk)
  rwa [Nat.zero_add] at hstored

theorem setFromHpData_table (wild : Binary32 → BitVec 32) (s : Impl) (d : HpData) {tab : Tab}
    (h : (HpModbuss.setFromHpData wild s d 0#16).mbMapping = some tab) {k : ℕ}
    (hk : k < imageSize) : tab[k]? = (makeRegs wild d)[k]? := by
  have hlen := makeRegs_length wild d
  rw [setFromHpData_mapping, Option.map_eq_some_iff] at h
  obtain ⟨tab0, _, rfl⟩ := h
  have hstored := setTabs_getElem? tab0 0 (makeRegs wild d)
    (by rw [hlen]; decide) (j := k) (by rw [hlen]; exact hk)
  rwa [Nat.zero_add] at hstored

/-- After an update the first two registers carry its heartbeat. -/
theorem exposedHeartbeat_of_update (env : Env) (s : State) (server : Impl) (d : HpData)
    (h : s.modbusServer = HpModbuss.setFromHpData env.wild server d 0) :
    exposedHeartbeat s = d.heartbeat := by
  obtain ⟨rest, hregs⟩ := makeRegs_eq_heartbeat env.wild d
  obtain ⟨low, high, hpair, hdecode⟩ := intToRegs_eq d.heartbeat
  have hlow := setFromHpData_registers env.wild server d (k := 0) (by decide)
  have hhigh := setFromHpData_registers env.wild server d (k := 1) (by decide)
  rw [hregs, hpair] at hlow hhigh
  unfold exposedHeartbeat regAt
  rw [h, ← hdecode]
  exact congrArg₂ decodeInt (congrArg (Option.getD · 0#16) hlow)
    (congrArg (Option.getD · 0#16) hhigh)

/-! ## The heartbeat along a run -/

/-- After `n` iterations the heartbeat is `n`, and the registers carry one that is
not ahead of it. -/
structure Counted (n : ℕ) (s : State) : Prop where
  heartbeat : s.heartbeat = BitVec.ofNat 32 n
  behind : ∃ m ≤ n, exposedHeartbeat s = BitVec.ofNat 32 m

theorem counted_boot (env : Env) (port : BitVec 32) (startEnv : StartEnv) :
    Counted 0 (boot env port startEnv).1 where
  heartbeat := rfl
  behind := ⟨0, Nat.le_refl 0, exposedHeartbeat_of_update env _ _ {} rfl⟩

theorem heartbeat_succ {n : ℕ} {heartbeat : BitVec 32} (h : heartbeat = BitVec.ofNat 32 n) :
    heartbeat + 1 = BitVec.ofNat 32 (n + 1) := by
  rw [h, BitVec.ofNat_add]
  rfl

/-- What the registers carry after an iteration that updates them. -/
theorem exposedHeartbeat_exposed (env : Env) (s : State) (message : List Byte) :
    exposedHeartbeat (exposed env s (received env s message)) = s.heartbeat + 1 := by
  rw [exposedHeartbeat_of_update env _ s.modbusServer (received env s message) rfl,
    heartbeat_received]

theorem counted_iteration (env : Env) {n : ℕ} {s : State} (c : Cycle) (h : Counted n s) :
    Counted (n + 1) (iteration env s c).1 := by
  obtain ⟨m, hm, hbehind⟩ := h.behind
  rcases iteration_cases env s c with ⟨_, events, hit, _⟩ | ⟨_, events, hit, _⟩
  · rw [hit]
    exact ⟨heartbeat_succ h.heartbeat, m, Nat.le_succ_of_le hm, hbehind⟩
  · rw [hit]
    refine ⟨heartbeat_succ h.heartbeat, n + 1, Nat.le_refl _, ?_⟩
    rw [exposedHeartbeat_exposed, heartbeat_succ h.heartbeat]

/-- Below `2^31` an `int` counts without overflow. -/
theorem toInt_ofNat_of_lt {n : ℕ} (h : n < 2 ^ 31) : (BitVec.ofNat 32 n).toInt = n := by
  rw [BitVec.toInt_eq_toNat_cond, BitVec.toNat_ofNat]
  omega

/-- **One iteration** leaves the registers current iff its message is not
rejected. -/
theorem exposed_iteration_iff (env : Env) {n : ℕ} {s : State} (c : Cycle) (h : Counted n s)
    (hn : n + 1 < 2 ^ 31) :
    Exposed env (iteration env s c).1 (n + 1) ↔ ¬ Rejected c.message := by
  obtain ⟨m, hm, hbehind⟩ := h.behind
  rcases iteration_cases env s c with ⟨hr, events, hit, _⟩ | ⟨hr, events, hit, _⟩
  · rw [hit]
    refine ⟨fun he => ?_, fun hnot => absurd hr hnot⟩
    -- the registers still carry the older heartbeat
    have hold : exposedHeartbeat (tick s c.message) = BitVec.ofNat 32 m := hbehind
    have hcarried := he.heartbeat
    rw [hold, toInt_ofNat_of_lt (by omega)] at hcarried
    omega
  · rw [hit]
    refine ⟨fun _ => hr, fun _ => ⟨?_, ?_, ?_⟩⟩
    · intro k hk
      exact setFromHpData_registers env.wild s.modbusServer _ hk
    · intro tab htab k hk
      exact setFromHpData_table env.wild s.modbusServer _ htab hk
    · rw [exposedHeartbeat_exposed, heartbeat_succ h.heartbeat, toInt_ofNat_of_lt hn]

/-- **The registers are current at the end of every iteration iff no message of
the run is rejected.** -/
theorem registers_current_iff (env : Env) (port : BitVec 32) (startEnv : StartEnv)
    (cycles : List Cycle) (hlen : cycles.length < 2 ^ 31) :
    (∀ n < cycles.length,
      Exposed env (run env (boot env port startEnv).1 (cycles.take (n + 1))).1 (n + 1)) ↔
    ∀ c ∈ cycles, ¬ Rejected c.message :=
  Reactive.forall_states_iff (K := Counted) (P := fun n s => Exposed env s n)
    (counted_boot env port startEnv) (fun _ _ c h => counted_iteration env c h)
    (fun _ _ c hn h => exposed_iteration_iff env c h (Nat.add_lt_of_lt_sub hn))
    (Nat.le_sub_one_of_lt hlen)

/-- Two valid telegrams, the CRC of the second in lower case. -/
theorem registers_current_iff_two_telegrams :
    Exposed bgsLokal (run bgsLokal (boot bgsLokal 502 ⟨true, true, 3, none⟩).1
      [{ message := ascii "/!28DC" }]).1 1 ∧
    Exposed bgsLokal (run bgsLokal (boot bgsLokal 502 ⟨true, true, 3, none⟩).1
      [{ message := ascii "/!28DC" }, { message := ascii "/!28dc" }]).1 2 := by
  have hupper : ¬ Rejected (ascii "/!28DC") := by decide +kernel
  have hlower : ¬ Rejected (ascii "/!28dc") := by decide +kernel
  have hall := (registers_current_iff bgsLokal 502 ⟨true, true, 3, none⟩
    [{ message := ascii "/!28DC" }, { message := ascii "/!28dc" }] (by simp)).mpr (by
      intro c hc
      rw [List.mem_cons, List.mem_singleton] at hc
      rcases hc with rfl | rfl
      · exact hupper
      · exact hlower)
  exact ⟨hall 0 (by simp), hall 1 (by simp)⟩

/-- A frame with a wrong CRC is enough: registers 0 and 1 still carry 0 at the end of
the first iteration. -/
theorem registers_stale_after_mismatch :
    ¬ ∀ (env : Env) (port : BitVec 32) (startEnv : StartEnv) (cycles : List Cycle),
      (∀ c ∈ cycles, ∃ reads rest, HpSerialRead.hpRead reads = some (c.message, rest)) →
      cycles.length < 2 ^ 31 → ∀ n < cycles.length,
        Exposed env (run env (boot env port startEnv).1 (cycles.take (n + 1))).1 (n + 1) := by
  intro hall
  have hread : HpSerialRead.hpRead [.chunk (ascii "/!0000") (by decide)] =
      some (ascii "/!0000", []) := rfl
  have hdelivered : ∀ c ∈ [({ message := ascii "/!0000" } : Cycle)],
      ∃ reads rest, HpSerialRead.hpRead reads = some (c.message, rest) := by
    intro c hc
    rw [List.mem_singleton.mp hc]
    exact ⟨_, _, hread⟩
  have hrejected : Rejected (ascii "/!0000") := by decide +kernel
  have hexposed := hall bgsLokal 502 ⟨true, true, 3, none⟩ [{ message := ascii "/!0000" }]
    hdelivered (by simp) 0 (by simp)
  have hrun : ∀ s c, (run bgsLokal s [c]).1 = (iteration bgsLokal s c).1 := fun _ _ => rfl
  rw [List.take_succ_cons, List.take_zero, hrun] at hexposed
  have hiff := exposed_iteration_iff bgsLokal { message := ascii "/!0000" }
    (counted_boot bgsLokal 502 ⟨true, true, 3, none⟩) (by norm_num)
  exact hiff.mp hexposed hrejected

end Hanport.Main
