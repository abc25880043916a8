import Hanport.Logic.Registers
import Hanport.Model.SharedTable

/-!
# The register image in the map and in the table

`set_from_hpData(d, 0)` leaves the registers of `d` at the addresses from 0 on,
in the map and in the table, and the first two of them decode to its heartbeat.
-/

namespace Hanport.HpModbuss

open Lib

/-! ## The table, position by position -/

theorem setTab_getElem? (tab : Tab) (i : ℕ) (value : Word) (k : ℕ) :
    (setTab tab i value)[k]? = if k = i ∧ i < nbReg then some value else tab[k]? := by
  unfold setTab
  by_cases hi : i < nbReg
  · rw [dif_pos hi, Vector.getElem?_set]
    by_cases hk : k = i
    · simp [hk, hi]
    · simp [hk, Ne.symm hk]
  · rw [dif_neg hi, if_neg fun h => hi h.2]

theorem setTabs_getElem?_of_lt {i k : ℕ} (h : k < i) (tab : Tab) (values : List Word) :
    (setTabs tab i values)[k]? = tab[k]? := by
  induction values generalizing tab i with
  | nil => rfl
  | cons value values ih =>
      rw [setTabs, ih (by omega), setTab_getElem?, if_neg fun hk => by omega]

/-- Consecutive stores leave the values at their positions. -/
theorem setTabs_getElem? (tab : Tab) (i : ℕ) (values : List Word)
    (hroom : i + values.length ≤ nbReg) {j : ℕ} (hj : j < values.length) :
    (setTabs tab i values)[i + j]? = values[j]? := by
  induction values generalizing tab i j with
  | nil => exact absurd hj (Nat.not_lt_zero j)
  | cons value values ih =>
      rw [List.length_cons] at hroom hj
      rw [setTabs]
      cases j with
      | zero =>
          rw [setTabs_getElem?_of_lt (by omega), setTab_getElem?, if_pos (by omega)]
          rfl
      | succ j =>
          rw [show i + (j + 1) = i + 1 + j by omega, List.getElem?_cons_succ]
          exact ih _ _ (by omega) (by omega)

theorem setTabs_getElem?_of_ge {i k : ℕ} {values : List Word} (h : i + values.length ≤ k)
    (tab : Tab) : (setTabs tab i values)[k]? = tab[k]? := by
  induction values generalizing tab i with
  | nil => rfl
  | cons value values ih =>
      rw [List.length_cons] at h
      rw [setTabs, ih (by omega), setTab_getElem?, if_neg fun hk => by omega]

/-! ## The stores of `set_from_hpData` -/

theorem storeRegisters_mapping (s : Impl) (i : ℕ) (values : List Word) :
    (storeRegisters s 0#16 i values).mbMapping =
      s.mbMapping.map fun tab => setTabs tab i values := by
  induction values generalizing s i with
  | nil =>
      show s.mbMapping = s.mbMapping.map fun tab => tab
      rw [Option.map_id']
  | cons value values ih =>
      rw [storeRegisters, ih]
      unfold storeRegister
      dsimp only
      rw [Option.map_map]
      congr 1
      funext tab
      rw [Function.comp_apply, BitVec.toNat_ofNat, Nat.zero_mod, Nat.zero_add, setTabs]

/-- `set_from_hpData(d, 0)` leaves in the table what its stores leave there. -/
theorem setFromHpData_mapping (wild : Binary32 → BitVec 32) (s : Impl) (d : HpData) :
    (setFromHpData wild s d 0#16).mbMapping =
      s.mbMapping.map fun tab => setTabs tab 0 (makeRegs wild d) :=
  storeRegisters_mapping s 0 (makeRegs wild d)

theorem storeRegister_registers (s : Impl) {i k : ℕ} (hi : i < 2 ^ 16) (hk : k < 2 ^ 16)
    (value : Word) :
    (storeRegister s 0#16 i value).registers (BitVec.ofNat 16 k) =
      if k = i then some value else s.registers (BitVec.ofNat 16 k) := by
  unfold storeRegister setRegister
  dsimp only
  rw [BitVec.toNat_ofNat, Nat.zero_mod, Nat.zero_add, Function.update_apply]
  simp only [key_eq_iff hk hi]

theorem storeRegisters_registers_of_lt (s : Impl) {i k : ℕ} {values : List Word}
    (hroom : i + values.length ≤ 2 ^ 16) (h : k < i) :
    (storeRegisters s 0#16 i values).registers (BitVec.ofNat 16 k) =
      s.registers (BitVec.ofNat 16 k) := by
  induction values generalizing s i with
  | nil => rfl
  | cons value values ih =>
      rw [List.length_cons] at hroom
      rw [storeRegisters, ih _ (by omega) (by omega),
        storeRegister_registers s (by omega) (by omega), if_neg (by omega)]

theorem storeRegisters_registers_of_ge (s : Impl) {i k : ℕ} {values : List Word}
    (hk : k < 2 ^ 16) (h : i + values.length ≤ k) :
    (storeRegisters s 0#16 i values).registers (BitVec.ofNat 16 k) =
      s.registers (BitVec.ofNat 16 k) := by
  induction values generalizing s i with
  | nil => rfl
  | cons value values ih =>
      rw [List.length_cons] at h
      rw [storeRegisters, ih _ (by omega), storeRegister_registers s (by omega) hk,
        if_neg (by omega)]

/-- The loop leaves the values at the addresses from `i` on. -/
theorem storeRegisters_registers (s : Impl) (i : ℕ) (values : List Word)
    (hroom : i + values.length ≤ 2 ^ 16) {j : ℕ} (hj : j < values.length) :
    (storeRegisters s 0#16 i values).registers (BitVec.ofNat 16 (i + j)) = values[j]? := by
  induction values generalizing s i j with
  | nil => exact absurd hj (Nat.not_lt_zero j)
  | cons value values ih =>
      rw [List.length_cons] at hroom hj
      rw [storeRegisters]
      cases j with
      | zero =>
          rw [storeRegisters_registers_of_lt _ (by omega) (by omega),
            storeRegister_registers s (by omega) (by omega), if_pos (by omega)]
          rfl
      | succ j =>
          rw [show i + (j + 1) = i + 1 + j by omega, List.getElem?_cons_succ]
          exact ih _ _ (by omega) (by omega)

/-! ## The heartbeat in the registers -/

/-- The `int` that two registers carry, the low word first. -/
def decodeInt (low high : Word) : BitVec 32 := high ++ low

theorem getLsbD_mask (k : ℕ) : (0xFFFF#32).getLsbD k = decide (k < 16) := by
  rw [show 0xFFFF#32 = BitVec.ofNat 32 (2 ^ 16 - 1) from rfl, BitVec.getLsbD_ofNat,
    Nat.testBit_two_pow_sub_one]
  by_cases h : k < 16
  · simp [h, show k < 32 by omega]
  · simp [h]

/-- `int_to_regs` splits what `decodeInt` joins. -/
theorem intToRegs_eq (i : BitVec 32) :
    ∃ low high, intToRegs i = [low, high] ∧ decodeInt low high = i := by
  refine ⟨_, _, rfl, ?_⟩
  unfold decodeInt
  apply BitVec.eq_of_getLsbD_eq
  intro k hk
  simp only [BitVec.getLsbD_append, BitVec.getLsbD_setWidth, BitVec.getLsbD_and,
    BitVec.getLsbD_sshiftRight, getLsbD_mask]
  by_cases hlow : k < 16
  · simp [hlow]
  · have hhigh : k - 16 < 16 := by omega
    have hpos : 16 + (k - 16) = k := by omega
    simp [hlow, hhigh, hpos, show k < 32 by omega, show ¬ 32 ≤ k - 16 by omega]

/-- The image begins with the heartbeat. -/
theorem makeRegs_eq_heartbeat (wild : Binary32 → BitVec 32) (d : HpData) :
    ∃ rest, makeRegs wild d = intToRegs d.heartbeat ++ rest := by
  unfold makeRegs
  simp only [List.append_assoc]
  exact ⟨_, rfl⟩

end Hanport.HpModbuss
