import Hanport.Logic.Gateway
import Hanport.Theorems.Exposure

/-!
# What the Modbus server serves

Whatever comes over the line, and as long as no client writes, the map of registers and the
table of the server are the image of the object that was handed over last, and nothing
else; there is a table iff the start got as far as creating the thread.
-/

namespace Hanport.Main

open Lib Lib.Ascii HpModbuss HpSerialRead

/-- The server serves the image of the object: the map holds its registers and no others,
and the table, if there is one, holds them and zeros. -/
structure Serves (wild : Binary32 → BitVec 32) (startEnv : StartEnv) (server : Impl)
    (d : HpData) : Prop where
  map : ∀ key, server.registers key = (makeRegs wild d)[key.toNat]?
  table : ∀ tab, server.mbMapping = some tab → ∀ k < nbReg,
    tab[k]? = some ((makeRegs wild d)[k]?.getD 0#16)
  served : server.mbMapping.isSome ↔ startEnv.ReachesThread

/-- The object that was handed over last. -/
def lastHanded (sink : Sink) (events : List Event) : Option HpData :=
  Store.lastWrite (events.filterMap handed) sink

/-- An update replaces the image by that of its object. -/
theorem Serves.update {wild : Binary32 → BitVec 32} {startEnv : StartEnv} {server : Impl}
    (hmap : ∀ k, imageSize ≤ k → k < 2 ^ 16 → server.registers (BitVec.ofNat 16 k) = none)
    (htable : ∀ tab, server.mbMapping = some tab → ∀ k < nbReg, imageSize ≤ k →
      tab[k]? = some 0#16)
    (hserved : server.mbMapping.isSome ↔ startEnv.ReachesThread) (d : HpData) :
    Serves wild startEnv (HpModbuss.setFromHpData wild server d 0#16) d where
  map := by
    intro key
    have hlt := key.isLt
    have hkey : key = BitVec.ofNat 16 key.toNat := by simp
    by_cases hk : key.toNat < imageSize
    · rw [hkey, BitVec.toNat_ofNat, Nat.mod_eq_of_lt hlt]
      exact setFromHpData_registers wild server d hk
    · -- behind the image nothing is stored
      have hbehind : (makeRegs wild d)[key.toNat]? = none := by
        rw [List.getElem?_eq_none_iff, makeRegs_length]
        exact Nat.le_of_not_lt hk
      have hbound : 0 + (makeRegs wild d).length ≤ key.toNat := by
        rw [makeRegs_length]
        omega
      have hkept := storeRegisters_registers_of_ge server hlt hbound
      rw [hbehind, hkey]
      exact hkept.trans (hmap _ (Nat.le_of_not_lt hk) hlt)
  table := by
    intro tab htab k hk
    by_cases hin : k < imageSize
    · obtain ⟨value, hvalue⟩ : ∃ v, (makeRegs wild d)[k]? = some v :=
        ⟨_, List.getElem?_eq_getElem (by rwa [makeRegs_length])⟩
      rw [setFromHpData_table wild server d htab hin, hvalue, Option.getD_some]
    · have hbehind : (makeRegs wild d)[k]? = none := by
        rw [List.getElem?_eq_none_iff, makeRegs_length]
        exact Nat.le_of_not_lt hin
      rw [setFromHpData_mapping, Option.map_eq_some_iff] at htab
      obtain ⟨tab0, htab0, rfl⟩ := htab
      rw [setTabs_getElem?_of_ge (by rw [makeRegs_length]; omega), hbehind, Option.getD_none]
      exact htable tab0 htab0 k hk (Nat.le_of_not_lt hin)
  served := by
    rw [setFromHpData_mapping, Option.isSome_map, hserved]

/-- The next update replaces the image of the one before. -/
theorem Serves.next {wild : Binary32 → BitVec 32} {startEnv : StartEnv} {server : Impl}
    {d : HpData} (h : Serves wild startEnv server d) (d' : HpData) :
    Serves wild startEnv (HpModbuss.setFromHpData wild server d' 0#16) d' := by
  have hbehind : ∀ k, imageSize ≤ k → (makeRegs wild d)[k]? = none := by
    intro k hk
    rw [List.getElem?_eq_none_iff, makeRegs_length]
    exact hk
  refine Serves.update ?_ ?_ h.served d'
  · intro k hk hlt
    rw [h.map, BitVec.toNat_ofNat, Nat.mod_eq_of_lt hlt, hbehind k hk]
  · intro tab htab k hk hin
    rw [h.table tab htab k hk, hbehind k hin, Option.getD_none]

theorem serves_boot (env : Env) (port : BitVec 32) (startEnv : StartEnv) :
    lastHanded .modbus (boot env port startEnv).2 = some {} ∧
      Serves env.wild startEnv (boot env port startEnv).1.modbusServer {} := by
  have hfresh : Cleared ({ port := port.setWidth 16 } : Impl) := ⟨rfl, rfl, rfl, rfl, rfl⟩
  refine ⟨by rw [lastHanded, handed_boot]; rfl, ?_⟩
  show Serves env.wild startEnv
    (HpModbuss.setFromHpData env.wild (start { port := port.setWidth 16 } startEnv).1 {} 0#16) {}
  by_cases hreach : startEnv.ReachesThread
  · -- where the thread cannot be created, the mapping stays
    have hstart : ∃ th, (start { port := port.setWidth 16 } startEnv).1 =
        { served { port := port.setWidth 16 } startEnv with serverThread := th } := by
      rw [start_of_reachesThread hfresh hreach]
      cases startEnv.threadError with
      | none => exact ⟨_, rfl⟩
      | some what => exact ⟨none, rfl⟩
    obtain ⟨th, hth⟩ := hstart
    rw [hth]
    refine Serves.update (fun _ _ _ => rfl) ?_ (iff_of_true rfl hreach) {}
    intro tab htab k hk _
    cases htab
    simp [mappingNew, hk]
  · rw [(start_of_not_reachesThread hfresh hreach).1]
    refine Serves.update (fun _ _ _ => rfl) ?_ (iff_of_false (by simp) hreach) {}
    intro tab htab
    cases htab

/-- An iteration that hands an object over serves it; any other serves what it did. -/
theorem serves_iteration (env : Env) (startEnv : StartEnv) (events : List Event) (s : State)
    (c : Cycle) (h : ∃ d, lastHanded .modbus events = some d ∧
      Serves env.wild startEnv s.modbusServer d) :
    ∃ d, lastHanded .modbus (events ++ (iteration env s c).2) = some d ∧
      Serves env.wild startEnv (iteration env s c).1.modbusServer d := by
  obtain ⟨d, hd, hserves⟩ := h
  rcases iteration_cases env s c with ⟨-, later, hit, hnone⟩ | ⟨-, later, hit, hhanded⟩
  · rw [hit]
    refine ⟨d, ?_, hserves⟩
    unfold lastHanded at hd ⊢
    rw [List.filterMap_append, hnone, List.append_nil, hd]
  · rw [hit]
    refine ⟨_, ?_, hserves.next (received env s c.message)⟩
    unfold lastHanded
    rw [List.filterMap_append, hhanded, Store.lastWrite_append]
    rfl

theorem serves_run (env : Env) (port : BitVec 32) (startEnv : StartEnv) (cycles : List Cycle) :
    ∃ d, lastHanded .modbus ((boot env port startEnv).2 ++
        (run env (boot env port startEnv).1 cycles).2) = some d ∧
      Serves env.wild startEnv (run env (boot env port startEnv).1 cycles).1.modbusServer d :=
  Reactive.history_run
    (K := fun events (s : State) => ∃ d, lastHanded .modbus events = some d ∧
      Serves env.wild startEnv s.modbusServer d)
    (serves_iteration env startEnv) ⟨{}, serves_boot env port startEnv⟩ cycles

/-- **The registers are the last object.** Whatever the reads of the serial port and the
publish attempts, as long as no client writes: at the end the map of registers is the image
of the object that was handed to the server last, without any other key; the table is this
image and zeros; and there is one iff the context, the mapping and the socket could be had
at the start. -/
theorem served_is_last_handed (env : Env) (port : BitVec 32) (startEnv : StartEnv)
    (attempts : ℕ → ℕ → HpMqttPub.Attempt) (reads : List ReadResult) :
    ∃ d, lastHanded .modbus (program env port startEnv attempts reads).2 = some d ∧
      Serves env.wild startEnv (program env port startEnv attempts reads).1.modbusServer d := by
  rw [program_eq]
  exact serves_run env port startEnv _

end Hanport.Main
