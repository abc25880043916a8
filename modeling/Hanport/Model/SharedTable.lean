import Hanport.Lib.Lts
import Hanport.Model.HpModbuss

/-!
# The table between the updater and the server thread

`set_from_hpData(d, 0)` stores the registers of a snapshot one by one, under the
mutex; `modbus_reply` reads and writes the same table in the server thread, which
does not take the mutex. So a request can be handled between any two stores. The
snapshots passed, and the last one whose update is complete, are recorded beside
the state.
-/

namespace Hanport.HpModbuss

open Lib

structure Shared where
  tab : Tab
  /-- The snapshot being stored, and the index of the next store. -/
  update : Option (HpData × ℕ) := none
  passed : List HpData := []
  completed : Option HpData := none

inductive SharedLabel where
  | setFromHpData (d : HpData)
  | store
  | setDone
  | read (address count : ℕ)
  | write (address : ℕ) (values : List Word)

/-- The steps of the server thread. -/
def SharedLabel.isRequest : SharedLabel → Bool
  | .setFromHpData _ => false
  | .store => false
  | .setDone => false
  | .read _ _ => true
  | .write _ _ => true

/-- `tab_registers[index] = value` for consecutive indices. -/
def setTabs (tab : Tab) : ℕ → List Word → Tab
  | _, [] => tab
  | i, value :: values => setTabs (setTab tab i value) (i + 1) values

/-- `modbus_reply` to a read of holding registers. -/
def reply (s : Shared) (address count : ℕ) : List Word :=
  (s.tab.toList.drop address).take count

section Step

variable (wild : Binary32 → BitVec 32)

/-- One step, where it is possible. A write of a client that leaves the table is
refused. -/
def sharedStep (s : Shared) : SharedLabel → Option Shared
  | .setFromHpData d =>
      match s.update with
      | none => some { s with update := some (d, 0), passed := s.passed ++ [d] }
      | some _ => none
  | .store =>
      match s.update with
      | none => none
      | some (d, i) =>
          match (makeRegs wild d)[i]? with
          | some value => some { s with tab := setTab s.tab i value, update := some (d, i + 1) }
          | none => none
  | .setDone =>
      match s.update with
      | none => none
      | some (d, i) =>
          if i = (makeRegs wild d).length then
            some { s with update := none, completed := some d }
          else none
  | .read _ _ => some s
  | .write address values =>
      if address + values.length ≤ nbReg then
        some { s with tab := setTabs s.tab address values }
      else some s

end Step

end Hanport.HpModbuss
