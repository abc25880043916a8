import Hanport.Logic.ImageValues
import Hanport.Model.SharedTable
import Hanport.Theorems.MeterRoundTrip

/-!
# From the meter to a Modbus client

A client that reads the registers of the image once a telegram has arrived, with no client
having written to the table, gets, in pairs, the number of frames and the readings that
were sent: the energies, voltages and currents as the bits of their `float`, the powers as
an `int` of their thousandfold. Every other field reads as it did before.
-/

namespace Hanport.Main

open Lib Lib.Ascii HpModbuss HpSerialRead

/-- What a client reads of the image of an object. -/
theorem reply_of_serves {wild : Binary32 → BitVec 32} {startEnv : StartEnv} {server : Impl}
    {d : HpData} (h : Serves wild startEnv server d) {tab : Tab}
    (htab : server.mbMapping = some tab) : reply { tab := tab } 0 imageSize = makeRegs wild d := by
  apply List.ext_getElem?
  intro k
  unfold reply
  rw [List.drop_zero, List.getElem?_take]
  -- the table is longer than the image
  by_cases hk : k < imageSize
  · have hroom : k < nbReg := Nat.lt_of_lt_of_le hk (by decide)
    obtain ⟨word, hword⟩ : ∃ word, (makeRegs wild d)[k]? = some word :=
      ⟨_, List.getElem?_eq_getElem (by rwa [makeRegs_length])⟩
    rw [if_pos hk, Vector.getElem?_toList]
    show tab[k]? = _
    rw [h.table tab htab k hroom, hword, Option.getD_some]
  · rw [if_neg hk, List.getElem?_eq_none_iff.mpr (by rw [makeRegs_length]; omega)]

end Hanport.Main
