import Hanport.Logic.Image

/-!
# The values of the register image

The image is the concatenation of 27 values, two registers each, low word first:
the heartbeat, then one value for each measured field in the order of `Field.all`
(`makeRegs_eq_flatMap`). Reading the registers in pairs gives the values back
(`decodePairs_makeRegs`).
-/

namespace Hanport

open Lib

/-- The fields that are exposed as the bits of their `float`: the energy totals. -/
def Field.energyTotals : List Field :=
  [.activeEnergyImportTotal, .activeEnergyExportTotal, .reactiveEnergyImportTotal,
   .reactiveEnergyExportTotal]

/-- The fields that are exposed as an `int` of their thousandfold. -/
def Field.powers : List Field :=
  [.activePowerImport, .activePowerExport, .reactivePowerImport, .reactivePowerExport,
   .l1ActivePowerImport, .l1ActivePowerExport, .l2ActivePowerImport, .l2ActivePowerExport,
   .l3ActivePowerImport, .l3ActivePowerExport, .l1ReactivePowerImport,
   .l1ReactivePowerExport, .l2ReactivePowerImport, .l2ReactivePowerExport,
   .l3ReactivePowerImport, .l3ReactivePowerExport]

/-- The voltages and currents, exposed as the bits of their `float`. -/
def Field.effectiveValues : List Field :=
  [.l1VoltageRms, .l2VoltageRms, .l3VoltageRms, .l1CurrentRms, .l2CurrentRms, .l3CurrentRms]

theorem Field.all_eq : Field.all = energyTotals ++ powers ++ effectiveValues := rfl

theorem Field.not_mem_powers_of_energyTotals {f : Field} (hf : f ∈ energyTotals) :
    f ∉ powers := by
  revert f
  decide

theorem Field.not_mem_powers_of_effectiveValues {f : Field} (hf : f ∈ effectiveValues) :
    f ∉ powers := by
  revert f
  decide

namespace HpModbuss

/-- Reading consecutive registers in pairs, the low word first. -/
def decodePairs : List Word → List (BitVec 32)
  | low :: high :: rest => decodeInt low high :: decodePairs rest
  | _ => []

theorem decodePairs_intToRegs (i : BitVec 32) (rest : List Word) :
    decodePairs (intToRegs i ++ rest) = i :: decodePairs rest := by
  obtain ⟨low, high, hregs, hdecode⟩ := intToRegs_eq i
  rw [hregs]
  show decodeInt low high :: decodePairs rest = _
  rw [hdecode]

theorem decodePairs_flatMap (is : List (BitVec 32)) : decodePairs (is.flatMap intToRegs) = is := by
  induction is with
  | nil => rfl
  | cons i is ih => rw [List.flatMap_cons, decodePairs_intToRegs, ih]

/-- Both encodings split the 32 bits alike: behind the mask the shift of an `int`
and that of an unsigned number are the same. -/
theorem floatToRegs_eq (x : Binary32) : floatToRegs x = intToRegs x.bits := by
  have hhigh : (x.bits >>> 16 &&& 0xFFFF#32) = (x.bits.sshiftRight 16 &&& 0xFFFF#32) := by
    apply BitVec.eq_of_getLsbD_eq
    intro k hk
    rw [BitVec.getLsbD_and, BitVec.getLsbD_and, getLsbD_mask, BitVec.getLsbD_ushiftRight,
      BitVec.getLsbD_sshiftRight]
    by_cases h : k < 16
    · simp [h, show 16 + k < 32 by omega, show ¬ 32 ≤ k by omega]
    · simp [h]
  unfold floatToRegs intToRegs
  rw [hhigh]

section Image

variable (wild : Binary32 → BitVec 32)

/-- The value of a field in the image. -/
def imageValue (d : HpData) (f : Field) : BitVec 32 :=
  if f ∈ Field.powers then thousandfold wild (d.get f) else (d.get f).bits

theorem imageValue_of_power {d : HpData} {f : Field} (hf : f ∈ Field.powers) :
    imageValue wild d f = thousandfold wild (d.get f) := if_pos hf

theorem imageValue_of_not_power {d : HpData} {f : Field} (hf : f ∉ Field.powers) :
    imageValue wild d f = (d.get f).bits := if_neg hf

/-- **The image is the 27 values, one after the other.** -/
theorem makeRegs_eq_flatMap (d : HpData) :
    makeRegs wild d = (d.heartbeat :: Field.all.map (imageValue wild d)).flatMap intToRegs := by
  have hE : Field.energyTotals.map (imageValue wild d) =
      Field.energyTotals.map fun f => (d.get f).bits :=
    List.map_congr_left fun f hf =>
      imageValue_of_not_power wild (Field.not_mem_powers_of_energyTotals hf)
  have hP : Field.powers.map (imageValue wild d) =
      Field.powers.map fun f => thousandfold wild (d.get f) :=
    List.map_congr_left fun f hf => imageValue_of_power wild hf
  have hV : Field.effectiveValues.map (imageValue wild d) =
      Field.effectiveValues.map fun f => (d.get f).bits :=
    List.map_congr_left fun f hf =>
      imageValue_of_not_power wild (Field.not_mem_powers_of_effectiveValues hf)
  rw [Field.all_eq, List.map_append, List.map_append, hE, hP, hV]
  unfold makeRegs
  simp only [floatToRegs_eq, Field.energyTotals, Field.powers, Field.effectiveValues,
    List.map_cons, List.map_nil, List.cons_append, List.nil_append, List.flatMap_cons,
    List.flatMap_nil, List.append_nil, List.append_assoc, HpData.get]

theorem decodePairs_makeRegs (d : HpData) :
    decodePairs (makeRegs wild d) = d.heartbeat :: Field.all.map (imageValue wild d) := by
  rw [makeRegs_eq_flatMap, decodePairs_flatMap]

/-- The pair of a power field. -/
theorem decodePairs_power (d : HpData) {f : Field} (hf : f ∈ Field.powers) :
    (decodePairs (makeRegs wild d))[Field.all.idxOf f + 1]? =
      some (thousandfold wild (d.get f)) := by
  rw [decodePairs_makeRegs, List.getElem?_cons_succ, List.getElem?_map,
    List.getElem?_idxOf (Field.mem_all f), Option.map_some, imageValue_of_power wild hf]

end Image

end HpModbuss

end Hanport
