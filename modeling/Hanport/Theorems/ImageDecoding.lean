import Hanport.Logic.ImageValues
import Hanport.Logic.Thousandfold

/-!
# The register image decodes to the data

For data whose power fields times 1000 are in the range of `int`, the 54 registers
of `make_regs` determine the heartbeat, the bits of the energy totals, voltages and
currents, and the sixteen truncated powers.
-/

namespace Hanport.HpModbuss

open Lib

/-- The thousandfold of a power field, truncated toward zero. -/
def watts (d : HpData) (f : Field) : Option ℤ := (d.get f * Binary32.ofInt 1000).trunc?

/-- Every power field times 1000 is in the range of `int`. -/
def PowersInRange (d : HpData) : Prop :=
  ∀ f ∈ Field.powers, ∃ n, watts d f = some n ∧ Strtol.InInt n

/-- **The image decodes to the data.** For every `d` whose powers are in range:
`make_regs` gives 54 registers, which read in pairs, low word first, are the
heartbeat, the bits of the four energy totals, the sixteen powers as truncated
`int`s, and the bits of the voltages and currents. Two such objects with one image
agree on all of these. -/
theorem makeRegs_decodes (wild : Binary32 → BitVec 32) (d : HpData) (hd : PowersInRange d) :
    (makeRegs wild d).length = 54 ∧
    (∃ powers : List (BitVec 32),
      decodePairs (makeRegs wild d) =
        [d.heartbeat] ++ Field.energyTotals.map (fun f => (d.get f).bits) ++ powers ++
          Field.effectiveValues.map (fun f => (d.get f).bits) ∧
      powers.map (fun i => some i.toInt) = Field.powers.map (watts d)) ∧
    ∀ e, PowersInRange e → makeRegs wild d = makeRegs wild e →
      d.heartbeat = e.heartbeat ∧
      (∀ f ∈ Field.energyTotals ++ Field.effectiveValues, d.get f = e.get f) ∧
      ∀ f ∈ Field.powers, watts d f = watts e f := by
  have htoInt : ∀ e, PowersInRange e → ∀ f ∈ Field.powers,
      some (imageValue wild e f).toInt = watts e f := by
    intro e he f hf
    obtain ⟨n, hn, hrange⟩ := he f hf
    rw [imageValue_of_power wild hf, thousandfold_toInt wild hn hrange, hn]
  refine ⟨makeRegs_length wild d, ⟨Field.powers.map (imageValue wild d), ?_, ?_⟩, ?_⟩
  · rw [decodePairs_makeRegs, Field.all_eq, List.map_append, List.map_append,
      List.map_congr_left (l := Field.energyTotals) fun f hf =>
        imageValue_of_not_power wild (Field.not_mem_powers_of_energyTotals hf),
      List.map_congr_left (l := Field.effectiveValues) fun f hf =>
        imageValue_of_not_power wild (Field.not_mem_powers_of_effectiveValues hf)]
    simp
  · rw [List.map_map]
    exact List.map_congr_left fun f hf => htoInt d hd f hf
  · intro e he hsame
    have hvalues := congrArg decodePairs hsame
    rw [decodePairs_makeRegs, decodePairs_makeRegs, List.cons.injEq, List.map_inj_left] at hvalues
    obtain ⟨hheartbeat, hfields⟩ := hvalues
    refine ⟨hheartbeat, fun f hf => ?_, fun f hf => ?_⟩
    · have hnot : f ∉ Field.powers := by
        rcases List.mem_append.mp hf with h | h
        · exact Field.not_mem_powers_of_energyTotals h
        · exact Field.not_mem_powers_of_effectiveValues h
      have hbits := hfields f (Field.mem_all f)
      rw [imageValue_of_not_power wild hnot, imageValue_of_not_power wild hnot] at hbits
      exact congrArg Binary32.mk hbits
    · have hint := hfields f (Field.mem_all f)
      rw [← htoInt d hd f hf, ← htoInt e he f hf, hint]

/-- The powers are 1.727, -1.5 and 1.004 kW. -/
def measured : HpData where
  heartbeat := 7#32
  activeEnergyImportTotal := ⟨0x4640E6B6#32⟩
  activePowerImport := ⟨0x3FDD0E56#32⟩
  activePowerExport := ⟨0xBFC00000#32⟩
  l1ActivePowerImport := ⟨0x3F808312#32⟩
  l1VoltageRms := ⟨0x43666666#32⟩
  l1CurrentRms := ⟨0xBE800000#32⟩

/-- The watts of a field of `measured`. -/
def measuredWatts : Field → ℤ
  | .activePowerImport => 1727
  | .activePowerExport => -1500
  | .l1ActivePowerImport => 1003
  | _ => 0

theorem watts_measured (f : Field) (hf : f ∈ Field.powers) :
    watts measured f = some (measuredWatts f) := by
  revert f
  decide +kernel

theorem makeRegs_decodes_measured :
    ∃ powers : List (BitVec 32),
      decodePairs (makeRegs (fun _ => 0#32) measured) =
        [7#32] ++ [0x4640E6B6#32, 0#32, 0#32, 0#32] ++ powers ++
          [0x43666666#32, 0#32, 0#32, 0xBE800000#32, 0#32, 0#32] ∧
      powers.map (fun i => some i.toInt) =
        [some 1727, some (-1500), some 0, some 0, some 1003] ++ List.replicate 11 (some 0) := by
  have hrange : PowersInRange measured := by
    intro f hf
    refine ⟨measuredWatts f, watts_measured f hf, ?_⟩
    cases f <;> decide
  obtain ⟨powers, hdecode, hpowers⟩ := (makeRegs_decodes (fun _ => 0#32) measured hrange).2.1
  refine ⟨powers, hdecode, hpowers.trans ?_⟩
  rw [List.map_congr_left watts_measured]
  rfl

end Hanport.HpModbuss
