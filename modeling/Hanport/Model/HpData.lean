import Hanport.Lib.Binary32
import Hanport.Lib.Store

/-!
# `hpData`

The readings of the meter (hpData.hpp): a heartbeat and 26 measured values, all
initially 0. `Field` names the measured values, so that the branches of the
parser and the statements about them can range over them.
-/

namespace Hanport

open Lib

structure HpData where
  heartbeat : BitVec 32 := 0
  -- active and reactive energy
  activeEnergyImportTotal : Binary32 := 0
  activeEnergyExportTotal : Binary32 := 0
  reactiveEnergyImportTotal : Binary32 := 0
  reactiveEnergyExportTotal : Binary32 := 0
  -- instantaneous power, total
  activePowerImport : Binary32 := 0
  activePowerExport : Binary32 := 0
  reactivePowerImport : Binary32 := 0
  reactivePowerExport : Binary32 := 0
  -- active power of each phase
  l1ActivePowerImport : Binary32 := 0
  l1ActivePowerExport : Binary32 := 0
  l2ActivePowerImport : Binary32 := 0
  l2ActivePowerExport : Binary32 := 0
  l3ActivePowerImport : Binary32 := 0
  l3ActivePowerExport : Binary32 := 0
  -- reactive power of each phase
  l1ReactivePowerImport : Binary32 := 0
  l1ReactivePowerExport : Binary32 := 0
  l2ReactivePowerImport : Binary32 := 0
  l2ReactivePowerExport : Binary32 := 0
  l3ReactivePowerImport : Binary32 := 0
  l3ReactivePowerExport : Binary32 := 0
  -- voltage and current of each phase
  l1VoltageRms : Binary32 := 0
  l2VoltageRms : Binary32 := 0
  l3VoltageRms : Binary32 := 0
  l1CurrentRms : Binary32 := 0
  l2CurrentRms : Binary32 := 0
  l3CurrentRms : Binary32 := 0
  deriving DecidableEq, Repr

/-- The measured fields of `hpData`. -/
inductive Field where
  | activeEnergyImportTotal
  | activeEnergyExportTotal
  | reactiveEnergyImportTotal
  | reactiveEnergyExportTotal
  | activePowerImport
  | activePowerExport
  | reactivePowerImport
  | reactivePowerExport
  | l1ActivePowerImport
  | l1ActivePowerExport
  | l2ActivePowerImport
  | l2ActivePowerExport
  | l3ActivePowerImport
  | l3ActivePowerExport
  | l1ReactivePowerImport
  | l1ReactivePowerExport
  | l2ReactivePowerImport
  | l2ReactivePowerExport
  | l3ReactivePowerImport
  | l3ReactivePowerExport
  | l1VoltageRms
  | l2VoltageRms
  | l3VoltageRms
  | l1CurrentRms
  | l2CurrentRms
  | l3CurrentRms
  deriving DecidableEq, Repr

/-- The measured fields in the order of their declarations. -/
def Field.all : List Field :=
  [.activeEnergyImportTotal, .activeEnergyExportTotal, .reactiveEnergyImportTotal,
   .reactiveEnergyExportTotal, .activePowerImport, .activePowerExport, .reactivePowerImport,
   .reactivePowerExport, .l1ActivePowerImport, .l1ActivePowerExport, .l2ActivePowerImport,
   .l2ActivePowerExport, .l3ActivePowerImport, .l3ActivePowerExport, .l1ReactivePowerImport,
   .l1ReactivePowerExport, .l2ReactivePowerImport, .l2ReactivePowerExport,
   .l3ReactivePowerImport, .l3ReactivePowerExport, .l1VoltageRms, .l2VoltageRms,
   .l3VoltageRms, .l1CurrentRms, .l2CurrentRms, .l3CurrentRms]

theorem Field.mem_all (f : Field) : f ∈ Field.all := by
  cases f <;> decide

namespace HpData

/-- `d.f` -/
def get (d : HpData) : Field → Binary32
  | .activeEnergyImportTotal => d.activeEnergyImportTotal
  | .activeEnergyExportTotal => d.activeEnergyExportTotal
  | .reactiveEnergyImportTotal => d.reactiveEnergyImportTotal
  | .reactiveEnergyExportTotal => d.reactiveEnergyExportTotal
  | .activePowerImport => d.activePowerImport
  | .activePowerExport => d.activePowerExport
  | .reactivePowerImport => d.reactivePowerImport
  | .reactivePowerExport => d.reactivePowerExport
  | .l1ActivePowerImport => d.l1ActivePowerImport
  | .l1ActivePowerExport => d.l1ActivePowerExport
  | .l2ActivePowerImport => d.l2ActivePowerImport
  | .l2ActivePowerExport => d.l2ActivePowerExport
  | .l3ActivePowerImport => d.l3ActivePowerImport
  | .l3ActivePowerExport => d.l3ActivePowerExport
  | .l1ReactivePowerImport => d.l1ReactivePowerImport
  | .l1ReactivePowerExport => d.l1ReactivePowerExport
  | .l2ReactivePowerImport => d.l2ReactivePowerImport
  | .l2ReactivePowerExport => d.l2ReactivePowerExport
  | .l3ReactivePowerImport => d.l3ReactivePowerImport
  | .l3ReactivePowerExport => d.l3ReactivePowerExport
  | .l1VoltageRms => d.l1VoltageRms
  | .l2VoltageRms => d.l2VoltageRms
  | .l3VoltageRms => d.l3VoltageRms
  | .l1CurrentRms => d.l1CurrentRms
  | .l2CurrentRms => d.l2CurrentRms
  | .l3CurrentRms => d.l3CurrentRms

/-- `d.f = v` -/
def set (d : HpData) (f : Field) (v : Binary32) : HpData :=
  match f with
  | .activeEnergyImportTotal => { d with activeEnergyImportTotal := v }
  | .activeEnergyExportTotal => { d with activeEnergyExportTotal := v }
  | .reactiveEnergyImportTotal => { d with reactiveEnergyImportTotal := v }
  | .reactiveEnergyExportTotal => { d with reactiveEnergyExportTotal := v }
  | .activePowerImport => { d with activePowerImport := v }
  | .activePowerExport => { d with activePowerExport := v }
  | .reactivePowerImport => { d with reactivePowerImport := v }
  | .reactivePowerExport => { d with reactivePowerExport := v }
  | .l1ActivePowerImport => { d with l1ActivePowerImport := v }
  | .l1ActivePowerExport => { d with l1ActivePowerExport := v }
  | .l2ActivePowerImport => { d with l2ActivePowerImport := v }
  | .l2ActivePowerExport => { d with l2ActivePowerExport := v }
  | .l3ActivePowerImport => { d with l3ActivePowerImport := v }
  | .l3ActivePowerExport => { d with l3ActivePowerExport := v }
  | .l1ReactivePowerImport => { d with l1ReactivePowerImport := v }
  | .l1ReactivePowerExport => { d with l1ReactivePowerExport := v }
  | .l2ReactivePowerImport => { d with l2ReactivePowerImport := v }
  | .l2ReactivePowerExport => { d with l2ReactivePowerExport := v }
  | .l3ReactivePowerImport => { d with l3ReactivePowerImport := v }
  | .l3ReactivePowerExport => { d with l3ReactivePowerExport := v }
  | .l1VoltageRms => { d with l1VoltageRms := v }
  | .l2VoltageRms => { d with l2VoltageRms := v }
  | .l3VoltageRms => { d with l3VoltageRms := v }
  | .l1CurrentRms => { d with l1CurrentRms := v }
  | .l2CurrentRms => { d with l2CurrentRms := v }
  | .l3CurrentRms => { d with l3CurrentRms := v }

@[simp] theorem heartbeat_set (d : HpData) (f : Field) (v : Binary32) :
    (d.set f v).heartbeat = d.heartbeat := by
  cases f <;> rfl

theorem get_set (d : HpData) (f : Field) (v : Binary32) (g : Field) :
    (d.set f v).get g = if g = f then v else d.get g := by
  cases f <;> cases g <;> rfl

/-- The measured fields as a store. -/
def store : Store Field Binary32 HpData where
  get := get
  set := set
  get_set := get_set

/-- Writes to measured fields leave the heartbeat alone. -/
@[simp] theorem heartbeat_writeAll (ws : List (Field × Binary32)) (d : HpData) :
    (store.writeAll ws d).heartbeat = d.heartbeat := by
  induction ws generalizing d with
  | nil => rfl
  | cons w ws ih =>
      rw [Store.writeAll_cons, ih]
      exact heartbeat_set d w.1 w.2

/-- Two objects with one heartbeat and equal measured fields are equal. -/
theorem ext_get {d e : HpData} (hb : d.heartbeat = e.heartbeat)
    (h : ∀ f, d.get f = e.get f) : d = e := by
  cases d
  cases e
  simp only [mk.injEq]
  exact ⟨hb, h .activeEnergyImportTotal, h .activeEnergyExportTotal,
    h .reactiveEnergyImportTotal, h .reactiveEnergyExportTotal, h .activePowerImport,
    h .activePowerExport, h .reactivePowerImport, h .reactivePowerExport,
    h .l1ActivePowerImport, h .l1ActivePowerExport, h .l2ActivePowerImport,
    h .l2ActivePowerExport, h .l3ActivePowerImport, h .l3ActivePowerExport,
    h .l1ReactivePowerImport, h .l1ReactivePowerExport, h .l2ReactivePowerImport,
    h .l2ReactivePowerExport, h .l3ReactivePowerImport, h .l3ReactivePowerExport,
    h .l1VoltageRms, h .l2VoltageRms, h .l3VoltageRms, h .l1CurrentRms, h .l2CurrentRms,
    h .l3CurrentRms⟩

/-- Writes made a second time leave the object as it is. -/
theorem writeAll_twice (ws : List (Field × Binary32)) (d : HpData) :
    store.writeAll ws (store.writeAll ws d) = store.writeAll ws d := by
  apply ext_get
  · rw [heartbeat_writeAll]
  · exact store.get_writeAll_twice ws d

end HpData

end Hanport
