import Hanport.Model.HpData

/-!
# `hpModbuss`

The Modbus TCP server (hpModbuss.cpp), built with libmodbus: its state `Impl`,
`start` with the outcomes of the calls that can fail, `stop` in the parts between
which the server thread can run, the register operations, and the register image
of `hpData`. A handle of the library is held or null. The client sockets of the
server loop are not modelled.
-/

namespace Hanport.HpModbuss

open Lib

/-- Room of the mapping. -/
def nbReg : ℕ := 1000

abbrev Word := BitVec 16

/-- `tab_registers` of a mapping. -/
abbrev Tab := Vector Word nbReg

/-- `modbus_mapping_new` returns zeroed tables. -/
def mappingNew : Tab := Vector.replicate nbReg 0#16

/-- Where the server thread stands: about to test `running`, in `select`, or
behind its loop. -/
inductive ThreadPc where
  | atTest
  | inSelect
  | left
  deriving DecidableEq, Repr

/-- `hpModbuss::Impl`. The thread is `none` when it is not joinable. -/
structure Impl where
  port : BitVec 16
  serverThread : Option ThreadPc := none
  running : Bool := false
  ctx : Bool := false
  mbMapping : Option Tab := none
  serverSocket : ℤ := -1
  registers : BitVec 16 → Option Word := fun _ => none

/-! ## `start` -/

/-- The outcomes of the calls that `start` makes: whether a context and a mapping can
be created, the result of `modbus_tcp_listen`, and the text of the exception of the
thread creation, if it throws. -/
structure StartEnv where
  newTcp : Bool
  newMapping : Bool
  listen : ℤ
  threadError : Option String
  deriving DecidableEq, Repr

/-- How a call of `start` ends. Assigning to a joinable `std::thread` terminates
the program. -/
inductive StartResult where
  | returned
  | threw (what : String)
  | terminated
  deriving DecidableEq, Repr

/-- `start`. The exception of the thread creation leaves everything as it
stands there. -/
def start (s : Impl) (env : StartEnv) : Impl × StartResult :=
  if s.running then (s, .returned)
  else
    let s := { s with running := true, ctx := env.newTcp }
    if s.ctx = false then
      ({ s with running := false }, .threw "Failed to create libmodbus context")
    else
      let s := { s with mbMapping := if env.newMapping then some mappingNew else none }
      if s.mbMapping = none then
        ({ s with ctx := false, running := false }, .threw "Failed to allocate modbus mapping")
      else
        let s := { s with serverSocket := env.listen }
        if s.serverSocket = -1 then
          ({ s with mbMapping := none, ctx := false, running := false },
            .threw "Failed to listen on modbus TCP socket")
        else
          match env.threadError with
          | some what => (s, .threw what)
          | none =>
              if s.serverThread.isSome then (s, .terminated)
              else ({ s with serverThread := some .atTest }, .returned)

/-! ## `stop` -/

/-- The part under the mutex, when the server is running. -/
def stopLock (s : Impl) : Impl := { s with running := false }

/-- Closing the listening socket. -/
def stopClose (s : Impl) : Impl :=
  if s.ctx then { s with serverSocket := -1 } else s

/-- `join` returns when the thread has left its loop. -/
def canJoin (s : Impl) : Bool :=
  match s.serverThread with
  | none => true
  | some pc => pc = .left

def stopJoin (s : Impl) : Impl := { s with serverThread := none }

/-- Freeing the mapping and the context. -/
def stopFree (s : Impl) : Impl := { s with mbMapping := none, ctx := false }

/-- The server thread that finds `running` cleared leaves its loop. -/
def threadLeaves (s : Impl) : Impl :=
  { s with serverThread := s.serverThread.map fun _ => .left }

/-- A whole call of `stop`; while it waits in `join` the thread leaves. -/
def stop (s : Impl) : Impl :=
  if s.running = false then s
  else stopFree (stopJoin (threadLeaves (stopClose (stopLock s))))

/-! ## Registers -/

/-- `registers[key] = value` -/
def setRegister (registers : BitVec 16 → Option Word) (key : BitVec 16) (value : Word) :
    BitVec 16 → Option Word :=
  Function.update registers key (some value)

/-- `tab_registers[index] = value` under the bound of the source. -/
def setTab (tab : Tab) (index : ℕ) (value : Word) : Tab :=
  if h : index < nbReg then tab.set index value h else tab

/-- `set_holding_register` -/
def setHoldingRegister (s : Impl) (address : BitVec 16) (value : Word) : Impl :=
  { s with
    registers := setRegister s.registers address value
    mbMapping := s.mbMapping.map fun tab => setTab tab address.toNat value }

/-- One pass of the loop of `set_holding_registers`: the key of the map is
`address + i` as a `uint16_t`, the index of the table is `address + i`. -/
def storeRegister (s : Impl) (address : BitVec 16) (i : ℕ) (value : Word) : Impl :=
  { s with
    registers := setRegister s.registers (BitVec.ofNat 16 (address.toNat + i)) value
    mbMapping := s.mbMapping.map fun tab => setTab tab (address.toNat + i) value }

/-- The loop of `set_holding_registers` from index `i`. -/
def storeRegisters (s : Impl) (address : BitVec 16) : ℕ → List Word → Impl
  | _, [] => s
  | i, value :: values => storeRegisters (storeRegister s address i value) address (i + 1) values

/-- `set_holding_registers` -/
def setHoldingRegisters (s : Impl) (address : BitVec 16) (values : List Word) : Impl :=
  storeRegisters s address 0 values

/-- `get_holding_register` -/
def getHoldingRegister (s : Impl) (address : BitVec 16) : Except String Word :=
  match s.registers address with
  | some value => .ok value
  | none => .error "register not set"

/-- `status` -/
def status (s : Impl) : String := if s.running then "running" else "stopped"

/-! ## The register image of `hpData` -/

/-- `float_to_regs`: low word first. -/
def floatToRegs (f : Binary32) : List Word :=
  let high := (f.bits >>> 16 &&& 0xFFFF#32).setWidth 16
  let low := (f.bits &&& 0xFFFF#32).setWidth 16
  [low, high]

/-- `int_to_regs` -/
def intToRegs (i : BitVec 32) : List Word :=
  let high := (i.sshiftRight 16 &&& 0xFFFF#32).setWidth 16
  let low := (i &&& 0xFFFF#32).setWidth 16
  [low, high]

@[simp] theorem floatToRegs_length (f : Binary32) : (floatToRegs f).length = 2 := rfl

@[simp] theorem intToRegs_length (i : BitVec 32) : (intToRegs i).length = 2 := rfl

section MakeRegs

variable (wild : Binary32 → BitVec 32)

/-- `static_cast<int>(f * 1000)`. `wild` is the conversion where it is
undefined. -/
def thousandfold (f : Binary32) : BitVec 32 := (f * Binary32.ofInt 1000).toInt32 wild

/-- `make_regs` -/
@[irreducible] def makeRegs (d : HpData) : List Word :=
  intToRegs d.heartbeat ++
  floatToRegs d.activeEnergyImportTotal ++
  floatToRegs d.activeEnergyExportTotal ++
  floatToRegs d.reactiveEnergyImportTotal ++
  floatToRegs d.reactiveEnergyExportTotal ++
  intToRegs (thousandfold wild d.activePowerImport) ++
  intToRegs (thousandfold wild d.activePowerExport) ++
  intToRegs (thousandfold wild d.reactivePowerImport) ++
  intToRegs (thousandfold wild d.reactivePowerExport) ++
  -- per-phase active power
  intToRegs (thousandfold wild d.l1ActivePowerImport) ++
  intToRegs (thousandfold wild d.l1ActivePowerExport) ++
  intToRegs (thousandfold wild d.l2ActivePowerImport) ++
  intToRegs (thousandfold wild d.l2ActivePowerExport) ++
  intToRegs (thousandfold wild d.l3ActivePowerImport) ++
  intToRegs (thousandfold wild d.l3ActivePowerExport) ++
  -- per-phase reactive power
  intToRegs (thousandfold wild d.l1ReactivePowerImport) ++
  intToRegs (thousandfold wild d.l1ReactivePowerExport) ++
  intToRegs (thousandfold wild d.l2ReactivePowerImport) ++
  intToRegs (thousandfold wild d.l2ReactivePowerExport) ++
  intToRegs (thousandfold wild d.l3ReactivePowerImport) ++
  intToRegs (thousandfold wild d.l3ReactivePowerExport) ++
  -- voltages
  floatToRegs d.l1VoltageRms ++
  floatToRegs d.l2VoltageRms ++
  floatToRegs d.l3VoltageRms ++
  -- currents
  floatToRegs d.l1CurrentRms ++
  floatToRegs d.l2CurrentRms ++
  floatToRegs d.l3CurrentRms

/-- The registers of a snapshot. -/
def imageSize : ℕ := 54

@[simp] theorem makeRegs_length (d : HpData) : (makeRegs wild d).length = imageSize := by
  unfold makeRegs imageSize
  repeat rw [List.length_append]
  repeat rw [intToRegs_length]
  repeat rw [floatToRegs_length]

/-- `set_from_hpData` -/
def setFromHpData (s : Impl) (d : HpData) (startAddress : BitVec 16) : Impl :=
  setHoldingRegisters s startAddress (makeRegs wild d)

end MakeRegs

end Hanport.HpModbuss
