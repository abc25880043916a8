import Hanport.Lib.Reactive
import Hanport.Lib.Strtof
import Hanport.Model.HanportMessageValidator
import Hanport.Model.HpDataParser
import Hanport.Model.HpModbuss
import Hanport.Model.HpMqttPub

/-!
# The loop of `main`

One pass of the `while (true)` of main.cpp as a reaction to what it meets: the
message that `hpRead` returns and the fates of the publish attempts. Its outputs are
the calls of the publisher and of the Modbus server and the lines of the log; an
exception that a `try` block catches is its text. Reading the configuration,
connecting the publisher and opening the port come before the loop, in `StartUp`.
-/

namespace Hanport.Main

open Lib Lib.Ascii HpModbuss

/-- What the program takes from its surroundings: `std::stof`, the conversion of
a `float` out of the range of `int`, and the names in the configuration. -/
structure Env where
  stof : List Byte → Option Binary32
  wild : Binary32 → BitVec 32
  site : String
  deviceId : String

/-- The names in bgs-lokal.ini, with the `std::stof` of the C locale; a `float` out of
range becomes the least `int`. -/
def bgsLokal : Env where
  stof := Strtof.stof
  wild _ := 0x80000000#32
  site := "bgs-lokal"
  deviceId := "meter1"

/-- The locals of `main` that live across iterations. -/
structure State where
  dataObj : HpData := {}
  rawHpMessage : List Byte := []
  heartbeat : BitVec 32 := 0
  modbusServer : Impl

/-- What one iteration meets. -/
structure Cycle where
  message : List Byte
  attempts : ℕ → HpMqttPub.Attempt := fun _ => .delivered

inductive Level where
  | debug
  | info
  | warn
  | error
  deriving DecidableEq, Repr

/-- What an iteration does to the outside. -/
inductive Event where
  | log (level : Level) (text : String)
  | publishAllData (data : HpData) (messages : List HpMqttPub.Message) (success : Bool)
  | setFromHpData (data : HpData) (startAddress : BitVec 16)
  deriving DecidableEq, Repr

/-! ## Before the loop -/

/-- The Modbus server; an exception of `start` is caught. -/
def startServer (port : BitVec 32) (startEnv : StartEnv) : Impl × List Event :=
  let (server, result) := start { port := port.setWidth 16 } startEnv
  let log := match result with
    | .returned => [.log .info s!"✓ Modbus server started successfully on port {port.toInt}"]
    | .threw what =>
        [.log .error s!"✗ Modbus: Failed to start modbus server on port {port.toInt}: {what}",
         .log .warn "Continuing without Modbus - data will not be available via Modbus TCP"]
    -- not on a fresh object, whose thread is not joinable
    | .terminated => []
  (server,
    [.log .debug s!"Modbus port from config: {port.toInt}",
     .log .debug s!"Attempting to start Modbus server on port {port.toInt}..."] ++ log)

/-- The locals of the loop, the registers with their initial values. -/
def initRegisters (env : Env) (server : Impl) : State × List Event :=
  ({ modbusServer := HpModbuss.setFromHpData env.wild server {} 0 },
    [.log .debug "Writing initial values to Modbus registers...",
     .setFromHpData {} 0,
     .log .debug "✓ Initial Modbus registers written successfully"])

/-- The Modbus server from its start to the loop. -/
def boot (env : Env) (port : BitVec 32) (startEnv : StartEnv) : State × List Event :=
  let (server, serverLog) := startServer port startEnv
  let (s, log) := initRegisters env server
  (s, serverLog ++ log)

/-! ## One iteration -/

/-- The tick of the heartbeat and the call of `hpRead`. -/
def tick (s : State) (message : List Byte) : State :=
  let heartbeat := s.heartbeat + 1
  { s with
    heartbeat := heartbeat
    dataObj := { s.dataObj with heartbeat := heartbeat }
    rawHpMessage := message }

/-- The first `try` block: the lines of a valid message. -/
def validate (raw : List Byte) : List Event × Except String (List (List Byte)) :=
  match HanportMessageValidator.new raw with
  | .error e => ([], .error e)
  | .ok messageValidator =>
      let calculated := messageValidator.getCalculatedCrc
      let transmitted := messageValidator.getTransmittedCrc
      if calculated ≠ transmitted then
        let crcError := s!"CRC mismatch - Calculated: {calculated.toNat}" ++
          s!" Transmitted: {transmitted.toNat}"
        ([.log .error s!"MessageValidator: {crcError}"], .error s!"Data invalid: {crcError}")
      else
        ([.log .info "Message validated successfully - CRC check passed"],
          messageValidator.messageToStringArr)

/-- The second `try` block: the data object as the parser leaves it. -/
def parse (env : Env) (messageArray : List (List Byte)) (dataObj : HpData) :
    HpData × List Event :=
  match HpDataParser.new messageArray with
  | .error e => (dataObj, [.log .error s!"DataParser: Failed to parse message: {e}"])
  | .ok messageParser =>
      match messageParser.parseMessage env.stof dataObj with
      | (dataObj, .ok ()) => (dataObj, [.log .info "Successfully parsed message data"])
      | (dataObj, .error e) =>
          (dataObj, [.log .error s!"DataParser: Failed to parse message: {e}"])

/-- The last two `try` blocks. `publishAllData` reports failures in its result,
which is not looked at. -/
def publishAndWrite (env : Env) (s : State) (attempts : ℕ → HpMqttPub.Attempt) :
    State × List Event :=
  let (messages, success) :=
    HpMqttPub.publishAllData attempts s.dataObj env.site env.deviceId
  ({ s with modbusServer := HpModbuss.setFromHpData env.wild s.modbusServer s.dataObj 0 },
    [.publishAllData s.dataObj messages success,
     .log .info "Data published successfully to MQTT",
     .setFromHpData s.dataObj 0,
     .log .debug s!"Modbus registers updated (heartbeat: {s.dataObj.heartbeat.toInt})"])

/-- One pass of the loop body. -/
def iteration (env : Env) (s : State) (c : Cycle) : State × List Event :=
  let s := tick s c.message
  if s.rawHpMessage = [] then publishAndWrite env s c.attempts
  else
    match validate s.rawHpMessage with
    | (log, .error e) =>
        -- `continue`: this pass neither publishes nor writes the registers
        (s, log ++ [.log .warn s!"MessageValidator: {e}"])
    | (log, .ok messageArray) =>
        let (dataObj, parseLog) := parse env messageArray s.dataObj
        let (s, events) :=
          publishAndWrite env { s with dataObj := dataObj, rawHpMessage := [] } c.attempts
        (s, log ++ parseLog ++ events)

/-- The loop over what its iterations meet. -/
def run (env : Env) (s : State) (cycles : List Cycle) : State × List Event :=
  Reactive.run (iteration env) s cycles

end Hanport.Main
