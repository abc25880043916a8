import Hanport.Lib.Stoi
import Hanport.Model.Config
import Hanport.Model.Program

/-!
# The start of `main`

The command line, the configuration and what is made of it before the loop of main.cpp:
the logger, the publisher, the Modbus server and the serial port; and the whole of
`main`. What the calls outside of the program give is a `World`. The level and the
pattern of the log are not modelled, nor the call of `buildTopic`, whose result is
dropped.
-/

namespace Hanport.Main

open Lib Lib.Ascii HpModbuss HpSerialRead

/-! ## The command line -/

def isConfigOption (a : String) : Bool := a = "--config" || a = "-c"

def isHelpOption (a : String) : Bool := a = "--help" || a = "-h"

/-- How the loop over the arguments ends. -/
inductive CommandLine where
  | run (configFilePath : String)
  | missingValue
  | help
  deriving DecidableEq, Repr

/-- The loop over the arguments behind the name of the program. -/
def commandLine (configFilePath : String) : List String → CommandLine
  | [] => .run configFilePath
  | a :: args =>
      if isConfigOption a then
        match args with
        | [] => .missingValue
        -- `argv[++i]`: taken whatever it is, `--help` included
        | value :: args => commandLine value args
      else if isHelpOption a then .help
      else commandLine configFilePath args

def defaultConfigFilePath : String := "configs/bgs-lokal.ini"

/-! ## The settings -/

/-- A call of `cfg.get`. -/
structure Setting where
  sec : String
  key : String
  defaultVal : String
  deriving DecidableEq, Repr

namespace Setting

def read (s : Setting) (cfg : Config) : List Byte :=
  cfg.get (ascii s.sec) (ascii s.key) (ascii s.defaultVal)

def logPath : Setting := ⟨"LOGGER", "PATH", "/var/log/hanport/hanport.log"⟩
def brokerAddress : Setting := ⟨"MQTT", "BROKER", "localhost:1883"⟩
def clientId : Setting := ⟨"MQTT", "CLIENT_ID", "hanport_client"⟩
def willTopic : Setting := ⟨"MQTT", "WILL_TOPIC", "hanport_client/status"⟩
def willMessage : Setting := ⟨"MQTT", "WILL_MESSAGE", "offline"⟩
def site : Setting := ⟨"MQTT", "SITE_ID", "bgs-office"⟩
def deviceId : Setting := ⟨"MQTT", "DEVICE_ID", "hanport_meter_01"⟩
def userName : Setting := ⟨"MQTT", "USERNAME", "mqtt_user"⟩
def password : Setting := ⟨"MQTT", "PASSWORD", "mqtt_password"⟩
def port : Setting := ⟨"MODBUS", "PORT", "502"⟩
def serialPort : Setting := ⟨"SERIALPORT", "PATH", "/dev/ttyAMA0"⟩

end Setting

/-! ## What the start meets and comes to -/

/-- The file at a path, the exceptions of the logger and of the client of the library,
the answer of the broker, what the Modbus server and the serial port meet, and the
conversions of `Env`. -/
structure World where
  file : String → Option (List Byte)
  logger : List Byte → Option String
  client : String → String → Option String
  broker : HpMqttPub.Broker
  server : StartEnv
  serial : List Byte → PortEnv
  stof : List Byte → Option Binary32
  wild : Binary32 → BitVec 32

/-- The exceptions that leave `main`. -/
inductive Uncaught where
  | logger (what : String)
  | client (what : String)
  | stoi (e : Strtol.StoiError)
  | serialPort (what : String)
  deriving DecidableEq, Repr

/-- What is there when the loop begins. -/
structure Running where
  env : Env
  publisher : HpMqttPub
  options : HpMqttPub.ConnectOptions
  port : BitVec 32
  tty : Termios
  state : State

inductive Outcome where
  | returned (status : ℕ) (text : String)
  | terminated (e : Uncaught)
  | looping (r : Running)

/-! ## The start -/

/-- A C string ends at its first zero byte. -/
def cStr (s : List Byte) : List Byte := s.takeWhile (· ≠ 0)

/-- The publisher, with its credentials and its last will. -/
def makePublisher (w : World) (cfg : Config) : Except String HpMqttPub :=
  let brokerAddress := text (Setting.brokerAddress.read cfg)
  let clientId := text (Setting.clientId.read cfg)
  match HpMqttPub.new (w.client brokerAddress clientId) brokerAddress clientId
      (text (Setting.site.read cfg)) (text (Setting.deviceId.read cfg)) with
  | .error what => .error what
  | .ok publisher =>
      let publisher := publisher.setCrendetials (text (Setting.userName.read cfg))
        (text (Setting.password.read cfg))
      .ok (publisher.setLastWill (text (Setting.willTopic.read cfg))
        (text (Setting.willMessage.read cfg)))

/-- From the logger on. -/
def startConfigured (w : World) (cfg : Config) : List Event × Outcome :=
  match w.logger (Setting.logPath.read cfg) with
  | some what => ([], .terminated (.logger what))
  | none =>
      let log := [.log .info "Logger initialized"]
      match makePublisher w cfg with
      | .error what => (log, .terminated (.client what))
      | .ok publisher =>
          let (options, connected) := publisher.connect w.broker
          let log := log ++
            [if connected then .log .info s!"Connected to MQTT broker at {publisher.brokerAddress}"
              else .log .error
                s!"MQTT: Failed to connect to MQTT broker at {publisher.brokerAddress}",
             .log .info "Initializing Modbus server..."]
          match Strtol.stoi10 (Setting.port.read cfg) with
          | .error e => (log, .terminated (.stoi e))
          | .ok n =>
              let port := BitVec.ofInt 32 n
              let (server, serverLog) := startServer port w.server
              let log := log ++ serverLog
              let path := cStr (Setting.serialPort.read cfg)
              match openPort (w.serial path) (text path) with
              | .error what =>
                  (log ++ [.log .error s!"SerialPort: Failed to open serial port: {what}"],
                    .terminated (.serialPort what))
              | .ok tty =>
                  let env : Env :=
                    { stof := w.stof, wild := w.wild, site := publisher.site,
                      deviceId := publisher.deviceId }
                  let (s, initLog) := initRegisters env server
                  (log ++ initLog,
                    .looping
                      { env := env
                        publisher := publisher
                        options := options
                        port := port
                        tty := tty
                        state := s })

/-- `main` up to its loop. -/
def startUp (w : World) (name : String) (args : List String) : List Event × Outcome :=
  match commandLine defaultConfigFilePath args with
  | .missingValue => ([], .returned 1 "Missing value for --config\n")
  | .help => ([], .returned 0 s!"Usage: {name} [--config <config_file>]\n")
  | .run configFilePath =>
      match ({} : Config).loadFromFile configFilePath (w.file configFilePath) with
      | (_, .error err) => ([], .returned 1 s!"Config: Failed to load config file: {err}\n")
      | (cfg, .ok ()) => startConfigured w cfg

/-- `main`, over the reads of the serial port. -/
def main (w : World) (name : String) (args : List String)
    (attempts : ℕ → ℕ → HpMqttPub.Attempt) (reads : List ReadResult) : List Event × Outcome :=
  match startUp w name args with
  | (log, .looping r) =>
      let (s, events) := loop r.env attempts reads.length 0 r.state reads
      (log ++ events, .looping { r with state := s })
  | ended => ended

end Hanport.Main
