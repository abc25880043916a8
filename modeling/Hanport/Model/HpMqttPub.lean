import Hanport.Model.HpData

/-!
# `HpMqttPub`

Publishing the readings (hpMqttPub.cpp): one message for the heartbeat and one
for each measured field, each below the base topic with two decimals. What an
attempt meets is given; `publish` turns each failure into `false`, so no failure
keeps the later fields from being attempted. What the broker answers to the
connection is given as well, and the output on the standard streams is not modelled.
-/

namespace Hanport

open Lib

/-- The attributes of the client. -/
structure HpMqttPub where
  brokerAddress : String
  clientId : String
  username : String := ""
  password : String := ""
  willTopic : String := ""
  willMessage : String := ""
  site : String
  deviceId : String
  hasCredentials : Bool := false
  hasWill : Bool := false
  deriving DecidableEq, Repr

namespace HpMqttPub

/-! ## The client -/

/-- The constructor. The client of the library can throw, with this text. -/
def new (client : Option String) (brokerAddress clientId site deviceId : String) :
    Except String HpMqttPub :=
  match client with
  | some what => .error what
  | none =>
      .ok { brokerAddress := brokerAddress, clientId := clientId, site := site,
            deviceId := deviceId }

def setCrendetials (self : HpMqttPub) (username password : String) : HpMqttPub :=
  { self with username := username, password := password, hasCredentials := true }

def setLastWill (self : HpMqttPub) (topic message : String) : HpMqttPub :=
  { self with willTopic := topic, willMessage := message, hasWill := true }

structure Will where
  topic : String
  payload : String
  qos : ℕ
  retained : Bool
  deriving DecidableEq, Repr

structure ConnectOptions where
  keepAliveInterval : ℕ
  cleanSession : Bool
  automaticReconnect : Bool
  credentials : Option (String × String)
  will : Option Will
  deriving DecidableEq, Repr

/-- What the connection meets. -/
inductive Broker where
  | accepts
  | mqttException
  deriving DecidableEq, Repr

/-- `connect`: the options of the call, and its result. -/
def connect (self : HpMqttPub) (broker : Broker) : ConnectOptions × Bool :=
  ({ keepAliveInterval := 60
     cleanSession := true
     automaticReconnect := true
     credentials := if self.hasCredentials then some (self.username, self.password) else none
     will :=
       if self.hasWill then some ⟨self.willTopic, self.willMessage, 1, true⟩ else none },
   match broker with
   | .accepts => true
   -- caught in `connect`
   | .mqttException => false)

/-! ## Publishing -/

/-- What one attempt to publish meets. -/
inductive Attempt where
  | notConnected
  | mqttException
  | delivered
  deriving DecidableEq, Repr

/-- A message handed to `publish`. -/
structure Message where
  topic : String
  payload : String
  qos : ℕ
  deriving DecidableEq, Repr

/-- `publish` -/
def publish (attempt : Attempt) : Bool :=
  match attempt with
  | .notConnected => false
  | .mqttException => false
  | .delivered => true

/-- The message of `publishFloat`. -/
def floatMessage (topic : String) (value : Binary32) : Message :=
  ⟨topic, value.fixed2, 1⟩

/-- The topics of `publishIndividualFields` below the base topic, in their
order, with the value of each; the heartbeat is converted to `float`. -/
def individualFields (data : HpData) : List (String × Binary32) :=
  [("/timestamp", Binary32.ofInt data.heartbeat.toInt),
   -- energy
   ("/energy/active_import_total", data.activeEnergyImportTotal),
   ("/energy/active_export_total", data.activeEnergyExportTotal),
   ("/energy/reactive_import_total", data.reactiveEnergyImportTotal),
   ("/energy/reactive_export_total", data.reactiveEnergyExportTotal),
   -- power
   ("/power/active_import", data.activePowerImport),
   ("/power/active_export", data.activePowerExport),
   ("/power/reactive_import", data.reactivePowerImport),
   ("/power/reactive_export", data.reactivePowerExport),
   -- L1
   ("/l1/active_power_import", data.l1ActivePowerImport),
   ("/l1/active_power_export", data.l1ActivePowerExport),
   ("/l1/reactive_power_import", data.l1ReactivePowerImport),
   ("/l1/reactive_power_export", data.l1ReactivePowerExport),
   ("/l1/voltage_rms", data.l1VoltageRms),
   ("/l1/current_rms", data.l1CurrentRms),
   -- L2
   ("/l2/active_power_import", data.l2ActivePowerImport),
   ("/l2/active_power_export", data.l2ActivePowerExport),
   ("/l2/reactive_power_import", data.l2ReactivePowerImport),
   ("/l2/reactive_power_export", data.l2ReactivePowerExport),
   ("/l2/voltage_rms", data.l2VoltageRms),
   ("/l2/current_rms", data.l2CurrentRms),
   -- L3
   ("/l3/active_power_import", data.l3ActivePowerImport),
   ("/l3/active_power_export", data.l3ActivePowerExport),
   ("/l3/reactive_power_import", data.l3ReactivePowerImport),
   ("/l3/reactive_power_export", data.l3ReactivePowerExport),
   ("/l3/voltage_rms", data.l3VoltageRms),
   ("/l3/current_rms", data.l3CurrentRms)]

/-- `allSuccess &= publishFloat(...)` along the fields, from index `i`: the
messages attempted and the final `allSuccess`. -/
def publishFields (attempts : ℕ → Attempt) (baseTopic : String) :
    ℕ → Bool → List (String × Binary32) → List Message × Bool
  | _, allSuccess, [] => ([], allSuccess)
  | i, allSuccess, (topic, value) :: fields =>
      let (messages, success) :=
        publishFields attempts baseTopic (i + 1) (allSuccess && publish (attempts i)) fields
      (floatMessage (baseTopic ++ topic) value :: messages, success)

/-- `publishIndividualFields` -/
def publishIndividualFields (attempts : ℕ → Attempt) (data : HpData) (baseTopic : String) :
    List Message × Bool :=
  publishFields attempts baseTopic 0 true (individualFields data)

/-- `publishAllData` with a site and a device. -/
def publishAllData (attempts : ℕ → Attempt) (data : HpData) (site deviceId : String) :
    List Message × Bool :=
  publishIndividualFields attempts data (site ++ "/" ++ deviceId)

/-- The messages of the fields below a base topic. -/
def fieldMessages (baseTopic : String) (fields : List (String × Binary32)) : List Message :=
  fields.map fun p => floatMessage (baseTopic ++ p.1) p.2

/-- Every field is attempted, whatever the attempts before it met, and
`allSuccess` is whether all were delivered. -/
theorem publishFields_eq (attempts : ℕ → Attempt) (baseTopic : String) (i : ℕ)
    (allSuccess : Bool) (fields : List (String × Binary32)) :
    publishFields attempts baseTopic i allSuccess fields =
      (fieldMessages baseTopic fields,
        allSuccess && (List.range fields.length).all fun k => publish (attempts (i + k))) := by
  induction fields generalizing i allSuccess with
  | nil => simp [publishFields, fieldMessages]
  | cons p fields ih =>
      rw [publishFields, ih]
      simp [fieldMessages, List.range_succ_eq_map, Function.comp_def, Bool.and_assoc,
        Nat.add_assoc, Nat.add_comm 1]

end HpMqttPub

end Hanport
