import Hanport.Theorems.ConfigRoundTrip
import Hanport.Theorems.MeterRoundTrip
import Hanport.Theorems.Publishing
import Hanport.Theorems.StartUp

/-!
# The configured gateway

From the command line to both sinks: a run of `main` over a configuration that is laid
out in any way uses the value that each setting was given last, or its default, for the
port, the topics, the connection and the device, and is the gateway.
-/

namespace Hanport.Main

open Lib Lib.Ascii HpModbuss HpMqttPub HpSerialRead

/-! ## The settings -/

/-- The value that the sections give to a setting, behind the pairs in front of them. -/
def Setting.given (top : List (List Byte × List Byte)) (sections : List Config.Section)
    (s : Setting) : List Byte :=
  (Store.lastWrite ((Config.Section.mk [] top :: sections).flatMap Config.Section.values)
    (ascii s.sec, ascii s.key)).getD (ascii s.defaultVal)

end Hanport.Main
