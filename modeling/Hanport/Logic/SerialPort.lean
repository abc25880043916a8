import Hanport.Lib.BitField
import Hanport.Model.HpSerialRead

/-!
# The attributes of the serial port

What `setupPort` makes of the attributes it finds: 115200 baud in both directions, eight
data bits, one stop bit, no parity, no flow control, nothing translated, taken for a signal
or kept for a line, a read as soon as there is a byte; and all else as it was.
-/

namespace Hanport.HpSerialRead

open Lib Lib.Ascii Lib.BitField

/-- The attributes that `setupPort` sets. -/
def setTty (tty : Termios) : Termios :=
  cfsetispeed (hpSetupCc (hpSetupIflag (hpSetupLflag (hpSetupCflag tty)))) b115200

end Hanport.HpSerialRead
