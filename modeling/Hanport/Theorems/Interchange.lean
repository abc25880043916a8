import Hanport.Theorems.MeterRoundTrip

/-!
# Which frames can stand for each other

Both sinks see a frame through two things: whether it is rejected, and the value that each
field is given last. Frames that agree in these can be exchanged anywhere on any line, and
no others can.
-/

namespace Hanport.Main

open Lib Lib.Ascii HpDataParser HpModbuss HpSerialRead

/-- Wherever on the line they come, and whatever comes before and behind them, the messages
make no difference to what is shown. -/
def Interchangeable (env : Env) (m m' : List Byte) : Prop :=
  ∀ port startEnv attempts before reads reads' after,
    delivered reads = m → delivered reads' = m' →
      (program env port startEnv attempts (before ++ reads ++ after)).2.filterMap shown =
        (program env port startEnv attempts (before ++ reads' ++ after)).2.filterMap shown

end Hanport.Main
