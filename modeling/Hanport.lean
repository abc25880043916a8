import Hanport.Theorems.Framing
import Hanport.Theorems.Telegram
import Hanport.Theorems.Parsing
import Hanport.Theorems.FailedParse
import Hanport.Theorems.Lifecycle
import Hanport.Theorems.Registers
import Hanport.Theorems.Snapshots
import Hanport.Theorems.Exposure
import Hanport.Theorems.Noninterference
import Hanport.Theorems.Reader
import Hanport.Theorems.Checksum
import Hanport.Theorems.ImageDecoding
import Hanport.Theorems.RegisterStore
import Hanport.Theorems.Watts
import Hanport.Theorems.OutOfRange
import Hanport.Theorems.LineSplit
import Hanport.Theorems.Replay
import Hanport.Theorems.Publishing
import Hanport.Theorems.ValueCut
import Hanport.Theorems.ConfigRoundTrip
import Hanport.Theorems.InlineComments
import Hanport.Theorems.Polling
import Hanport.Theorems.Numerals
import Hanport.Theorems.Gateway
import Hanport.Theorems.Subscriber
import Hanport.Theorems.Payload
import Hanport.Theorems.Interleaving
import Hanport.Theorems.Shutdown
import Hanport.Theorems.Sessions
import Hanport.Theorems.Served
import Hanport.Theorems.MeterRoundTrip
import Hanport.Theorems.Configured
import Hanport.Theorems.MeterToClient
import Hanport.Theorems.SeenHeartbeat
import Hanport.Theorems.Interchange
import Hanport.Theorems.Agreement
