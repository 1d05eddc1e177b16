import Ceell.Lib.Machine
import Ceell.Core.Types
import Ceell.Lib.CString
import Ceell.Lib.Csv
import Ceell.Lib.TokenLoop
import Ceell.Lib.Latch
import Ceell.Lib.SharedBuffer
import Ceell.Lib.SwapRemove
import Ceell.Lib.RingBuf
import Ceell.Lib.Collector
import Ceell.Network.Discovery
import Ceell.Network.Expiry
import Ceell.Core.HealthMonitor
import Ceell.Core.Severity
import Ceell.Core.MissedCount
import Ceell.Core.Lifecycle
import Ceell.Core.SafeState
import Ceell.Core.SafeStateAtomic
import Ceell.Lib.Serial
import Ceell.Core.SafeStateSerial
import Ceell.Core.Watchdog
import Ceell.Core.Timing
import Ceell.Core.TimingReport
import Ceell.Core.TimingBudget
import Ceell.Main
import Ceell.Core.HealthHistory
import Ceell.Recovery
import Ceell.Osal.Json
import Ceell.Osal.JsonReference
import Ceell.Osal.JsonTree
import Ceell.Osal.JsonTreeReference
import Ceell.Core.ConfigParser
import Ceell.Tools.GenConfigBin
import Ceell.Tools.Provision
import Ceell.Core.ServiceRegistry
import Ceell.Core.NamesCsv
import Ceell.Network.ServiceDiscovery
import Ceell.Network.Announcement
import Ceell.Network.Routing
import Ceell.Network.DiscoveryNet
import Ceell.Detection
import Ceell.Alarm
import Ceell.Malformed
import Ceell.Truncation
import Ceell.Network.Message
import Ceell.Network.Messaging
import Ceell.Lib.Progress
import Ceell.Network.Progress
import Ceell.Network.ResponsePath
import Ceell.Network.SendBuffer
import Ceell.Network.Client
import Ceell.Network.Deadline
import Ceell.Network.NameLimit
import Ceell.Network.MsgRedundancy
import Ceell.Lib.Window
import Ceell.Network.DualPath
import Ceell.Ota.Client
import Ceell.Ota.Download
import Ceell.Ota.Answers
import Ceell.Ota.Cycle
import Ceell.Ota.Thread
import Ceell.Network.EndToEnd
import Ceell.Ota.Image
import Ceell.Ota.VersionText
import Ceell.Ota.Manifest
import Ceell.Osal.JsonEscape
import Ceell.Network.Escapes
import Ceell.Network.Replies
import Ceell.Network.Mesh
import Ceell.Network.SendTime
import Ceell.Network.RequestBuffer
import Ceell.Network.Registrations
import Ceell.Core.ConfigFormats
import Ceell.Core.ServicesCsv
import Ceell.Boot
import Ceell.Ota.Service
import Ceell.Builtin
import Ceell.EchoTest
import Ceell.Fleet
