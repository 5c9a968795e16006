import Bius.Lib.Machine
import Bius.DataMapping
import Bius.Command
import Bius.CopyIn
import Bius.ExactlyOnce
import Bius.HostileList
import Bius.Lib.Dlist
import Bius.Lib.Ranges
import Bius.Lib.Threads
import Bius.MapLifetime
import Bius.ReadReply
import Bius.ReportZones
import Bius.Teardown
import Bius.TeardownLists
import Bius.TeardownPlaces
import Bius.TeardownRuns
import Bius.WritePointer
import Bius.ZoneAccounting
import Bius.ZoneAppends
import Bius.Backends
import Bius.BlockLayer
import Bius.DeviceRaces
import Bius.Lib.WaitQueue
import Bius.ListAppends
import Bius.ListDispatch
import Bius.Sending
import Bius.Wakeup
import Bius.WindowPresence
import Bius.WindowSecrecy
import Bius.CreateDevice
import Bius.HandleRequests
import Bius.HeaderCopy
import Bius.ResetAll
import Bius.Unmapping
import Bius.WindowMmap
import Bius.ZoneGeometry
import Bius.ZoneManagement
import Bius.ZonesRelay
import Bius.TeardownEffects
import Bius.TeardownLedger
import Bius.TeardownRelease
import Bius.TeardownZones
import Bius.Framing
import Bius.FramingRuns
import Bius.PayloadStream
import Bius.RamdiskStack
import Bius.TlbFlush
import Bius.RamdiskRuns
import Bius.ZoneStatuses
import Bius.ZonedRuns
import Bius.CopyRuns
import Bius.MappedDisk
import Bius.ProgramRuns
