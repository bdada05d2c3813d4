import Hwio.Library.Memory
import Hwio.Wire
import Hwio.Server.Poll
import Hwio.Server.ReplyFrame
import Hwio.Server.Steps
import Hwio.Server.Requests
import Hwio.Server.Registration
import Hwio.Server.ReplyBounds
import Hwio.Server.OwnBytes
import Hwio.Library.History
import Hwio.Server.Isolation
import Hwio.Library.Interning
import Hwio.Server.DeviceIds
import Hwio.Library.Slots
import Hwio.Server.Clients
import Hwio.Server.Passes
import Hwio.Library.Framing
import Hwio.Server.Frames
import Hwio.Server.Reassembly
import Hwio.Server.Leftovers
import Hwio.Library.Registry
import Hwio.Server.Plugins
import Hwio.Server.LaterFrames
import Hwio.Server.Answers
import Hwio.Server.Rejections
import Hwio.Server.FullBuffer
import Hwio.Server.Attachments
import Hwio.Server.Containment
import Hwio.Device.IhwioDev
import Hwio.Device.Mmap
import Hwio.Server.Windows
import Hwio.Bus.CompSpec
import Hwio.Library.DirTree
import Hwio.Library.Iteration
import Hwio.Bus.Devicetree
import Hwio.Bus.Discovery
import Hwio.Client.Connection
import Hwio.Server.Exchanges
import Hwio.Client.Joint
import Hwio.Client.Matching
import Hwio.Client.RemoteCalls
import Hwio.Bus.Compatibility
import Hwio.Bus.Json
import Hwio.Bus.Matching
import Hwio.Bus.Names
import Hwio.Bus.Loading
import Hwio.Device.ByteMemory
import Hwio.Client.Receiving
import Hwio.Client.RequestSizes
import Hwio.Server.IssuedIds
import Hwio.Client.Returning
import Hwio.Client.Lookups
import Hwio.Device.Calls
import Hwio.Library.Runs
import Hwio.Client.RemoteDevice
import Hwio.Server.SoleClient
import Hwio.Client.RemoteAccess
import Hwio.Bus.CompatStrings
import Hwio.Client.Address
import Hwio.Device.Window
import Hwio.Device.Attaching
import Hwio.Client.QueryStrings
import Hwio.Client.ErrorTexts
import Hwio.Cli.ConsumedArgs
import Hwio.Cli.Init
import Hwio.Library.RangeFor
import Hwio.Server.Traversal
import Hwio.Server.Departures
import Hwio.Server.DeadRecords
import Hwio.Library.Refills
import Hwio.Server.Compaction
import Hwio.Bus.DeviceEquality
import Hwio.Client.Finding
import Hwio.Client.System
import Hwio.Client.Progress
import Hwio.Client.Separation
import Hwio.Server.Lifetime
import Hwio.Server.SlotReuse
import Hwio.Client.Lifecycle
import Hwio.Bus.Printing
import Hwio.Cli.Config
import Hwio.Library.Simulation
import Hwio.Server.Simulation
import Hwio.Bus.Served
import Hwio.Client.Described
import Hwio.Bus.Streams
import Hwio.Device.Releasing
import Hwio.Server.DeviceLives
