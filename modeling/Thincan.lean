import Thincan.FileTransfer.ReceiverEquivalence
import Thincan.FileTransfer.Agreement
import Thincan.FileTransfer.CommitCount
import Thincan.FileTransfer.Window
import Thincan.Process.Chunking
import Thincan.FileTransfer.LossyLink
import Thincan.Bus.Mailbox
import Thincan.Bus.Interface
import Thincan.Bus.Delivery
import Thincan.Bus.Isolation
import Thincan.FileTransfer.Lossless
import Thincan.Bus.Wakeup
import Thincan.Capnp.Segment
import Thincan.FileTransfer.Codec
import Thincan.FileTransfer.Concurrent
import Thincan.Queue.Common
import Thincan.Queue.Tokio
import Thincan.Queue.Pairing
import Thincan.Queue.Embassy
import Thincan.Queue.Correlation
import Thincan.Queue.Relay
import Thincan.Queue.Endpoint
import Thincan.Process.Framing
import Thincan.UnixSocket.Wire
import Thincan.UnixSocket.RoundTrip
import Thincan.UnixSocket.Server
import Thincan.UnixSocket.Broadcast
import Thincan.UnixSocket.Filters
import Thincan.UnixSocket.Client
import Thincan.UnixSocket.Receive
import Thincan.UnixSocket.Numbering
import Thincan.UnixSocket.Answers
import Thincan.UnixSocket.System
import Thincan.UnixSocket.Acknowledge
import Thincan.Process.Slice
import Thincan.UnixSocket.Buffer
import Thincan.SocketCan.Filters
import Thincan.FileTransfer.SendWork
import Thincan.FileTransfer.SendFaults
import Thincan.FileTransfer.ChunkPromise
import Thincan.UnixSocket.Incremental
import Thincan.UnixSocket.Boundary
import Thincan.UnixSocket.Readiness
import Thincan.UnixSocket.Narrowing
import Thincan.UnixSocket.Registry
import Thincan.UnixSocket.RegistrySystem
import Thincan.EmbassyStm32.Filters
import Thincan.Bus.Maplet
import Thincan.Bus.BoundedList
import Thincan.IsoTp.Separation
import Thincan.IsoTp.Receive
import Thincan.FileTransfer.TransferIds
import Thincan.Bus.Transmit
import Thincan.Bus.Pump
import Thincan.Bus.Stack
import Thincan.FileTransfer.OverBus
import Thincan.FileTransfer.MemoryStore
import Thincan.IsoTp.Send
import Thincan.IsoTp.Network
import Thincan.SocketCan.Blocking
import Thincan.EmbassyStm32.Fdcan
import Thincan.FilterConfig
