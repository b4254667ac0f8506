import HktBase.Library.SparseMap
import HktBase.Library.Lookback
import HktBase.Library.LittleEndian
import HktBase.Library.Varint
import HktBase.Library.WireFormat
import HktBase.Library.TopicLog
import HktBase.Library.Run
import HktBase.Library.SecondaryIndex
import HktBase.Library.Interning
import HktBase.Library.Broker
import HktBase.Library.PolledTimer
import HktBase.Library.Workload
import HktBase.Library.Multicast
import HktBase.CustomNet.Header
import HktBase.CustomNet.Reliability
import HktBase.CustomNet.Server
import HktBase.CustomNet.Client
import HktBase.CustomNet.Window
import HktBase.CustomNet.WindowUpdates
import HktBase.CustomNet.AckLists
import HktBase.CustomNet.ClientMoves
import HktBase.CustomNet.ServerMoves
import HktBase.CustomNet.Groups
import HktBase.CustomNet.Resend
import HktBase.CustomNet.Life
import HktBase.CustomNet.Pending
import HktBase.CustomNet.Received
import HktBase.CustomNet.Handshake
import HktBase.CustomNet.StuckWindow
import HktBase.CustomNet.GroupCommands
import HktBase.CustomNet.Sessions
import HktBase.CustomNet.Link
import HktBase.CustomNet.Delivery
import HktBase.CustomNet.Attempts
import HktBase.CustomNet.Retries
import HktBase.CustomNet.HealthyLink
import HktBase.CustomNet.Isolation
import HktBase.CustomNet.Sender
import HktBase.CustomNet.Transmissions
import HktBase.CustomNet.Payloads
import HktBase.CustomNet.Socket
import HktBase.CustomNet.ServerSocket
import HktBase.CustomNet.Disconnects
import HktBase.CustomNet.Sweeps
import HktBase.CustomNet.Broadcast
import HktBase.CustomNet.Publishing
import HktBase.CustomNet.ClientConversation
import HktBase.CustomNet.ServerConversation
import HktBase.CustomNet.Settlement
import HktBase.Base.Graph
import HktBase.Base.TagIndex
import HktBase.Base.References
import HktBase.Base.Subjects
import HktBase.Base.BehaviorFactory
import HktBase.Base.FlagmentWire
import HktBase.Base.EventBus
import HktBase.Grpc.Messages
import HktBase.Grpc.CodedStream
import HktBase.Grpc.Generated
import HktBase.Grpc.WireMessages
import HktBase.Grpc.Built
import HktBase.Grpc.Serialization
import HktBase.Grpc.StreamCall
import HktBase.Grpc.Session
import HktBase.Grpc.Service
import HktBase.Grpc.Registry
import HktBase.Grpc.UnaryCall
import HktBase.Grpc.Listing
import HktBase.Grpc.GroupIsolation
import HktBase.Grpc.Workers
import HktBase.Grpc.WorkerSessions
import HktBase.Grpc.WorkerBroadcasts
import HktBase.Grpc.OneWorker
import HktBase.Grpc.UnaryService
import HktBase.Grpc.GroupLog
import HktBase.Grpc.Shutdown
import HktBase.Grpc.SyncSystem
import HktBase.Grpc.StreamDelivery
import HktBase.Grpc.CallDelivery
import HktBase.Grpc.ClientDrain
import HktBase.ENet.Manager
import HktBase.ENet.Groups
import HktBase.ENet.Starts
import HktBase.ENet.Lifetimes
