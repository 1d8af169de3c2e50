import RocketMQClient.Library.EventMachine
import RocketMQClient.Library.Pending
import RocketMQClient.Library.Slots
import RocketMQClient.Library.Await
import RocketMQClient.Library.LockOrder
import RocketMQClient.Library.Handshake
import RocketMQClient.Library.OrderedSet
import RocketMQClient.Library.SerialQueue
import RocketMQClient.Library.WaitTable
import RocketMQClient.Library.Watermark
import RocketMQClient.Library.StdSort
import RocketMQClient.Library.Updates
import RocketMQClient.Library.Joined
import RocketMQClient.Library.RoundRobin
import RocketMQClient.Library.CounterRing
import RocketMQClient.Library.KeyedWrites
import RocketMQClient.Library.Pattern
import RocketMQClient.Library.Text
import RocketMQClient.Library.BinaryRounding
import RocketMQClient.Library.TimeFormat
import RocketMQClient.Message
import RocketMQClient.ProcessQueue
import RocketMQClient.OffsetCommit
import RocketMQClient.FifoConsume
import RocketMQClient.FifoSafety
import RocketMQClient.FifoRedelivery
import RocketMQClient.StandardConsume
import RocketMQClient.StandardDispatch
import RocketMQClient.Quota
import RocketMQClient.BroadcastProgress
import RocketMQClient.Codec
import RocketMQClient.DecodedMessage
import RocketMQClient.RoundTrip
import RocketMQClient.UniqueId
import RocketMQClient.Rpc
import RocketMQClient.DeadLetter
import RocketMQClient.ReceiveMessage
import RocketMQClient.BrokerEndpoint
import RocketMQClient.PullCycle
import RocketMQClient.ReceiveCycle
import RocketMQClient.BackPressure
import RocketMQClient.Rebalance
import RocketMQClient.AddressChange
import RocketMQClient.PollingCycle
import RocketMQClient.PublishInfo
import RocketMQClient.CandidateQueues
import RocketMQClient.AssignmentScan
import RocketMQClient.QueueReconcile
import RocketMQClient.ServiceAddress
import RocketMQClient.Producer
import RocketMQClient.RetrySend
import RocketMQClient.AsyncSend
import RocketMQClient.QueueSelection
import RocketMQClient.RouteLookup
import RocketMQClient.RouteCache
import RocketMQClient.PublishRoute
import RocketMQClient.RpcAnswers
import RocketMQClient.RouteDecoding
import RocketMQClient.SyncWait
import RocketMQClient.Scheduler
import RocketMQClient.LifeCycle
import RocketMQClient.RateLimiter
import RocketMQClient.PermitDistribution
import RocketMQClient.RateLimiterRuns
import RocketMQClient.RateLimiterObserver
import RocketMQClient.Throttle
import RocketMQClient.StandardSettlement
import RocketMQClient.AccessPoint
import RocketMQClient.QueryAssignment
import RocketMQClient.SendErrorCode
import RocketMQClient.DiscoveryEndpoint
import RocketMQClient.NameServerDiscovery
import RocketMQClient.HexCodec
import RocketMQClient.Compression
import RocketMQClient.Validation
import RocketMQClient.Histogram
import RocketMQClient.Latency
import RocketMQClient.ExportClients
import RocketMQClient.SpanExport
import RocketMQClient.StsCredentials
import RocketMQClient.RpcClients
import RocketMQClient.EndpointHealth
import RocketMQClient.IsolationRelease
import RocketMQClient.CallbackPool
import RocketMQClient.PoolDeadlock
import RocketMQClient.Transactions
import RocketMQClient.Multiplexing
import RocketMQClient.AwaitCallbacks
import RocketMQClient.StandardProgress
import RocketMQClient.StandardLedger
import RocketMQClient.IdleExpiry
import RocketMQClient.ClientManagers
import RocketMQClient.Mutexes
import RocketMQClient.StartHandshakes
import RocketMQClient.NameServerFailover
import RocketMQClient.AdminServer
import RocketMQClient.ConsumeShutdown
