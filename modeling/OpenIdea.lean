import OpenIdea.Lib.MixedRadix
import OpenIdea.Timer.Wheel
import OpenIdea.Timer.Accuracy
import OpenIdea.Lib.Runs
import OpenIdea.Timer.Clock
import OpenIdea.Lib.LinkedIndex
import OpenIdea.Lib.OrdMap
import OpenIdea.Lib.Places
import OpenIdea.Rpc.WaitTable
import OpenIdea.Rpc.TableInvariant
import OpenIdea.Rpc.TableLoops
import OpenIdea.Lib.LittleEndian
import OpenIdea.Rpc.CallSystem
import OpenIdea.Rpc.CallRuns
import OpenIdea.Rpc.Completion
import OpenIdea.Rpc.FailCalls
import OpenIdea.Rpc.Sweep
import OpenIdea.Timer.Periodic
import OpenIdea.Rpc.Sending
import OpenIdea.Rpc.SessionClose
import OpenIdea.Codec.Schema
import OpenIdea.Codec.Stream
import OpenIdea.Codec.Read
import OpenIdea.Codec.Totality
import OpenIdea.Codec.Write
import OpenIdea.Codec.Payload
import OpenIdea.Codec.RoundTrip
import OpenIdea.Codec.Generator
import OpenIdea.Net.Framing
import OpenIdea.Lib.Expiring
import OpenIdea.Registry.Store
import OpenIdea.Registry.Server
import OpenIdea.Registry.Ownership
import OpenIdea.Registry.Withdrawal
import OpenIdea.Registry.Snapshot
import OpenIdea.Lib.InOrder
import OpenIdea.Registry.Client
import OpenIdea.Registry.ClientQueues
import OpenIdea.Registry.ClientReplies
import OpenIdea.Lib.StreamParser
import OpenIdea.Redis.Client
import OpenIdea.Redis.ClientCalls
import OpenIdea.Redis.ClientReplies
import OpenIdea.Redis.Command
import OpenIdea.Redis.AsyncFilter
import OpenIdea.Redis.Proxy
import OpenIdea.Redis.ProxyReplies
import OpenIdea.Redis.ProxyTurns
import OpenIdea.Lib.Scanner
import OpenIdea.Redis.CommandStream
import OpenIdea.Redis.ProxyStream
import OpenIdea.Redis.ProxyReceive
import OpenIdea.Coro.TaskScope
import OpenIdea.Coro.TaskWaiters
import OpenIdea.Coro.WaiterInvariant
import OpenIdea.Coro.WhenAllSteps
import OpenIdea.Coro.Awaiting
import OpenIdea.Coro.WhenAll
import OpenIdea.Coro.TaskFrames
import OpenIdea.Coro.FrameReferences
import OpenIdea.Coro.FrameErrors
import OpenIdea.Http.Response
import OpenIdea.Http.Segments
import OpenIdea.Http.Client
import OpenIdea.Http.ClientInvariant
import OpenIdea.Http.ClientCalls
import OpenIdea.Http.ClientSteps
import OpenIdea.Http.ClientReplies
import OpenIdea.Rpc.RoutePool
import OpenIdea.Net.SessionTable
import OpenIdea.Base.Bytes
import OpenIdea.Net.SendQueue
import OpenIdea.Net.UdpPeers
import OpenIdea.Net.Connect
import OpenIdea.Rpc.HoldList
import OpenIdea.Rpc.ClientManager
import OpenIdea.Rpc.ClientSteps
import OpenIdea.Rpc.HeldCalls
import OpenIdea.Lib.Before
import OpenIdea.Rpc.SubmitOrder
import OpenIdea.Rpc.PendingData
import OpenIdea.Rpc.RouteConnection
import OpenIdea.Rpc.RouteSteps
import OpenIdea.Rpc.RouteDial
import OpenIdea.Rpc.RouteCalls
import OpenIdea.Rpc.RouteRuns
import OpenIdea.Net.EventMask
import OpenIdea.Timer.Drift
import OpenIdea.Net.FrameRounds
import OpenIdea.Net.SlowDrip
import OpenIdea.Net.Datagrams
import OpenIdea.Codec.Headers
import OpenIdea.Lib.Decimal
import OpenIdea.Redis.Replies
import OpenIdea.Codec.Json
import OpenIdea.Codec.JsonRoundTrip
import OpenIdea.Logd.Frames
import OpenIdea.Logd.Manager
import OpenIdea.Logd.Steps
import OpenIdea.Logd.Accounts
import OpenIdea.Logd.Backlog
import OpenIdea.Logd.Fairness
import OpenIdea.Logd.Written
import OpenIdea.Rpc.CallMany
import OpenIdea.Rpc.CallManySlots
import OpenIdea.Redis.Canonical
import OpenIdea.Registry.Address
import OpenIdea.Http.Head
import OpenIdea.Http.WholeResponse
import OpenIdea.Http.BodyLimit
import OpenIdea.Redis.TypedRead
import OpenIdea.Redis.TypedStore
import OpenIdea.Rpc.Admission
import OpenIdea.Rpc.Deliveries
import OpenIdea.Rpc.AwaiterGuard
import OpenIdea.Rpc.FinishRoute
import OpenIdea.Registry.ServiceTable
import OpenIdea.Base.ByteOps
import OpenIdea.Base.ByteStore
import OpenIdea.Lib.Calendar
import OpenIdea.Timer.Periods
import OpenIdea.Lib.StrictOrder
import OpenIdea.Lib.Fuel
import OpenIdea.Codec.KeyComparators
import OpenIdea.Codec.KeyOrder
