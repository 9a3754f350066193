import Libatp.Base.Agenda
import Libatp.Loop.Order
import Libatp.Loop.Wakeup
import Libatp.Net.Stream
import Libatp.Pools.MemoryPool
import Libatp.Pools.SizeClass
import Libatp.Pools.Steps
import Libatp.Pools.Layout
import Libatp.Pools.Conservation
import Libatp.Pools.Reservations
import Libatp.Pools.Helper
import Libatp.Workers.Stranded
import Libatp.Wheel.Expiry
import Libatp.Base.Registry
import Libatp.Tcp.Server
import Libatp.Tcp.Table
import Libatp.Tcp.Owners
import Libatp.Tcp.Queues
import Libatp.Net.Interest
import Libatp.Net.Closing
import Libatp.Net.Posted
import Libatp.LoopPool.RoundRobin
import Libatp.LoopPool.Threads
import Libatp.LoopPool.Handshake
import Libatp.LoopPool.Stopping
import Libatp.LoopPool.Shutdown
import Libatp.LoopPool.Queues
import Libatp.Tcp.Readiness
import Libatp.Base.Bits
import Libatp.Base64.Base64
import Libatp.Base64.Encode
import Libatp.Base64.Decode
import Libatp.Pools.FirstFit
import Libatp.Pools.Growth
import Libatp.Pools.Reuse
import Libatp.Timer.CycleTimer
import Libatp.Timer.Silence
import Libatp.Base.Varint
import Libatp.Rpc.RpcMessage
import Libatp.Rpc.RpcChannel
import Libatp.Rpc.Segmentation
import Libatp.Tcp.Destruction
import Libatp.Buffer.Integers
import Libatp.Buffer.Shrinking
import Libatp.Buffer.Framing
import Libatp.Loop.Pending
import Libatp.Net.Reading
import Libatp.Workers.Counters
import Libatp.App.CurlEngine
import Libatp.App.RsaCrypto
import Libatp.App.SendHelper
import Libatp.Base64.Bounds
import Libatp.Wheel.Bounded
import Libatp.Buffer.Growing
import Libatp.Base.Progress
import Libatp.Workers.Teardown
import Libatp.App.Any
import Libatp.Loop.Draining
import Libatp.App.CurlThreads
import Libatp.Net.Relay
import Libatp.App.RsaRoundTrip
import Libatp.Timer.Lifetime
import Libatp.Rpc.Merging
import Libatp.Wheel.Callbacks
import Libatp.Base.Descriptors
import Libatp.Loop.Watchers
import Libatp.Base64.Accepted
import Libatp.LoopPool.Completion
import Libatp.Tcp.Settling
import Libatp.Tcp.Timeout
