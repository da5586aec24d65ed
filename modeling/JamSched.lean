import JamSched.Machine.Run
import JamSched.Machine.Simulation
import JamSched.Machine.Fair
import JamSched.Core.Task
import JamSched.Core.Wheel
import JamSched.Core.Json
import JamSched.Core.Ballot
import JamSched.Core.SharedStack
import JamSched.Core.TakeLast
import JamSched.Core.SortedQueue
import JamSched.Core.Shares
import JamSched.Core.CString
import JamSched.Core.Cbor
import JamSched.Sync.Primitives
import JamSched.Sync.CondVar
import JamSched.Sync.Wakeup
import JamSched.Sync.Timer
import JamSched.Sync.Targets
import JamSched.Sync.Semaphore
import JamSched.Sync.SharedSpinMutex
import JamSched.Sync.NotifyOne
import JamSched.Sync.WaitUntil
import JamSched.Sync.Punctual
import JamSched.Sync.WaitGroup
import JamSched.Rib.Cancel
import JamSched.Rib.State
import JamSched.Rib.Dispatch
import JamSched.Rib.Step
import JamSched.Rib.CreateBatch
import JamSched.Rib.Queues
import JamSched.Rib.Placed
import JamSched.Rib.Control
import JamSched.Rib.Index
import JamSched.Rib.Cycle
import JamSched.Rib.Slots
import JamSched.Rib.Lifecycle
import JamSched.Rib.Deletion
import JamSched.Rib.CancelLoop
import JamSched.Rib.Conservation
import JamSched.Rib.Turn
import JamSched.Rib.VirtualClock
import JamSched.Rib.TreapOrder
import JamSched.Rib.Once
import JamSched.Rib.Expiry
import JamSched.Rib.CycleLength
import JamSched.Rib.RealTimeOrder
import JamSched.Rib.Decider
import JamSched.Rib.MatchCount
import JamSched.Rib.MatchOrder
import JamSched.Rib.MatchExact
import JamSched.Rib.MatchAllocation
import JamSched.Rib.MatchTimes
import JamSched.Rib.Stopping
import JamSched.Rib.ShutDown
import JamSched.Steal.Pool
import JamSched.Steal.Step
import JamSched.Steal.Ownership
import JamSched.Steal.Reach
import JamSched.Steal.Stealing
import JamSched.Steal.Sizes
import JamSched.Steal.Attached
import JamSched.Steal.EndTask
import JamSched.Steal.StealFrom
import JamSched.Steal.Scan
import JamSched.Remote.State
import JamSched.Remote.Handler
import JamSched.Remote.Attempt
import JamSched.Remote.Machine
import JamSched.Remote.Frame
import JamSched.Remote.Traffic
import JamSched.Remote.Cadence
import JamSched.Remote.Shape
import JamSched.Remote.Callbacks
import JamSched.Remote.EachConnection
import JamSched.Remote.Tables
import JamSched.Remote.Identifiers
import JamSched.Remote.Clear
import JamSched.Remote.Connections
import JamSched.Remote.SyncEach
import JamSched.Remote.Pending
import JamSched.Remote.Cleanup
import JamSched.Remote.SyncTimeout
import JamSched.Remote.Payload
import JamSched.Remote.Reply
import JamSched.Mqtt.Adapter
import JamSched.Mqtt.Deletion
import JamSched.Data.BroadcastVariable
import JamSched.Data.Broadcast
import JamSched.Data.LogManager
import JamSched.Data.Delivery
import JamSched.Exec.Promise
import JamSched.Exec.LocalNamed
import JamSched.Core.Bits
import JamSched.Core.Ticks
import JamSched.Time.Timeouts
import JamSched.Time.Slots
import JamSched.Time.Collect
import JamSched.Time.Linked
import JamSched.Time.Refinement
import JamSched.Time.Interval
import JamSched.Time.Expired
import JamSched.Time.TimerWheel
import JamSched.Time.Timely
import JamSched.Remote.ThreadPool
import JamSched.Remote.PoolProgress
import JamSched.Exec.Future
import JamSched.Exec.Gather
import JamSched.Exec.WhenAll
import JamSched.Exec.Timeout
import JamSched.Sync.Mutex
import JamSched.Sync.Channel
import JamSched.Sync.ChannelWakeup
