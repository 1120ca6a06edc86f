import Toutates.Basis.Interleaving
import Toutates.Basis.Lockstep
import Toutates.Basis.Solo
import Toutates.Basis.Blocks
import Toutates.Basis.Pieces
import Toutates.Basis.Frontier
import Toutates.Basis.Notify
import Toutates.Basis.Overwrite
import Toutates.Basis.SortedMap
import Toutates.Basis.Table
import Toutates.Tensor.Element
import Toutates.Tensor.Batched
import Toutates.Ring.Index
import Toutates.Ring.State
import Toutates.Ring.Thread
import Toutates.Ring.Machine
import Toutates.Ring.Sequential
import Toutates.Ring.Transition
import Toutates.Ring.Life
import Toutates.Ring.Window
import Toutates.Ring.Occupancy
import Toutates.Ring.Retirement
import Toutates.Ring.Completion
import Toutates.Ring.Solo
import Toutates.Ring.Idle
import Toutates.Basis.Spans
import Toutates.Ring.Rows
import Toutates.Ring.Cells
import Toutates.Ring.Panics
import Toutates.Ring.Wakeups
import Toutates.Ring.Ledger
import Toutates.Ring.Opening
import Toutates.Ring.Response
import Toutates.Ring.Lifecycle
import Toutates.Ring.Called
import Toutates.Ring.Permits
import Toutates.Ring.ExactlyOnce
import Toutates.Tensor.Scatter
import Toutates.Grpc.Infer
import Toutates.Tensor.Isolation
import Toutates.Tensor.Rows
import Toutates.Grpc.Isolation
import Toutates.Grpc.Binding
import Toutates.Ring.Failure
import Toutates.Ring.Answers
import Toutates.Ring.BackPressure
import Toutates.Ring.Split
import Toutates.Grpc.Response
import Toutates.Ring.Wrapping
import Toutates.Ring.WrapAround
import Toutates.Ring.Gather
import Toutates.Ring.Crash
import Toutates.Grpc.Crash
import Toutates.Host.Topology
import Toutates.Host.Pairing
import Toutates.Host.Capacity
import Toutates.Basis.Text
import Toutates.Basis.Decimal
import Toutates.Basis.Fallible
import Toutates.Host.CpuList
import Toutates.Host.SysFs
import Toutates.Host.Roles
import Toutates.Tensor.Combine
import Toutates.Runtime.Shapes
import Toutates.Repository.Loader
import Toutates.Repository.Discovery
import Toutates.Repository.Interchange
import Toutates.Ring.Warm
import Toutates.Ring.Served
import Toutates.Ring.Stored
import Toutates.Ring.Serving
import Toutates.Basis.Census
import Toutates.Ring.Metrics
import Toutates.Basis.Channel
import Toutates.Basis.RoundRobin
import Toutates.Runtime.Startup
import Toutates.Runtime.Loading
import Toutates.Runtime.Outcome
import Toutates.Runtime.Server
import Toutates.Grpc.Server
import Toutates.Ring.Awaited
import Toutates.Ring.Progress
import Toutates.Ring.Deadline
import Toutates.Basis.Dropped
import Toutates.Ring.Cancelled
import Toutates.Basis.WorkStream
import Toutates.Runtime.GpuBound
