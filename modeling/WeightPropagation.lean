import WeightPropagation.Driver.Retention
import WeightPropagation.Driver.Leaks
import WeightPropagation.Driver.Scatter
import WeightPropagation.Driver.Alternation
import WeightPropagation.Driver.Contents
import WeightPropagation.Driver.Communicator
import WeightPropagation.Driver.Transfers
import WeightPropagation.Driver.Orphans
import WeightPropagation.Driver.Handshake
import WeightPropagation.Driver.Served
import WeightPropagation.Driver.Sizes
import WeightPropagation.Driver.Routing
import WeightPropagation.Driver.Releases
import WeightPropagation.Driver.FdServer
import WeightPropagation.Driver.Sweep
import WeightPropagation.Driver.Lengths
import WeightPropagation.Driver.Elements
import WeightPropagation.Driver.Loading
import WeightPropagation.Driver.Truncation
import WeightPropagation.Driver.Sockets
import WeightPropagation.Driver.KeyScheme
import WeightPropagation.Client.Stage
import WeightPropagation.Client.Notify
import WeightPropagation.Client.Context
import WeightPropagation.Client.Lifecycle
import WeightPropagation.Client.Holding
import WeightPropagation.Client.Persistence
import WeightPropagation.Operator.Shards
import WeightPropagation.Operator.Status
import WeightPropagation.Operator.Gate
import WeightPropagation.Operator.Discovery
import WeightPropagation.Operator.Pattern
import WeightPropagation.Operator.Fixpoint
import WeightPropagation.Operator.Ranks
import WeightPropagation.Plugin.Agreement
import WeightPropagation.Plugin.Isolation
import WeightPropagation.Sync.EndToEnd
import WeightPropagation.Sync.Topology
import WeightPropagation.Sync.Unpack
import WeightPropagation.Sync.Colocated
import WeightPropagation.Sync.Reading
import WeightPropagation.Sync.Delivery
import WeightPropagation.Sync.Progress
import WeightPropagation.Framework.Cursor
import WeightPropagation.Driver.Notifying
import WeightPropagation.Driver.Reaching
import WeightPropagation.Driver.Updates
import WeightPropagation.Driver.Threads
import WeightPropagation.Driver.Exclusion
import WeightPropagation.Driver.Races
import WeightPropagation.Driver.Serial
import WeightPropagation.Framework.Versioned
import WeightPropagation.Framework.Fields
import WeightPropagation.Plugin.Capacity
import WeightPropagation.Plugin.Publish
import WeightPropagation.Plugin.Admission
import WeightPropagation.Framework.Decimal
import WeightPropagation.Driver.GpuLine
