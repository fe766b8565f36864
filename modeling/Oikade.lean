import Oikade.Lib.Machine
import Oikade.Lib.Broadcast
import Oikade.Lib.Duration
import Oikade.Lib.Float64
import Oikade.Lib.Rounding
import Oikade.Lib.Accuracy
import Oikade.Lib.Text
import Oikade.Lib.Fallible
import Oikade.Lib.Radix
import Oikade.Lib.Json
import Oikade.Lib.Lines
import Oikade.Lib.Utf8
import Oikade.Lib.Fair
import Oikade.Lib.Progress
import Oikade.Core.Model
import Oikade.Core.Runtime
import Oikade.Core.Step
import Oikade.Core.Move
import Oikade.Core.Invariant
import Oikade.Core.Drain
import Oikade.Core.Failure
import Oikade.Core.Restore
import Oikade.Core.Streams
import Oikade.Core.Linear
import Oikade.Core.Durable
import Oikade.Core.Ledger
import Oikade.Core.Snapshot
import Oikade.Core.Topology
import Oikade.Core.Memory
import Oikade.Core.Sessions
import Oikade.Session.Model
import Oikade.Session.Known
import Oikade.Session.Live
import Oikade.Session.Alike
import Oikade.Session.Stepped
import Oikade.Codec.Strict
import Oikade.Codec.Wire
import Oikade.Codec.Frames
import Oikade.Storage.Bucket
import Oikade.Storage.Open
import Oikade.Storage.DeviceState
import Oikade.Adapter.Api
import Oikade.Adapter.Sync
import Oikade.Adapter.Validate
import Oikade.Adapter.Worker
import Oikade.Adapter.Replica
import Oikade.Adapter.State
import Oikade.Supervisor.Model
import Oikade.Supervisor.Backoff
import Oikade.Supervisor.Lifecycle
import Oikade.Supervisor.Quarantine
import Oikade.Supervisor.Handle
import Oikade.Supervisor.Claim
import Oikade.Supervisor.Children
import Oikade.Supervisor.LogReader
import Oikade.Adapter.Instance
import Oikade.Adapter.Alike
import Oikade.Adapter.Output
import Oikade.Admin.Server
import Oikade.Admin.Secrecy
import Oikade.Admin.Events
import Oikade.Config.Model
import Oikade.Config.Scalar
import Oikade.Config.Yaml
import Oikade.Runtime.VirtualIntegration
import Oikade.Runtime.Launch
import Oikade.Runtime.Daemon
import Oikade.Plugin.Convert
import Oikade.Plugin.Instance
import Oikade.Matter.Projection
import Oikade.Matter.Refs
import Oikade.Matter.Endpoints
import Oikade.Matter.Diagnostics
import Oikade.Matter.Bridge
import Oikade.Matter.Commands
import Oikade.Matter.Effect
import Oikade.Matter.Level
import Oikade.Matter.Node
import Oikade.Matter.Fabric
import Oikade.Matter.Commissioning
import Oikade.Matter.Window
import Oikade.Matter.Options
import Oikade.Rpc.Model
import Oikade.Rpc.Calls
import Oikade.Rpc.Commands
import Oikade.Rpc.Moves
import Oikade.Rpc.Progress
import Oikade.Rpc.Correlation
