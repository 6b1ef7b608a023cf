import PyxelVM.Lib.Attempt
import PyxelVM.Lib.Bytes
import PyxelVM.Lib.Client
import PyxelVM.Lib.Decimal
import PyxelVM.Lib.Dict
import PyxelVM.Lib.Exec
import PyxelVM.Lib.FixedWindow
import PyxelVM.Lib.Hex
import PyxelVM.Lib.Json
import PyxelVM.Lib.JsonText
import PyxelVM.Lib.JsonRoundTrip
import PyxelVM.Lib.Order
import PyxelVM.Lib.Overlay
import PyxelVM.Lib.Post
import PyxelVM.Lib.PyJson
import PyxelVM.Lib.Ranking
import PyxelVM.Lib.Rectangles
import PyxelVM.Lib.Runs
import PyxelVM.Lib.StableQueue
import PyxelVM.Lib.Md5
import PyxelVM.Lib.Stream
import PyxelVM.Lib.Text
import PyxelVM.Lib.Trace
import PyxelVM.Vm.Machine
import PyxelVM.Vm.Bytes
import PyxelVM.Vm.Dicts
import PyxelVM.Vm.EightBit
import PyxelVM.Vm.Loading
import PyxelVM.Vm.Padding
import PyxelVM.Vm.Rows
import PyxelVM.Vm.Visits
import PyxelVM.Vm.Scheduling
import PyxelVM.Vm.Termination
import PyxelVM.Vm.Strict
import PyxelVM.Vm.Chain
import PyxelVM.Vm.Committed
import PyxelVM.Vm.VisualMemory
import PyxelVM.Vm.Confined
import PyxelVM.Vm.Challenge
import PyxelVM.Vm.Races
import PyxelVM.Spatial.Layout
import PyxelVM.Spatial.Frame
import PyxelVM.Spatial.Validation
import PyxelVM.Spatial.Compiler
import PyxelVM.Spatial.Payloads
import PyxelVM.Spatial.Writes
import PyxelVM.Spatial.Access
import PyxelVM.Spatial.Machine
import PyxelVM.Memory.Codec
import PyxelVM.Memory.PixelStore
import PyxelVM.Memory.SpatialStore
import PyxelVM.Memory.Handles
import PyxelVM.Memory.Failures
import PyxelVM.Memory.Agent
import PyxelVM.Memory.Migration
import PyxelVM.Memory.SharedRaster
import PyxelVM.Compiler.Simple
import PyxelVM.Compiler.Source
import PyxelVM.Compiler.Correct
import PyxelVM.Compiler.Operands
import PyxelVM.Compiler.Patterns
import PyxelVM.Compiler.Thought
import PyxelVM.Vm.Straight
import PyxelVM.Compiler.Warnings
import PyxelVM.Compiler.Reserved
import PyxelVM.Spatial.Embedding
import PyxelVM.Auth.Pipeline
import PyxelVM.Auth.Isolation
import PyxelVM.Auth.Replay
import PyxelVM.Auth.Sequences
import PyxelVM.Auth.Lockout
import PyxelVM.Auth.RateWindow
import PyxelVM.Auth.Mediation
import PyxelVM.Security.Session
import PyxelVM.Security.Verifier
import PyxelVM.Security.ReplayGuard
import PyxelVM.Security.Signer
import PyxelVM.Security.Rotation
import PyxelVM.Auth.Gate
import PyxelVM.Karma.System
import PyxelVM.Karma.Reads
import PyxelVM.Karma.Clusters
import PyxelVM.Karma.Kept
import PyxelVM.Karma.Standing
import PyxelVM.Karma.Eviction
import PyxelVM.Karma.Rosters
import PyxelVM.Karma.Ledger
import PyxelVM.Karma.Restart
import PyxelVM.Karma.Decay
import PyxelVM.Karma.Suspension
import PyxelVM.Karma.Interleaving
import PyxelVM.Karma.Observers
import PyxelVM.Karma.Election
import PyxelVM.Karma.Loading
import PyxelVM.Network.Consensus
import PyxelVM.Network.Workload
import PyxelVM.Network.Scheduler
import PyxelVM.Network.Framing
import PyxelVM.Network.Server
import PyxelVM.Network.Records
import PyxelVM.Network.Conversation
import PyxelVM.Network.NodeState
import PyxelVM.Network.Discovery
import PyxelVM.Network.FrameSync
import PyxelVM.Network.NodeSession
import PyxelVM.Network.Enrollment
import PyxelVM.Agent.Runtime
import PyxelVM.Agent.Session
