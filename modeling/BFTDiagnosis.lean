import BFTDiagnosis.Lib.HashMap
import BFTDiagnosis.Lib.Word
import BFTDiagnosis.Lib.Run
import BFTDiagnosis.Lib.Quorum
import BFTDiagnosis.Lib.World
import BFTDiagnosis.Components.Behaviour
import BFTDiagnosis.Utils.Platform
import BFTDiagnosis.Utils.ThresholdBlsttc
import BFTDiagnosis.Pbft.Message
import BFTDiagnosis.Pbft.Log
import BFTDiagnosis.Pbft.Protocol
import BFTDiagnosis.Pbft.Steps
import BFTDiagnosis.Pbft.QuorumDistinct
import BFTDiagnosis.Pbft.LogIntegrity
import BFTDiagnosis.Pbft.Agreement
import BFTDiagnosis.Hotstuff.Common
import BFTDiagnosis.BasicHotstuff.Message
import BFTDiagnosis.BasicHotstuff.Log
import BFTDiagnosis.BasicHotstuff.Protocol
import BFTDiagnosis.BasicHotstuff.Steps
import BFTDiagnosis.BasicHotstuff.VoteCollection
import BFTDiagnosis.BasicHotstuff.VoteDiscipline
import BFTDiagnosis.BasicHotstuff.StateInvariant
import BFTDiagnosis.BasicHotstuff.Committee
import BFTDiagnosis.BasicHotstuff.Certificates
import BFTDiagnosis.BasicHotstuff.Agreement
import BFTDiagnosis.ChainHotstuff.Message
import BFTDiagnosis.ChainHotstuff.Log
import BFTDiagnosis.ChainHotstuff.Protocol
import BFTDiagnosis.ChainHotstuff.Steps
import BFTDiagnosis.ChainHotstuff.Certification
import BFTDiagnosis.ChainHotstuff.Network
import BFTDiagnosis.ChainHotstuff.Execution
import BFTDiagnosis.Hotstuff.LockSafety
import BFTDiagnosis.Pbft.Proposals
import BFTDiagnosis.Pbft.Completion
import BFTDiagnosis.Pbft.SlotIndependence
import BFTDiagnosis.Pbft.Checkpoints
import BFTDiagnosis.Pbft.Robustness
import BFTDiagnosis.Lib.Json
import BFTDiagnosis.Lib.JsonTree
import BFTDiagnosis.Pbft.Encoding
import BFTDiagnosis.PbftExecutor.Message
import BFTDiagnosis.PbftExecutor.NewView
import BFTDiagnosis.Analyzer.DataWarehouse
import BFTDiagnosis.Analyzer.Loops
import BFTDiagnosis.Analyzer.Steps
import BFTDiagnosis.Analyzer.Throughput
import BFTDiagnosis.Analyzer.Latency
import BFTDiagnosis.Analyzer.ScalabilityLatency
import BFTDiagnosis.Analyzer.Security
import BFTDiagnosis.Analyzer.Analyzer
import BFTDiagnosis.Analyzer.Isolation
import BFTDiagnosis.Analyzer.Redelivery
import BFTDiagnosis.Controller.Controller
import BFTDiagnosis.Controller.Steps
import BFTDiagnosis.Controller.Plans
import BFTDiagnosis.Controller.FieldPlans
import BFTDiagnosis.Controller.NextTest
import BFTDiagnosis.Controller.ResetBarrier
import BFTDiagnosis.Controller.Turns
import BFTDiagnosis.Controller.Crash
import BFTDiagnosis.Controller.Scalability
import BFTDiagnosis.Controller.ConfigurationBarrier
import BFTDiagnosis.Controller.Handshake
import BFTDiagnosis.Lib.Wire
import BFTDiagnosis.Network.Unicast
import BFTDiagnosis.HotstuffNode.Requests
import BFTDiagnosis.Lib.Notify
import BFTDiagnosis.Analyzer.Timers
import BFTDiagnosis.Components.ActuatorRuns
import BFTDiagnosis.Hotstuff.NewViews
import BFTDiagnosis.ChainHotstuff.VoteUniqueness
import BFTDiagnosis.Components.FaultInjection
import BFTDiagnosis.BasicHotstuff.FaultInjection
import BFTDiagnosis.ChainHotstuff.LockOrder
import BFTDiagnosis.Hotstuff.NodeTable
import BFTDiagnosis.BasicHotstuff.Robustness
import BFTDiagnosis.ChainHotstuff.Robustness
import BFTDiagnosis.Hotstuff.Crashes
import BFTDiagnosis.Components.Calls
import BFTDiagnosis.Lib.Answers
import BFTDiagnosis.Pbft.Reset
import BFTDiagnosis.Pbft.HiddenState
import BFTDiagnosis.Hotstuff.ViewTimers
import BFTDiagnosis.Hotstuff.Reset
import BFTDiagnosis.Protocols.Reset
import BFTDiagnosis.Pbft.Keys
import BFTDiagnosis.Pbft.NewView
import BFTDiagnosis.Pbft.LogLifetime
import BFTDiagnosis.Lib.Merkle
import BFTDiagnosis.Honeybadger.Message
import BFTDiagnosis.Honeybadger.Merkle
import BFTDiagnosis.Honeybadger.Network
import BFTDiagnosis.Honeybadger.Broadcast
import BFTDiagnosis.Honeybadger.Echoes
import BFTDiagnosis.Honeybadger.Delivery
import BFTDiagnosis.Honeybadger.BvBroadcast
import BFTDiagnosis.Honeybadger.BinaryAgreement
import BFTDiagnosis.Honeybadger.Epochs
import BFTDiagnosis.Honeybadger.EarlyMessages
import BFTDiagnosis.Honeybadger.Subset
import BFTDiagnosis.Honeybadger.MerkleProofs
import BFTDiagnosis.Hotstuff.LeaderRotation
import BFTDiagnosis.Analyzer.CrashSets
import BFTDiagnosis.Utils.FieldPaths
import BFTDiagnosis.BasicHotstuff.ForgedMessages
import BFTDiagnosis.NonAuthPbft.Protocol
import BFTDiagnosis.NonAuthPbft.TakenRequests
import BFTDiagnosis.Components.RequestBuffer
import BFTDiagnosis.Pbft.TakenRequests
import BFTDiagnosis.Protocols.TakenRequests
import BFTDiagnosis.Components.RequestLoop
import BFTDiagnosis.ChainHotstuff.TakenRequests
import BFTDiagnosis.Protocols.RequestRefill
import BFTDiagnosis.Honeybadger.Decoding
import BFTDiagnosis.Honeybadger.BinaryValues
import BFTDiagnosis.Honeybadger.AuxQuorum
import BFTDiagnosis.Network.UnicastDelivery
import BFTDiagnosis.PbftExecutor.Executor
import BFTDiagnosis.PbftExecutor.Outcomes
import BFTDiagnosis.PbftExecutor.CheckpointNumbers
import BFTDiagnosis.Cli.CommandCompleter
import BFTDiagnosis.Hotstuff.HighQC
import BFTDiagnosis.Honeybadger.CommonSubset
import BFTDiagnosis.Honeybadger.Agreement
import BFTDiagnosis.Honeybadger.Committee
import BFTDiagnosis.Honeybadger.Acceptance
import BFTDiagnosis.Honeybadger.RootAgreement
import BFTDiagnosis.Lib.Simulation
import BFTDiagnosis.Lib.Channel
import BFTDiagnosis.HotstuffNode.Executor
import BFTDiagnosis.HotstuffNode.Port
import BFTDiagnosis.HotstuffNode.EventLoop
import BFTDiagnosis.HotstuffNode.Channel
import BFTDiagnosis.HotstuffNode.RequestLedger
import BFTDiagnosis.PbftExecutor.SingleView
import BFTDiagnosis.PbftExecutor.OneShot
import BFTDiagnosis.NonAuthPbft.Erasure
import BFTDiagnosis.Pbft.Participation
import BFTDiagnosis.Pbft.Progress
import BFTDiagnosis.Pbft.Liveness
import BFTDiagnosis.BasicHotstuff.Participation
import BFTDiagnosis.ChainHotstuff.Participation
import BFTDiagnosis.Controller.Campaign
