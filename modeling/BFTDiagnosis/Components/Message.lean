import BFTDiagnosis.Components.Behaviour

/-!
# Messages between the components

The test items that the controller configures, the modes of consensus nodes, the messages between controller,
analyzer and consensus nodes, and the data that consensus nodes report to the analyzer, from
`components/src/message.rs` and `components/src/protocol_actuator.rs`.
-/

namespace BFTDiagnosis.Components

inductive Round where
  | firstRound
  | otherRound (n : UInt8)
deriving DecidableEq

inductive MaliciousBehaviour where
  | leaderFeignDeath (round : Round) (phase : UInt8)
  | leaderSendAmbiguousMessage (round : Round) (phase : UInt8) (field : List String) (count : UInt16)
  | leaderDelaySendMessage (round : Round) (phase : UInt8)
  | leaderSendDuplicateMessage (round : Round) (phase : UInt8)
  | replicaNodeConspireForgeMessages (round : Round) (phase : UInt8) (field : List String) (count : UInt16)
deriving DecidableEq

/-- `components::message::TestItem`. -/
inductive TestItem where
  | throughput
  | latency
  | throughputAndLatency
  /-- Number of nodes, maximum number of nodes and increment. -/
  | scalability (count max increment : UInt16)
  /-- Number of crashed nodes and its maximum. -/
  | crash (count max : UInt16)
  | malicious (behaviour : MaliciousBehaviour)
deriving DecidableEq

/-! ## Modes of a consensus node -/

inductive ConfigureState where
  | first
  | other
deriving DecidableEq

/-- `MaliciousMode`: the time until the behaviour is triggered, the phase, and what the behaviour needs. -/
inductive MaliciousMode where
  | leaderFeignDeath (interval : UInt64) (phase : UInt8)
  | leaderSendAmbiguousMessage (interval : UInt64) (phase : UInt8) (field : List String) (count : UInt16)
  | leaderDelaySendMessage (interval : UInt64) (phase : UInt8)
  | leaderSendDuplicateMessages (interval : UInt64) (phase : UInt8)
  | replicaNodeConspireForgeMessages (interval : UInt64) (phase : UInt8) (field : List String)
      (request : Request)
deriving DecidableEq

inductive ConsensusNodeMode where
  | uninitialized
  | honest (state : ConfigureState)
  | dishonest (mode : MaliciousMode)
  | crash (interval : UInt64)
deriving DecidableEq

/-! ## Messages -/

/-- `Component`: the bytes of the peer id. -/
inductive Component where
  | controller (id : Bytes)
  | analyzer (id : Bytes)
  | consensusNode (id : Bytes)
deriving DecidableEq

/-- `InteractiveMessage`, without the timestamps of `StartTest`, `JoinConsensus`, `ProtocolStart` and `Reset`,
which no handler reads. -/
inductive InteractiveMessage where
  | componentInfo (component : Component)
  | testItem (item : TestItem)
  | startTest
  | completedTest (item : TestItem)
  | crashNode (count : UInt16) (peerId : Option Bytes)
  | dishonestNode (peerId : Bytes)
  | joinConsensus
  | joinConsensusSuccess
  | maliciousTestPreparation
  | consensusPhase (phase : UInt8) (msg : Bytes)
  | configureConsensusNode (state : ConfigureState)
  | configureConsensusNodeSuccess (state : ConfigureState)
  | consensusNodeMode (mode : ConsensusNodeMode)
  | consensusNodeModeSuccess (mode : ConsensusNodeMode)
  | protocolStart
  | reset
  | resetSuccess (mode : ConsensusNodeMode)
  | makeAConsensusRequest (request : Request)
  | makeConsensusRequests (requests : List Request)
deriving DecidableEq

/-! ## Reported data -/

structure ConsensusStartData where
  request : Request
  startTime : UInt64
deriving DecidableEq

structure ConsensusEndData where
  request : Request
  completedTime : UInt64
deriving DecidableEq

end BFTDiagnosis.Components
