import BFTDiagnosis.HotstuffNode.Port

/-!
# The event loop of the standalone HotStuff node

`message_handler_start` of `consensus/src/basic_hotstuff/consensus_node/node.rs`: the loop waits for the
notifications of the executor, for the messages that the executor has put into the channel and for the network. The
branch it takes runs to its end before the next one. The executor sends into a channel of ten messages that only the
loop empties, so a send into the full channel waits for ever; this and every panic is `none`.

A message is sent to the leader that the executor has when it is taken out of the channel. The requests, the mode
and the permits are the ones of the model of the request buffer.
-/

namespace BFTDiagnosis.HotstuffNode

open Components Utils Word Hotstuff BasicHotstuff

/-- The code the node calls that is not part of the repository. -/
structure NodeExternals extends toHotstuff : BasicHotstuff.Externals where
  /-- `coder::deserialize_for_bytes` of a message; `none` is its panic. -/
  deserialize : Bytes → Option MessageType

/-- `Node` with its executor and the messages in the channel. -/
structure ConsensusNode where
  executor : Executor
  channel : List MessageType
  requestBuffer : List String
  requestBufferMap : HashMap String (Bytes × ℕ)

def ConsensusNode.new (faultToleranceCount : UInt64) : ConsensusNode where
  executor := Executor.new faultToleranceCount
  channel := []
  requestBuffer := []
  requestBufferMap := ∅

/-- What the loop reacts to, with the order in which a table of a message is visited. The last two are turns of the
tasks of the executor: the check for a proposal, and a view timer that expires. -/
inductive LoopEvent where
  | consensusNotify (order : List (Bytes × ConsensusNodePKInfo))
  | viewTimeoutNotify
  | receive
  | unicast (data : Bytes) (order : List (Bytes × ConsensusNodePKInfo))
  | gossip (data : Bytes) (order : List (Bytes × ConsensusNodePKInfo))
  | proposalStateCheck
  | viewTimer

/-- The capacity of `mpsc::channel`. -/
def channelCapacity : ℕ := 10

namespace ConsensusNode

/-- What the model of the request buffer keeps of the node. -/
def requests (n : ConsensusNode) : Node where
  requestBuffer := n.requestBuffer
  requestBufferMap := n.requestBufferMap
  mode := n.executor.state.mode
  consensusNotify := n.executor.consensusNotify

def withRequests (n : ConsensusNode) (node : Node) : ConsensusNode :=
  { n with
    requestBuffer := node.requestBuffer
    requestBufferMap := node.requestBufferMap
    executor := { n.executor with
      state := { n.executor.state with mode := node.mode }
      consensusNotify := node.consensusNotify } }

@[simp] theorem requests_withRequests (n : ConsensusNode) (node : Node) : (n.withRequests node).requests = node := rfl

@[simp] theorem channel_withRequests (n : ConsensusNode) (node : Node) :
    (n.withRequests node).channel = n.channel := rfl

variable (X : NodeExternals)

/-- A call of the executor, whose messages go into the channel if they fit. -/
def call (n : ConsensusNode) (currentPeerId : Bytes) (c : Executor.Call) : Option ConsensusNode := do
  let (executor, sent) ← Executor.step X.toHotstuff currentPeerId n.executor c
  if n.channel.length + sent.length ≤ channelCapacity then
    return { n with executor := executor, channel := n.channel ++ sent }
  else none

/-- The branch of `consensus_notify`: the first buffered request goes to the executor. -/
def startConsensus (n : ConsensusNode) (currentPeerId : Bytes) (order : List (Bytes × ConsensusNodePKInfo)) :
    Option ConsensusNode := do
  let n := n.withRequests { n.requests with consensusNotify := false }
  match ← firstRequest n.requests with
  | none => return n
  | some data => n.call X currentPeerId (.message (← X.deserialize data) order)

/-- The branch of `view_timeout_notify`. -/
def timeoutView (n : ConsensusNode) (currentPeerId : Bytes) : Option ConsensusNode :=
  call X { n with executor := { n.executor with viewTimeoutNotify := false } } currentPeerId .viewTimeout

/-- The branch of a message of the executor: votes and NewViews go to the leader, the end of a request to the
request buffer, and everything else to everyone. -/
def forward (n : ConsensusNode) (msg : MessageType) : Option (ConsensusNode × List (SendType Payload)) :=
  match msg with
  | .prepareVote _ | .preCommitVote _ | .commitVote _ | .newView _ => do
    let leader ← X.peerIdFromBytes n.executor.state.primary
    return (n, (msg.sendTo leader).toList)
  | .end requestHash => (endRequest n.requests requestHash).map fun node ↦ (n.withRequests node, [])
  | _ => some (n, [.broadcast (.message ⟨msg.ported⟩)])

/-- The branch of a gossiped message: a request is buffered, everything else goes to the executor. -/
def receiveGossip (n : ConsensusNode) (currentPeerId data : Bytes) (order : List (Bytes × ConsensusNodePKInfo)) :
    Option ConsensusNode := do
  match ← X.deserialize data with
  | .request request => (receiveRequest X.toPlatform n.requests data request).map n.withRequests
  | msg => n.call X currentPeerId (.message msg order)

end ConsensusNode

variable (X : NodeExternals)

/-- One turn of the loop or of a task, with what goes to the network. The branches of the notifications are taken
when there is a permit, and the branch of the channel when there is a message. -/
def loopStep (currentPeerId : Bytes) (n : ConsensusNode) :
    LoopEvent → Option (ConsensusNode × List (SendType Payload))
  | .consensusNotify order =>
    if n.executor.consensusNotify then (n.startConsensus X currentPeerId order).map (·, []) else some (n, [])
  | .viewTimeoutNotify =>
    if n.executor.viewTimeoutNotify then (n.timeoutView X currentPeerId).map (·, []) else some (n, [])
  | .receive =>
    match n.channel with
    | [] => some (n, [])
    | msg :: rest => { n with channel := rest }.forward X msg
  | .unicast data order => do
    let n ← n.call X currentPeerId (.message (← X.deserialize data) order)
    return (n, [])
  | .gossip data order => (n.receiveGossip X currentPeerId data order).map (·, [])
  | .proposalStateCheck => some (n.withRequests (proposalStateCheck n.requests), [])
  | .viewTimer =>
    let n := n.withRequests (viewTimeout n.requests)
    some ({ n with executor := { n.executor with viewTimeoutNotify := true } }, [])

end BFTDiagnosis.HotstuffNode
