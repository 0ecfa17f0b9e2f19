import BFTDiagnosis.Pbft.Log
import BFTDiagnosis.Lib.Run

/-!
# The PBFT protocol

`PBFTProtocol` of `protocols/src/pbft/protocol.rs` with its state and every message handler. A
handler returns the protocol after the call and its answer; `none` is a panic: a failed `unwrap`
or `expect`, or an arithmetic overflow in a build with overflow checks. Each voting handler is cut
in two: the checks that may reject a message, and what happens to a message that passes them.

Timers, notifications and printing do not influence the handlers and are left out.
-/

namespace BFTDiagnosis.Pbft

open Components Word

/-- The fields of `state::State` that the handlers read or write. -/
structure State where
  view : UInt64
  currentSequenceNumber : UInt64
  primary : Bytes
  isPrimary : Bool
  nodeCount : UInt64
  faultToleranceCount : UInt64
  stableCheckpoint : UInt64 × String
  currentCommitedRequestCount : UInt64
  checkpointState : String

/-- `State::new`, with the number of tolerated faults as a parameter instead of the constant 1. -/
def State.new (faultToleranceCount : UInt64) : State where
  view := 0
  currentSequenceNumber := 0
  primary := []
  isPrimary := false
  nodeCount := 9
  faultToleranceCount := faultToleranceCount
  stableCheckpoint := (0, "")
  currentCommitedRequestCount := 0
  checkpointState := String.ofList (List.replicate 64 (Char.ofNat 0))

structure PBFTProtocol where
  state : State
  log : ConsensusLog
  takenRequests : Finset Bytes
  keypair : Bytes
  consensusNodePk : HashMap Bytes Bytes

/-- `PBFTProtocol::default` with the given key pair. -/
def PBFTProtocol.new (faultToleranceCount : UInt64) (keypair : Bytes) : PBFTProtocol where
  state := State.new faultToleranceCount
  log := ConsensusLog.new
  takenRequests := ∅
  keypair := keypair
  consensusNodePk := ∅

variable (X : Externals)

def State.updateCheckpointState (s : State) (commitedRequestHash : String) : State :=
  { s with
    checkpointState := X.getHashStr
      (List.zipWith (· ^^^ ·) (asBytes s.checkpointState) (asBytes commitedRequestHash)) }

namespace PBFTProtocol

/-- The answer of a handler that stops without sending anything. -/
def silent : Answer := .continueExecute []

def getPublicKeyByPeerId (p : PBFTProtocol) (peerId : Bytes) : Option Bytes :=
  p.consensusNodePk.lookup peerId

/-- The signature check at the head of four handlers: the sender's bytes must be a peer id, its
public key must be known, and the signature must verify on the message key. -/
def verifySignature (p : PBFTProtocol) (fromPeerId signature : Bytes) (keyStr : String) :
    Option Bool := do
  let _peer ← X.peerIdFromBytes fromPeerId
  match p.getPublicKeyByPeerId fromPeerId with
  | some pk => return X.verify pk signature (asBytes keyStr)
  | none => return false

/-- The watermark check: `low < number` and `number ≤ high`. -/
def checkSequenceNumber (p : PBFTProtocol) (number : UInt64) : Option Bool := do
  let low := p.state.stableCheckpoint.1
  let high ← checkedAdd p.state.stableCheckpoint.1 100
  return !(decide (number ≤ low) || decide (high < number))

/-- The request logged for the number exists and has the hash that the message carries. -/
def checkRequestHash (p : PBFTProtocol) (number : UInt64) (mHash : String) : Bool :=
  match p.log.getLocalRequestBySequenceNumber number with
  | some m => requestHash X m == mHash
  | none => false

/-! ## View changes -/

def broadcastViewchange (p : PBFTProtocol) (currentPeerId : Bytes) : Option Answer := do
  let _threshold ← checkedMul 2 p.state.faultToleranceCount
  let proofMessages ← p.log.getProofMessages X
  let newView ← checkedAdd p.state.view 1
  let viewchange : ViewChange MessageType :=
    { newView := newView, proofMessages := proofMessages, fromPeerId := currentPeerId, signature := "" }
  return .continueExecute [.broadcast (.message ⟨.viewChange viewchange⟩)]

def broadcastNewview (p : PBFTProtocol) (newView : UInt64) : Option Answer := do
  let viewchanges := p.log.getViewchangeMessagesByView newView
  let max := p.log.getMaxSequenceNumberInViewchangeByView newView
  let preprepares ← p.log.createNewviewPreprepareMessages newView 0 max
  let newview : NewView MessageType :=
    { view := newView, viewchanges := viewchanges, preprepares := preprepares, signature := "" }
  return .continueExecute [.broadcast (.message ⟨.newView newview⟩)]

/-- `is_primary && msg_count > 2 * fault_tolerance_count`: the product is computed only when the
first operand is true. -/
def newviewQuorum (p : PBFTProtocol) (msgCount : ℕ) : Option Bool :=
  if p.state.isPrimary then
    (checkedMul 2 p.state.faultToleranceCount).map fun threshold ↦ decide (threshold.toNat < msgCount)
  else some false

def handleViewchange (p : PBFTProtocol) (currentPeerId : Bytes) (msg : ViewChange MessageType) :
    Option (PBFTProtocol × Answer) := do
  if msg.newView ≤ p.state.view then return (p, silent)
  let p := { p with log := p.log.recordMessageHandler X (.viewChange msg) }
  let msgCount := p.log.getViewchangeMessagesCountByView msg.newView
  if p.state.faultToleranceCount.toNat < msgCount then
    return (p, ← p.broadcastViewchange X currentPeerId)
  let quorum ← p.newviewQuorum msgCount
  if quorum then
    return (p, ← p.broadcastNewview msg.newView)
  return (p, silent)

/-- One turn of the loop of `handle_newview`: log the PrePrepare and emit an unsigned Prepare,
serialized without the enclosing `ConsensusMessage`. -/
def newviewPrepare (view : UInt64) (currentPeerId : Bytes) (preprepare : PrePrepare) :
    SendType Payload :=
  .broadcast (.bare (.prepare
    { view := view, number := preprepare.number, mHash := preprepare.mHash,
      fromPeerId := currentPeerId, signature := [] }))

def handleNewview (p : PBFTProtocol) (currentPeerId : Bytes) (msg : NewView MessageType) :
    PBFTProtocol × Answer :=
  let log := msg.preprepares.foldl
    (fun log preprepare ↦ log.recordMessageHandler X (.prePrepare preprepare))
    p.log.clearCurrentRequest
  ({ p with state := { p.state with view := msg.view }, log := log },
    .continueExecute (msg.preprepares.map (newviewPrepare msg.view currentPeerId)))

/-! ## The three phases -/

def handleRequest (p : PBFTProtocol) (currentPeerId : Bytes) (request : Request) :
    Option (PBFTProtocol × Answer) := do
  let seqNumber ← checkedAdd p.state.currentSequenceNumber 1
  let preprepare : PrePrepare :=
    { view := p.state.view, number := seqNumber, mHash := X.getHashStr (X.requestJson request),
      m := X.requestJson request, signature := [], fromPeerId := currentPeerId }
  let signature := X.sign p.keypair (asBytes (getMessageKey X (.prePrepare preprepare)))
  let p :=
    { p with
      takenRequests := insert (X.requestBytes request) p.takenRequests
      state := { p.state with primary := currentPeerId }
      log := p.log.recordRequest seqNumber request }
  return (p, .continueExecute
    [.broadcast (.message ⟨.prePrepare { preprepare with signature := signature }⟩)])

/-- What `handle_preprepare` does before its first check: the request is marked as taken and the
sender becomes the known primary. -/
def takePreprepare (p : PBFTProtocol) (msg : PrePrepare) (request : Request) : PBFTProtocol :=
  { p with
    takenRequests := insert (X.requestBytes request) p.takenRequests
    state := { p.state with primary := msg.fromPeerId } }

/-- The checks of `handle_preprepare`. The field `m_hash` is not compared with `m`. -/
def verifyPreprepare (p : PBFTProtocol) (msg : PrePrepare) : Option Bool := do
  let signed ← p.verifySignature X msg.fromPeerId msg.signature (getMessageKey X (.prePrepare msg))
  if !signed then return false
  let inWindow ← p.checkSequenceNumber msg.number
  return inWindow && p.state.view == msg.view

/-- The Prepare that answers an accepted PrePrepare. -/
def signedPrepare (p : PBFTProtocol) (currentPeerId : Bytes) (msg : PrePrepare) : Prepare :=
  let prepare : Prepare :=
    { view := p.state.view, number := msg.number, mHash := msg.mHash, fromPeerId := currentPeerId,
      signature := [] }
  { prepare with signature := X.sign p.keypair (asBytes (getMessageKey X (.prepare prepare))) }

def acceptPreprepare (p : PBFTProtocol) (currentPeerId : Bytes) (msg : PrePrepare) (request : Request) :
    PBFTProtocol × Answer :=
  let log := (p.log.recordRequest msg.number request).recordMessageHandler X (.prePrepare msg)
  ({ p with log := log },
    .continueExecute [.broadcast (.message ⟨.prepare (p.signedPrepare X currentPeerId msg)⟩)])

def handlePreprepare (p : PBFTProtocol) (currentPeerId : Bytes) (msg : PrePrepare) :
    Option (PBFTProtocol × Answer) := do
  let request ← X.requestOfJson msg.m
  let p := p.takePreprepare X msg request
  let accepted ← p.verifyPreprepare X msg
  if accepted then return p.acceptPreprepare X currentPeerId msg request
  return (p, silent)

/-- The checks of `handle_prepare`, in the order of the source. -/
def verifyPrepare (p : PBFTProtocol) (msg : Prepare) : Option Bool := do
  let signed ← p.verifySignature X msg.fromPeerId msg.signature (getMessageKey X (.prepare msg))
  if !signed then return false
  if p.log.getRequestPhaseState msg.mHash = some .prepared then return false
  let inWindow ← p.checkSequenceNumber msg.number
  return inWindow && p.state.view == msg.view && p.checkRequestHash X msg.number msg.mHash

/-- The Commit sent when a Prepare completes the quorum. -/
def signedCommit (p : PBFTProtocol) (currentPeerId : Bytes) (msg : Prepare) : Commit :=
  let commit : Commit :=
    { view := p.state.view, number := msg.number, mHash := msg.mHash, fromPeerId := currentPeerId,
      signature := [] }
  { commit with signature := X.sign p.keypair (asBytes (getMessageKey X (.commit commit))) }

def acceptPrepare (p : PBFTProtocol) (currentPeerId : Bytes) (msg : Prepare) :
    Option (PBFTProtocol × Answer) := do
  let log := p.log.recordMessageHandler X (.prepare msg)
  let currentCount := log.getLocalMessagesCountByHash (getMessageKey X (.prepare msg))
  let threshold ← checkedMul 2 p.state.faultToleranceCount
  if currentCount = threshold.toNat then
    return ({ p with log := log.updateRequestPhaseState msg.mHash .prepared },
      .continueExecute [.broadcast (.message ⟨.commit (p.signedCommit X currentPeerId msg)⟩)])
  return ({ p with log := log }, silent)

def handlePrepare (p : PBFTProtocol) (currentPeerId : Bytes) (msg : Prepare) :
    Option (PBFTProtocol × Answer) := do
  let accepted ← p.verifyPrepare X msg
  if accepted then p.acceptPrepare X currentPeerId msg
  else return (p, silent)

/-- The checks of `handle_commit`, in the order of the source. -/
def verifyCommit (p : PBFTProtocol) (msg : Commit) : Option Bool := do
  let keyStr := getMessageKey X (.commit msg)
  let threshold ← checkedMul 2 p.state.faultToleranceCount
  if threshold.toNat ≤ p.log.getLocalMessagesCountByHash keyStr then return false
  let signed ← p.verifySignature X msg.fromPeerId msg.signature keyStr
  if !signed then return false
  if p.log.getRequestPhaseState msg.mHash = some .commited then return false
  let inWindow ← p.checkSequenceNumber msg.number
  return inWindow && p.state.view == msg.view && p.checkRequestHash X msg.number msg.mHash

/-- The Reply sent when a Commit completes the quorum. -/
def signedReply (p : PBFTProtocol) (currentPeerId : Bytes) (msg : Commit) (m : Request) : Reply :=
  let reply : Reply :=
    { number := msg.number, fromPeerId := currentPeerId, signature := [], result := asBytes "ok!",
      view := p.state.view, cmd := m.cmd }
  { reply with signature := X.sign p.keypair (asBytes (getMessageKey X (.reply reply))) }

/-- The branch of `handle_commit` that completes the request `m`. -/
def completeCommit (p : PBFTProtocol) (currentPeerId : Bytes) (msg : Commit) (m : Request) :
    Option (PBFTProtocol × Answer) := do
  let count ← checkedAdd p.state.currentCommitedRequestCount 1
  let primary ← X.peerIdFromBytes p.state.primary
  let log := (p.log.removeCommitedRequest).updateRequestPhaseState msg.mHash .commited
  let state := { p.state.updateCheckpointState X msg.mHash with currentCommitedRequestCount := count }
  return ({ p with state := state, log := log.reset },
    .complete ⟨m.cmd⟩ [.unicast primary (.message ⟨.reply (p.signedReply X currentPeerId msg m)⟩)])

def acceptCommit (p : PBFTProtocol) (currentPeerId : Bytes) (msg : Commit) (m : Request) :
    Option (PBFTProtocol × Answer) := do
  let p := { p with log := p.log.recordMessageHandler X (.commit msg) }
  let currentCount := p.log.getLocalMessagesCountByHash (getMessageKey X (.commit msg))
  let threshold ← checkedMul 2 p.state.faultToleranceCount
  if threshold.toNat < currentCount then return (p, silent)
  if currentCount = threshold.toNat then p.completeCommit X currentPeerId msg m
  else return (p, silent)

def handleCommit (p : PBFTProtocol) (currentPeerId : Bytes) (msg : Commit) :
    Option (PBFTProtocol × Answer) := do
  let accepted ← p.verifyCommit X msg
  -- A Commit passes the checks only when its request is logged.
  match accepted, p.log.getLocalRequestBySequenceNumber msg.number with
  | true, some m => p.acceptCommit X currentPeerId msg m
  | _, _ => return (p, silent)

/-- The check of `handle_reply`; the unused threshold at its head may underflow. -/
def verifyReply (p : PBFTProtocol) (msg : Reply) : Option Bool := do
  let _threshold ← checkedSub p.state.nodeCount p.state.faultToleranceCount
  p.verifySignature X msg.fromPeerId msg.signature (getMessageKey X (.reply msg))

def acceptReply (p : PBFTProtocol) (msg : Reply) : Option (PBFTProtocol × Answer) := do
  let p := { p with log := p.log.recordMessageHandler X (.reply msg) }
  let currentCount := p.log.getLocalReplyMessagesCountByHash (getMessageKey X (.reply msg))
  let difference ← checkedSub p.state.nodeCount p.state.faultToleranceCount
  let replyThreshold ← checkedSub difference 1
  if currentCount = replyThreshold.toNat then
    if validUtf8 msg.result then
      return ({ p with log := { p.log.reset with replyMessages := ∅ } }, .over none)
    else none
  else return (p, silent)

def handleReply (p : PBFTProtocol) (msg : Reply) : Option (PBFTProtocol × Answer) := do
  let accepted ← p.verifyReply X msg
  if accepted then p.acceptReply X msg
  else return (p, silent)

/-! ## Checkpoints and keys -/

def handleCheckpoint (p : PBFTProtocol) (msg : CheckPoint) : Option (PBFTProtocol × Answer) := do
  let log := p.log.recordMessageHandler X (.checkPoint msg)
  let count := log.getCheckpointCount msg.currentMaxNumber msg.checkpointStateDigest
  let threshold ← checkedMul 2 p.state.faultToleranceCount
  if count = threshold.toNat then
    let stable := (msg.currentMaxNumber, msg.checkpointStateDigest)
    return ({ p with
      state := { p.state with stableCheckpoint := stable }
      log := log.discardMessagesBeforeStableCheckpoint X msg.currentMaxNumber }, silent)
  return ({ p with log := log }, silent)

def distributePublicKey (p : PBFTProtocol) (currentPeerId : Bytes) : Answer :=
  .continueExecute
    [.broadcast (.message ⟨.publicKey { pk := X.publicKey p.keypair, fromPeerId := currentPeerId }⟩)]

/-- The first public key stored for a peer stays. -/
def storagePublicKeyByPeerId (p : PBFTProtocol) (key : PublicKey) : Option (PBFTProtocol × Answer) := do
  let pks := if key.fromPeerId ∈ p.consensusNodePk then p.consensusNodePk
    else p.consensusNodePk.insert key.fromPeerId key.pk
  let _peer ← X.peerIdFromBytes key.fromPeerId
  return ({ p with consensusNodePk := pks }, silent)

def extraInitialStart (p : PBFTProtocol) (consensusNodes : Finset PeerId) (currentPeerId : Bytes) :
    PBFTProtocol × Answer :=
  let p := { p with state :=
    { p.state with primary := currentPeerId, nodeCount := UInt64.ofNat consensusNodes.card } }
  (p, .overMessage none
    (.broadcast (.message ⟨.distributePK⟩) :: (p.distributePublicKey X currentPeerId).queue))

/-- `consensus_protocol_message_handler` on a decoded message. -/
def consensusProtocolMessageHandler (p : PBFTProtocol) (currentPeerId : Bytes) :
    MessageType → Option (PBFTProtocol × Answer)
  | .request msg => p.handleRequest X currentPeerId msg
  | .prePrepare msg => p.handlePreprepare X currentPeerId msg
  | .prepare msg => p.handlePrepare X currentPeerId msg
  | .commit msg => p.handleCommit X currentPeerId msg
  | .reply msg => p.handleReply X msg
  | .checkPoint msg => p.handleCheckpoint X msg
  | .viewChange msg => p.handleViewchange X currentPeerId msg
  | .newView msg => some (p.handleNewview X currentPeerId msg)
  | .publicKey msg => p.storagePublicKeyByPeerId X msg
  | .distributePK => some (p, p.distributePublicKey X currentPeerId)

end PBFTProtocol

/-- What the actuator calls on the protocol while it runs. -/
inductive Event where
  | message (msg : MessageType)
  | initialStart (consensusNodes : Finset PeerId)

/-- One call of the actuator on the protocol of the node `currentPeerId`. -/
def step (currentPeerId : Bytes) (p : PBFTProtocol) : Event → Option (PBFTProtocol × Answer)
  | .message msg => p.consensusProtocolMessageHandler X currentPeerId msg
  | .initialStart consensusNodes => some (p.extraInitialStart X consensusNodes currentPeerId)

end BFTDiagnosis.Pbft
