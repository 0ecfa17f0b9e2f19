import BFTDiagnosis.Components.Calls
import BFTDiagnosis.Pbft.Log

/-!
# PBFT without authentication

`NonAuthPBFTProtocol` of `protocols/src/non_authenticated_pbft/` with its messages, its log and every message
handler. It is PBFT without signatures, public keys, checkpoints and view changes; a Prepare or a Commit is
taken for any request that is logged for its number, whatever hash it carries. A handler returns `none` for a
panic. The keys of the three phases are those of PBFT.

Timers, notifications and printing do not influence the handlers and are left out, and so are the functions of
the log that no handler calls. As in PBFT, the future of `record_current_request` is dropped, so the queue of
current requests stays empty.
-/

namespace BFTDiagnosis.NonAuthPbft

open Components Word
open Pbft (Externals LogPhaseState phaseKeyBytes prePreparePrefix preparePrefix commitPrefix replyPrefix)

structure PrePrepare where
  view : UInt64
  number : UInt64
  mHash : String
  m : Bytes
  fromPeerId : Bytes
deriving DecidableEq

structure Prepare where
  view : UInt64
  number : UInt64
  mHash : String
  fromPeerId : Bytes
deriving DecidableEq

structure Commit where
  view : UInt64
  number : UInt64
  mHash : String
  fromPeerId : Bytes
deriving DecidableEq

structure Reply where
  cmd : String
  view : UInt64
  number : UInt64
  fromPeerId : Bytes
  result : Bytes
deriving DecidableEq

inductive MessageType where
  | request (request : Request)
  | prePrepare (preprepare : PrePrepare)
  | prepare (prepare : Prepare)
  | commit (commit : Commit)
  | reply (reply : Reply)
deriving DecidableEq

/-- What a handler hands to the JSON serializer. -/
structure ConsensusMessage where
  msgType : MessageType

abbrev Answer := PhaseState ConsensusMessage

variable (X : Externals)

/-- `common::get_message_key`. The key of a request is over its bincode form, unlike `m_hash`. -/
def getMessageKey : MessageType → String
  | .request request => X.getHashStr (X.requestBytes request)
  | .prePrepare msg => X.getHashStr (phaseKeyBytes prePreparePrefix (asBytes msg.mHash) msg.view msg.number)
  | .prepare msg => X.getHashStr (phaseKeyBytes preparePrefix (asBytes msg.mHash) msg.view msg.number)
  | .commit msg => X.getHashStr (phaseKeyBytes commitPrefix (asBytes msg.mHash) msg.view msg.number)
  | .reply msg => X.getHashStr
      (replyPrefix :: (asBytes msg.cmd ++ toBeBytes msg.view ++ toBeBytes msg.number ++ msg.result))

/-! ## The log -/

structure ConsensusLog where
  requests : HashMap UInt64 Request
  messages : HashMap String (List MessageType)
  replyMessages : HashMap String (List MessageType)
  requestPhaseState : HashMap String LogPhaseState

namespace ConsensusLog

def new : ConsensusLog where
  requests := ∅
  messages := ∅
  replyMessages := ∅
  requestPhaseState := ∅

/-- `ConsensusLog::reset` clears every map except the replies. -/
def reset (log : ConsensusLog) : ConsensusLog := { new with replyMessages := log.replyMessages }

/-- `ConsensusLog::record_message_handler`. -/
def recordMessageHandler (log : ConsensusLog) : MessageType → ConsensusLog
  | .request _ => log
  | .reply msg =>
    { log with replyMessages := log.replyMessages.pushAt (getMessageKey X (.reply msg)) (.reply msg) }
  | msg => { log with messages := log.messages.pushAt (getMessageKey X msg) msg }

/-- The first request recorded for a sequence number stays. -/
def recordRequest (log : ConsensusLog) (number : UInt64) (request : Request) : ConsensusLog :=
  if number ∈ log.requests then log
  else { log with requests := log.requests.insert number request }

def getLocalRequestBySequenceNumber (log : ConsensusLog) (number : UInt64) : Option Request :=
  log.requests.lookup number

def getLocalMessagesCountByHash (log : ConsensusLog) (hash : String) : ℕ := (log.messages.listAt hash).length

def getLocalReplyMessagesCountByHash (log : ConsensusLog) (hash : String) : ℕ :=
  (log.replyMessages.listAt hash).length

def getRequestPhaseState (log : ConsensusLog) (requestKey : String) : Option LogPhaseState :=
  log.requestPhaseState.lookup requestKey

def updateRequestPhaseState (log : ConsensusLog) (requestKey : String) (state : LogPhaseState) : ConsensusLog :=
  { log with requestPhaseState := log.requestPhaseState.insert requestKey state }

end ConsensusLog

/-! ## The protocol -/

/-- The fields of `state::State` that the handlers read or write. -/
structure State where
  view : UInt64
  currentSequenceNumber : UInt64
  primary : Bytes
  nodeCount : UInt64
  faultToleranceCount : UInt64
  stableCheckpoint : UInt64 × String
  currentCommitedRequestCount : UInt64
  checkpointState : String

/-- `State::new`, with the number of tolerated faults as a parameter instead of the constant 1. -/
def State.new (faultToleranceCount : UInt64) : State where
  view := 0
  currentSequenceNumber := 0
  primary := []
  nodeCount := 10
  faultToleranceCount := faultToleranceCount
  stableCheckpoint := (0, "")
  currentCommitedRequestCount := 0
  checkpointState := String.ofList (List.replicate 64 (Char.ofNat 0))

def State.updateCheckpointState (s : State) (commitedRequestHash : String) : State :=
  { s with
    checkpointState := X.getHashStr
      (List.zipWith (· ^^^ ·) (asBytes s.checkpointState) (asBytes commitedRequestHash)) }

structure NonAuthPBFTProtocol where
  state : State
  log : ConsensusLog
  takenRequests : Finset Bytes

namespace NonAuthPBFTProtocol

/-- `NonAuthPBFTProtocol::default`. -/
def new (faultToleranceCount : UInt64) : NonAuthPBFTProtocol where
  state := .new faultToleranceCount
  log := .new
  takenRequests := ∅

/-- The answer of a handler that stops without sending anything. -/
def silent : Answer := .continueExecute []

/-- The watermark check: `low < number` and `number ≤ high`. -/
def checkSequenceNumber (p : NonAuthPBFTProtocol) (number : UInt64) : Option Bool := do
  let low := p.state.stableCheckpoint.1
  let high ← checkedAdd p.state.stableCheckpoint.1 100
  return !(decide (number ≤ low) || decide (high < number))

def handleRequest (p : NonAuthPBFTProtocol) (currentPeerId : Bytes) (request : Request) :
    Option (NonAuthPBFTProtocol × Answer) := do
  let seqNumber ← checkedAdd p.state.currentSequenceNumber 1
  let preprepare : PrePrepare :=
    { view := p.state.view, number := seqNumber, mHash := X.getHashStr (X.requestJson request),
      m := X.requestJson request, fromPeerId := currentPeerId }
  let p :=
    { p with
      takenRequests := insert (X.requestBytes request) p.takenRequests
      state := { p.state with primary := currentPeerId }
      log := p.log.recordRequest seqNumber request }
  return (p, .continueExecute [.broadcast ⟨.prePrepare preprepare⟩])

/-- What `handle_preprepare` does before its first check. Unlike `handle_request`, it marks the JSON form of
the request as taken. -/
def takePreprepare (p : NonAuthPBFTProtocol) (msg : PrePrepare) (request : Request) : NonAuthPBFTProtocol :=
  { p with
    takenRequests := insert (X.requestJson request) p.takenRequests
    state := { p.state with primary := msg.fromPeerId } }

/-- The checks of `handle_preprepare`. -/
def verifyPreprepare (p : NonAuthPBFTProtocol) (msg : PrePrepare) : Option Bool := do
  let _peer ← X.peerIdFromBytes msg.fromPeerId
  let inWindow ← p.checkSequenceNumber msg.number
  return inWindow && p.state.view == msg.view

def acceptPreprepare (p : NonAuthPBFTProtocol) (currentPeerId : Bytes) (msg : PrePrepare) (request : Request) :
    NonAuthPBFTProtocol × Answer :=
  let log := (p.log.recordRequest msg.number request).recordMessageHandler X (.prePrepare msg)
  let prepare : Prepare :=
    { view := p.state.view, number := msg.number, mHash := msg.mHash, fromPeerId := currentPeerId }
  ({ p with log := log }, .continueExecute [.broadcast ⟨.prepare prepare⟩])

def handlePreprepare (p : NonAuthPBFTProtocol) (currentPeerId : Bytes) (msg : PrePrepare) :
    Option (NonAuthPBFTProtocol × Answer) := do
  let request ← X.requestOfJson msg.m
  let p := p.takePreprepare X msg request
  let accepted ← p.verifyPreprepare X msg
  if accepted then return p.acceptPreprepare X currentPeerId msg request
  return (p, silent)

/-- The checks of `handle_prepare`, in the order of the source. -/
def verifyPrepare (p : NonAuthPBFTProtocol) (msg : Prepare) : Option Bool := do
  let _peer ← X.peerIdFromBytes msg.fromPeerId
  if p.log.getRequestPhaseState msg.mHash = some .prepared then return false
  let inWindow ← p.checkSequenceNumber msg.number
  return inWindow && p.state.view == msg.view && (p.log.getLocalRequestBySequenceNumber msg.number).isSome

def acceptPrepare (p : NonAuthPBFTProtocol) (currentPeerId : Bytes) (msg : Prepare) :
    Option (NonAuthPBFTProtocol × Answer) := do
  let log := p.log.recordMessageHandler X (.prepare msg)
  let currentCount := log.getLocalMessagesCountByHash (getMessageKey X (.prepare msg))
  let threshold ← checkedMul 2 p.state.faultToleranceCount
  if currentCount = threshold.toNat then
    let commit : Commit :=
      { view := p.state.view, number := msg.number, mHash := msg.mHash, fromPeerId := currentPeerId }
    return ({ p with log := log.updateRequestPhaseState msg.mHash .prepared },
      .continueExecute [.broadcast ⟨.commit commit⟩])
  return ({ p with log := log }, silent)

def handlePrepare (p : NonAuthPBFTProtocol) (currentPeerId : Bytes) (msg : Prepare) :
    Option (NonAuthPBFTProtocol × Answer) := do
  let accepted ← p.verifyPrepare X msg
  if accepted then p.acceptPrepare X currentPeerId msg
  else return (p, silent)

/-- The checks of `handle_commit`, in the order of the source. -/
def verifyCommit (p : NonAuthPBFTProtocol) (msg : Commit) : Option Bool := do
  let threshold ← checkedMul 2 p.state.faultToleranceCount
  if threshold.toNat ≤ p.log.getLocalMessagesCountByHash (getMessageKey X (.commit msg)) then return false
  let _peer ← X.peerIdFromBytes msg.fromPeerId
  if p.log.getRequestPhaseState msg.mHash = some .commited then return false
  let inWindow ← p.checkSequenceNumber msg.number
  return inWindow && p.state.view == msg.view

/-- The branch of `handle_commit` that completes the request `m`. -/
def completeCommit (p : NonAuthPBFTProtocol) (currentPeerId : Bytes) (msg : Commit) (m : Request) :
    Option (NonAuthPBFTProtocol × Answer) := do
  let count ← checkedAdd p.state.currentCommitedRequestCount 1
  let reply : Reply :=
    { number := msg.number, fromPeerId := currentPeerId, result := asBytes "ok!", view := p.state.view,
      cmd := m.cmd }
  let primary ← X.peerIdFromBytes p.state.primary
  let state := { p.state.updateCheckpointState X msg.mHash with currentCommitedRequestCount := count }
  let log := p.log.updateRequestPhaseState msg.mHash .commited
  return ({ p with state := state, log := log.reset }, .complete ⟨m.cmd⟩ [.unicast primary ⟨.reply reply⟩])

def acceptCommit (p : NonAuthPBFTProtocol) (currentPeerId : Bytes) (msg : Commit) (m : Request) :
    Option (NonAuthPBFTProtocol × Answer) := do
  let p := { p with log := p.log.recordMessageHandler X (.commit msg) }
  let currentCount := p.log.getLocalMessagesCountByHash (getMessageKey X (.commit msg))
  let threshold ← checkedMul 2 p.state.faultToleranceCount
  if threshold.toNat < currentCount then return (p, silent)
  if currentCount = threshold.toNat then p.completeCommit X currentPeerId msg m
  else return (p, silent)

def handleCommit (p : NonAuthPBFTProtocol) (currentPeerId : Bytes) (msg : Commit) :
    Option (NonAuthPBFTProtocol × Answer) := do
  let accepted ← p.verifyCommit X msg
  match accepted, p.log.getLocalRequestBySequenceNumber msg.number with
  | true, some m => p.acceptCommit X currentPeerId msg m
  | _, _ => return (p, silent)

def handleReply (p : NonAuthPBFTProtocol) (msg : Reply) : Option (NonAuthPBFTProtocol × Answer) := do
  let difference ← checkedSub p.state.nodeCount p.state.faultToleranceCount
  let _peer ← X.peerIdFromBytes msg.fromPeerId
  let p := { p with log := p.log.recordMessageHandler X (.reply msg) }
  let currentCount := p.log.getLocalReplyMessagesCountByHash (getMessageKey X (.reply msg))
  let replyThreshold ← checkedSub difference 1
  if currentCount = replyThreshold.toNat then
    if validUtf8 msg.result then return ({ p with log := { p.log.reset with replyMessages := ∅ } }, .over none)
    else none
  else return (p, silent)

def extraInitialStart (p : NonAuthPBFTProtocol) (consensusNodes : Finset PeerId) (currentPeerId : Bytes) :
    NonAuthPBFTProtocol × Answer :=
  let state := { p.state with primary := currentPeerId, nodeCount := UInt64.ofNat consensusNodes.card }
  ({ p with state := state }, .overMessage none [])

/-- `consensus_protocol_message_handler` on a decoded message. -/
def consensusProtocolMessageHandler (p : NonAuthPBFTProtocol) (currentPeerId : Bytes) :
    MessageType → Option (NonAuthPBFTProtocol × Answer)
  | .request msg => p.handleRequest X currentPeerId msg
  | .prePrepare msg => p.handlePreprepare X currentPeerId msg
  | .prepare msg => p.handlePrepare X currentPeerId msg
  | .commit msg => p.handleCommit X currentPeerId msg
  | .reply msg => p.handleReply X msg

def checkTakenRequest (p : NonAuthPBFTProtocol) (request : Bytes) : Bool := decide (request ∈ p.takenRequests)

def isLeader (p : NonAuthPBFTProtocol) (peerId : Bytes) : Bool := p.state.primary == peerId

end NonAuthPBFTProtocol

/-- The calls of the actuator on the protocol of the node `me`. The view timeout is left to the trait. -/
def call (me : Bytes) (p : NonAuthPBFTProtocol) :
    Call MessageType (Finset PeerId) → Option (NonAuthPBFTProtocol × Response ConsensusMessage)
  | .consensusProtocolMessageHandler msg =>
    (p.consensusProtocolMessageHandler X me msg).map (Prod.map id Response.phaseState)
  | .viewTimeoutHandler => some (p, .emptyBroadcast)
  | .checkTakenRequest request => some (p, .decision (p.checkTakenRequest request))
  | .isLeader peerId => some (p, .decision (p.isLeader peerId))
  | .extraInitialStart nodes => some (Prod.map id Response.phaseState (p.extraInitialStart nodes me))

end BFTDiagnosis.NonAuthPbft
