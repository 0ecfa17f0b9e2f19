import BFTDiagnosis.Lib.HashMap
import BFTDiagnosis.Pbft.Message

/-!
# The PBFT consensus log

The maps of `ConsensusLog` in `protocols/src/pbft/log.rs` and the operations the handlers call on
them. Every recording function pushes the message at the end of the vector stored under its key,
whoever sent it. `record_current_request` is an `async` function whose future is dropped at its
only call, so the queue of current requests is never filled and the function is not modelled.
-/

namespace BFTDiagnosis.Pbft

open Components Word

inductive LogPhaseState where
  | notRequest
  | init
  | prepared
  | commited
  | replied
deriving DecidableEq

structure ConsensusLog where
  requests : HashMap UInt64 Request
  messages : HashMap String (List MessageType)
  replyMessages : HashMap String (List MessageType)
  checkpoints : HashMap (UInt64 × String) (List CheckPoint)
  viewchanges : HashMap UInt64 (List (ViewChange MessageType))
  requestMap : HashMap String (UInt64 × UInt64)
  requestPhaseState : HashMap String LogPhaseState
  currentRequests : List String

namespace ConsensusLog

def new : ConsensusLog where
  requests := ∅
  messages := ∅
  replyMessages := ∅
  checkpoints := ∅
  viewchanges := ∅
  requestMap := ∅
  requestPhaseState := ∅
  currentRequests := []

/-- `ConsensusLog::reset` clears every map except the replies. -/
def reset (log : ConsensusLog) : ConsensusLog :=
  { new with replyMessages := log.replyMessages }

variable (X : Externals)

/-- The body shared by `record_preprepare`, `record_prepare` and `record_commit`. -/
def recordPhaseMessage (log : ConsensusLog) (msg : MessageType) : ConsensusLog :=
  { log with messages := log.messages.pushAt (getMessageKey X msg) msg }

def recordPreprepare (log : ConsensusLog) (msg : PrePrepare) : ConsensusLog :=
  log.recordPhaseMessage X (.prePrepare msg)

def recordPrepare (log : ConsensusLog) (msg : Prepare) : ConsensusLog :=
  log.recordPhaseMessage X (.prepare msg)

def recordCommit (log : ConsensusLog) (msg : Commit) : ConsensusLog :=
  log.recordPhaseMessage X (.commit msg)

def recordReply (log : ConsensusLog) (msg : Reply) : ConsensusLog :=
  { log with replyMessages := log.replyMessages.pushAt (getMessageKey X (.reply msg)) (.reply msg) }

def recordCheckpoint (log : ConsensusLog) (msg : CheckPoint) : ConsensusLog :=
  { log with
    checkpoints := log.checkpoints.pushAt (msg.currentMaxNumber, msg.checkpointStateDigest) msg }

def recordViewchange (log : ConsensusLog) (msg : ViewChange MessageType) : ConsensusLog :=
  { log with viewchanges := log.viewchanges.pushAt msg.newView msg }

/-- `ConsensusLog::record_message_handler`. -/
def recordMessageHandler (log : ConsensusLog) : MessageType → ConsensusLog
  | .prePrepare msg => log.recordPreprepare X msg
  | .prepare msg => log.recordPrepare X msg
  | .commit msg => log.recordCommit X msg
  | .reply msg => log.recordReply X msg
  | .checkPoint msg => log.recordCheckpoint msg
  | .viewChange msg => log.recordViewchange msg
  | _ => log

/-- The first request recorded for a sequence number stays. -/
def recordRequest (log : ConsensusLog) (number : UInt64) (request : Request) : ConsensusLog :=
  if number ∈ log.requests then log
  else { log with requests := log.requests.insert number request }

def getLocalRequestBySequenceNumber (log : ConsensusLog) (number : UInt64) : Option Request :=
  log.requests.lookup number

def getLocalMessagesByHash (log : ConsensusLog) (hash : String) : List MessageType :=
  log.messages.listAt hash

def getLocalMessagesCountByHash (log : ConsensusLog) (hash : String) : ℕ :=
  (log.messages.listAt hash).length

def getLocalReplyMessagesCountByHash (log : ConsensusLog) (hash : String) : ℕ :=
  (log.replyMessages.listAt hash).length

def getCheckpointCount (log : ConsensusLog) (number : UInt64) (digest : String) : ℕ :=
  (log.checkpoints.listAt (number, digest)).length

def getViewchangeMessagesByView (log : ConsensusLog) (view : UInt64) : List (ViewChange MessageType) :=
  log.viewchanges.listAt view

def getViewchangeMessagesCountByView (log : ConsensusLog) (view : UInt64) : ℕ :=
  (log.viewchanges.listAt view).length

def getRequestPhaseState (log : ConsensusLog) (requestKey : String) : Option LogPhaseState :=
  log.requestPhaseState.lookup requestKey

def updateRequestPhaseState (log : ConsensusLog) (requestKey : String) (state : LogPhaseState) :
    ConsensusLog :=
  { log with requestPhaseState := log.requestPhaseState.insert requestKey state }

def removeCommitedRequest (log : ConsensusLog) : ConsensusLog :=
  { log with currentRequests := log.currentRequests.tail }

def clearCurrentRequest (log : ConsensusLog) : ConsensusLog :=
  { log with currentRequests := [] }

/-- `get_preprepare_messages_by_request_hash`; `none` is the panic on an unknown request. -/
def getPreprepareMessagesByRequestHash (log : ConsensusLog) (requestHash : String) :
    Option (List MessageType) := do
  let (view, number) ← log.requestMap.lookup requestHash
  return log.messages.listAt (getPreprepareKeyByRequestHash X (asBytes requestHash) view number)

/-- `get_prepare_messages_by_request_hash`; `none` is the panic on an unknown request. -/
def getPrepareMessagesByRequestHash (log : ConsensusLog) (requestHash : String) :
    Option (List MessageType) := do
  let (view, number) ← log.requestMap.lookup requestHash
  return log.messages.listAt (getPrepareKeyByRequestHash X (asBytes requestHash) view number)

/-- The loop of `get_proof_messages` over the requests that are in progress. -/
def proofMessagesFrom (log : ConsensusLog) : List String → ProofMessages MessageType →
    Option (ProofMessages MessageType)
  | [], proof => some proof
  | requestHash :: rest, proof => do
    let preprepares ← log.getPreprepareMessagesByRequestHash X requestHash
    let prepares ← log.getPrepareMessagesByRequestHash X requestHash
    log.proofMessagesFrom rest
      ⟨proof.preprepares ++ preprepares, proof.prepares ++ prepares⟩

def getProofMessages (log : ConsensusLog) : Option (ProofMessages MessageType) :=
  log.proofMessagesFrom X log.currentRequests ⟨[], []⟩

/-- One turn of the loop of `get_max_sequence_number_in_viewchange_by_view`. -/
def maxPrepareNumber (max : UInt64) : MessageType → UInt64
  | .prepare prepare => if max < prepare.number then prepare.number else max
  | _ => max

def getMaxSequenceNumberInViewchangeByView (log : ConsensusLog) (view : UInt64) : UInt64 :=
  (log.viewchanges.listAt view).foldl
    (fun max viewchange ↦ viewchange.proofMessages.prepares.foldl maxPrepareNumber max) 0

/-- One turn of the loop that collects PrePrepares: the first one of a number stays. -/
def collectPreprepare (found : HashMap UInt64 PrePrepare) : MessageType → HashMap UInt64 PrePrepare
  | .prePrepare preprepare =>
    if preprepare.number ∈ found then found else found.insert preprepare.number preprepare
  | _ => found

def collectPreprepares (viewchanges : List (ViewChange MessageType)) : HashMap UInt64 PrePrepare :=
  viewchanges.foldl
    (fun found viewchange ↦ viewchange.proofMessages.preprepares.foldl collectPreprepare found) ∅

/-- The PrePrepare of a number without a request. -/
def nullPreprepare (view number : UInt64) : PrePrepare where
  view := view
  number := number
  mHash := "NULL"
  m := []
  signature := []
  fromPeerId := []

/-- `create_newview_preprepare_messages`; the bounds `min + 1` and `max + 1` may overflow. -/
def createNewviewPreprepareMessages (log : ConsensusLog) (view min max : UInt64) :
    Option (List PrePrepare) := do
  let found := collectPreprepares (log.viewchanges.listAt view)
  let first ← checkedAdd min 1
  let last ← checkedAdd max 1
  return (List.range' first.toNat (last.toNat - first.toNat)).map fun i ↦
    (found.lookup (UInt64.ofNat i)).getD (nullPreprepare view (UInt64.ofNat i))

/-- The keys that `discard_messages_before_stable_checkpoint` removes from the messages. -/
def discardedKeys (log : ConsensusLog) (stable : UInt64) : Multiset String :=
  (log.requestMap.entries.filter fun entry ↦ entry.2.2 ≤ stable).bind fun entry ↦
    {getPreprepareKeyByRequestHash X (asBytes entry.1) entry.2.1 entry.2.2,
      getPrepareKeyByRequestHash X (asBytes entry.1) entry.2.1 entry.2.2,
      getCommitKeyByRequestHash X (asBytes entry.1) entry.2.1 entry.2.2}

def discardMessagesBeforeStableCheckpoint (log : ConsensusLog) (stable : UInt64) : ConsensusLog :=
  { log with
    messages := log.messages.retain fun key _ ↦ key ∉ log.discardedKeys X stable
    checkpoints := log.checkpoints.retain fun key _ ↦ !(key.1 < stable) }

end ConsensusLog

end BFTDiagnosis.Pbft
