import BFTDiagnosis.Lib.HashSet
import BFTDiagnosis.Lib.Run
import BFTDiagnosis.PbftExecutor.NewView

/-!
# The standalone PBFT executor

`Executor` of `consensus/src/pbft` with its state, its log and every message handler. A handler returns the
executor after the call and the messages that it sends; `none` is a panic.

The start times of the requests are left out, as only the timer reads them, and so is what is printed.
-/

namespace BFTDiagnosis.PbftExecutor

open Utils Word
open Pbft (PrePrepare Prepare Commit CheckPoint PublicKey ProofMessages LogPhaseState)

/-- The code the executor calls that is not part of the repository. -/
structure Externals extends Platform where
  /-- `coder::serialize_into_bytes` of a request. -/
  serializeRequest : Request → Bytes
  /-- `coder::deserialize_for_bytes` at type `Request`; `none` is the panic. -/
  deserializeRequest : Bytes → Option Request
  /-- `EdDSAKeyPair::get_public_key`, with a key pair given by its bytes. -/
  publicKey : Bytes → Bytes
  /-- `EdDSAKeyPair::sign`. -/
  sign : Bytes → Bytes → Bytes
  /-- `EdDSAPublicKey::verify`, `false` on malformed keys and signatures. -/
  verify : Bytes → Bytes → Bytes → Bool
  /-- The order of the keys of `checkpoints`. -/
  checkpointKeys : Walk (UInt64 × String)

/-- The bytes of the front part, which are marked, and what follows it. -/
def unmark : Bytes → Bytes × Bytes
  | 1 :: byte :: rest => (byte :: (unmark rest).1, (unmark rest).2)
  | _ :: rest => ([], rest)
  | [] => ([], [])

/-- Externals on which runs can be evaluated. -/
def Externals.transparent : Externals where
  toPlatform := Platform.transparent
  serializeRequest := serialize
  deserializeRequest bytes :=
    let (operation, bytes') := unmark bytes
    let (timestamp, bytes'') := unmark bytes'
    let (clientId, signature) := unmark bytes''
    let request : Request := ⟨text operation, text timestamp, clientId, text signature⟩
    if serialize request = bytes then some request else none
  publicKey keypair := keypair
  sign keypair message := keypair ++ message
  verify pk signature message := signature == pk ++ message
  checkpointKeys := Walk.ofKey (fun key ↦ Bytes.key (toBeBytes key.1 ++ asBytes key.2)) fun key key' h ↦ by
    obtain ⟨hnumber, hdigest⟩ := List.append_inj (Bytes.key_injective h) rfl
    exact Prod.ext (toBeBytes_injective hnumber) (asBytes_injective hdigest)
where
  serialize (request : Request) : Bytes :=
    markBytes (asBytes request.operation) ++ 0 :: (markBytes (asBytes request.timestamp) ++
      0 :: (markBytes request.clientId ++ 0 :: asBytes request.signature))
  text (bytes : Bytes) : String := String.ofList (bytes.map Platform.charOfByte)

theorem serializeRequest_transparent_injective : Function.Injective Externals.transparent.serializeRequest := by
  intro request request' h
  obtain ⟨hoperation, hrest⟩ := markBytes_append_inj h
  obtain ⟨htimestamp, hrest⟩ := markBytes_append_inj hrest
  obtain ⟨hclientId, hsignature⟩ := markBytes_append_inj hrest
  cases request
  cases request'
  simp_all [asBytes_injective.eq_iff]

/-- `U512::from` of a key of the database; a key of more than 64 bytes is a panic. -/
def dbKey (key : Bytes) : Option ℕ :=
  if key.length ≤ 64 then some (key.foldl (fun value byte ↦ value * 256 + byte.toNat) 0) else none

def stableCheckpointDelta : UInt64 := 50

variable (X : Externals)

/-- `common::get_message_key`. -/
def getMessageKey : MessageType → String
  | .request request => X.getHashStr (X.serializeRequest request)
  | .prePrepare msg =>
    X.getHashStr (Pbft.phaseKeyBytes Pbft.prePreparePrefix (asBytes msg.mHash) msg.view msg.number)
  | .prepare msg => X.getHashStr (Pbft.phaseKeyBytes Pbft.preparePrefix (asBytes msg.mHash) msg.view msg.number)
  | .commit msg => X.getHashStr (Pbft.phaseKeyBytes Pbft.commitPrefix (asBytes msg.mHash) msg.view msg.number)
  | .reply msg => X.getHashStr (Pbft.replyPrefix ::
      (msg.clientId ++ asBytes msg.timestamp ++ toBeBytes msg.view ++ toBeBytes msg.number ++ msg.result))
  | _ => ""

/-! ## The log -/

/-- `ConsensusLog` with the fields that the other handlers read and write. -/
structure NodeLog extends ConsensusLog where
  requests : HashMap UInt64 Request
  messages : HashMap String (List MessageType)
  checkpoints : HashMap (UInt64 × String) (List CheckPoint)
  requestMap : HashMap String (UInt64 × UInt64)
  requestPhaseState : HashMap String LogPhaseState
  currentRequests : List String

namespace NodeLog

def new : NodeLog where
  viewchanges := ∅
  requests := ∅
  messages := ∅
  checkpoints := ∅
  requestMap := ∅
  requestPhaseState := ∅
  currentRequests := []

/-- The body shared by `record_preprepare`, `record_prepare`, `record_commit` and `record_reply`. -/
def recordKeyed (log : NodeLog) (msg : MessageType) : NodeLog :=
  { log with messages := log.messages.pushAt (getMessageKey X msg) msg }

def recordCheckpoint (log : NodeLog) (msg : CheckPoint) : NodeLog :=
  { log with checkpoints := log.checkpoints.pushAt (msg.currentMaxNumber, msg.checkpointStateDigest) msg }

def recordMessageHandler (log : NodeLog) : MessageType → NodeLog
  | .prePrepare msg => log.recordKeyed X (.prePrepare msg)
  | .prepare msg => log.recordKeyed X (.prepare msg)
  | .commit msg => log.recordKeyed X (.commit msg)
  | .reply msg => log.recordKeyed X (.reply msg)
  | .checkPoint msg => log.recordCheckpoint msg
  | .viewChange msg => { log with toConsensusLog := log.toConsensusLog.recordViewchange msg }
  | _ => log

/-- The first request recorded for a sequence number stays. -/
def recordRequest (log : NodeLog) (number : UInt64) (request : Request) : NodeLog :=
  if number ∈ log.requests then log else { log with requests := log.requests.insert number request }

def getLocalRequestBySequenceNumber (log : NodeLog) (number : UInt64) : Option Request :=
  log.requests.lookup number

def getLocalMessagesCountByHash (log : NodeLog) (hash : String) : ℕ := (log.messages.listAt hash).length

def getCheckpointCount (log : NodeLog) (number : UInt64) (digest : String) : ℕ :=
  (log.checkpoints.listAt (number, digest)).length

def getViewchangeMessagesCountByView (log : NodeLog) (view : UInt64) : ℕ := (log.viewchanges.listAt view).length

def getRequestPhaseState (log : NodeLog) (requestKey : String) : Option LogPhaseState :=
  log.requestPhaseState.lookup requestKey

def updateRequestPhaseState (log : NodeLog) (requestKey : String) (state : LogPhaseState) : NodeLog :=
  { log with requestPhaseState := log.requestPhaseState.insert requestKey state }

def recordCurrentRequest (log : NodeLog) (requestKey : String) : NodeLog :=
  { log with currentRequests := log.currentRequests ++ [requestKey] }

def removeCommitedRequest (log : NodeLog) : NodeLog := { log with currentRequests := log.currentRequests.tail }

def clearCurrentRequest (log : NodeLog) : NodeLog := { log with currentRequests := [] }

/-- The first list that is met of the number and the length. -/
def getCheckpointMessagesBySequenceNumber (log : NodeLog) (number threshold : UInt64) : List CheckPoint :=
  ((X.checkpointKeys.order log.checkpoints.keys).find? fun key ↦
    key.1 = number ∧ (log.checkpoints.listAt key).length = threshold.toNat).elim [] log.checkpoints.listAt

/-- `get_preprepare_messages_by_request_hash`; `none` is the panic on an unknown request. -/
def getPreprepareMessagesByRequestHash (log : NodeLog) (requestHash : String) : Option (List MessageType) := do
  let (view, number) ← log.requestMap.lookup requestHash
  return log.messages.listAt
    (X.getHashStr (Pbft.phaseKeyBytes Pbft.prePreparePrefix (asBytes requestHash) view number))

/-- `get_prepare_messages_by_request_hash`; `none` is the panic on an unknown request. -/
def getPrepareMessagesByRequestHash (log : NodeLog) (requestHash : String) : Option (List MessageType) := do
  let (view, number) ← log.requestMap.lookup requestHash
  return log.messages.listAt
    (X.getHashStr (Pbft.phaseKeyBytes Pbft.preparePrefix (asBytes requestHash) view number))

def getProofMessages (log : NodeLog) : Option (ProofMessages MessageType) := do
  let preprepares ← log.currentRequests.mapM (log.getPreprepareMessagesByRequestHash X)
  let prepares ← log.currentRequests.mapM (log.getPrepareMessagesByRequestHash X)
  return ⟨preprepares.flatten, prepares.flatten⟩

/-- The keys that `discard_messages_before_stable_checkpoint` removes from the messages. -/
def discardedKeys (log : NodeLog) (stable : UInt64) : Multiset String :=
  (log.requestMap.entries.filter fun entry ↦ entry.2.2 ≤ stable).bind fun entry ↦
    (([Pbft.prePreparePrefix, Pbft.preparePrefix, Pbft.commitPrefix].map fun kind ↦
      X.getHashStr (Pbft.phaseKeyBytes kind (asBytes entry.1) entry.2.1 entry.2.2) : List String) : Multiset String)

def discardMessagesBeforeStableCheckpoint (log : NodeLog) (stable : UInt64) : NodeLog :=
  { log with
    messages := log.messages.retain fun key _ ↦ key ∉ log.discardedKeys X stable
    checkpoints := log.checkpoints.retain fun key _ ↦ !(key.1 < stable) }

end NodeLog

/-! ## The state -/

inductive Mode where
  | normal
  | abnormal
deriving DecidableEq

inductive ClientState where
  | notRequest
  | waiting
  | replied
deriving DecidableEq

/-- `state::State` with the fields that the other handlers read and write. -/
structure NodeState extends State where
  view : UInt64
  currentSequenceNumber : UInt64
  isPrimary : Bool
  mode : Mode
  currentCommitedRequestCount : UInt64
  checkpointState : String
  clientState : ClientState

/-- `State::new`, with the number of tolerated faults as a parameter instead of the constant 1. -/
def NodeState.new (faultToleranceCount : UInt64) : NodeState where
  faultToleranceCount := faultToleranceCount
  stableCheckpoint := (0, "")
  view := 0
  currentSequenceNumber := 0
  isPrimary := false
  mode := .normal
  currentCommitedRequestCount := 0
  checkpointState := String.ofList (List.replicate 64 (Char.ofNat 0))
  clientState := .notRequest

def NodeState.updateCheckpointState (s : NodeState) (commitedRequestHash : String) : NodeState :=
  { s with
    checkpointState := X.getHashStr
      (List.zipWith (· ^^^ ·) (asBytes s.checkpointState) (asBytes commitedRequestHash)) }

/-- The executor of a node, with its database and its key pair. -/
structure Node where
  state : NodeState
  log : NodeLog
  db : HashMap ℕ Bytes
  keypair : Bytes

namespace Node

/-- `Executor::new` on the database that is found under the path. -/
def new (faultToleranceCount : UInt64) (db : HashMap ℕ Bytes) (keypair : Bytes) : Node where
  state := NodeState.new faultToleranceCount
  log := NodeLog.new
  db := db
  keypair := keypair

/-- What the change of view reads. -/
def executor (n : Node) : Executor := ⟨n.state.toState, n.log.toConsensusLog⟩

/-! ## Checks -/

def getPublicKeyByPeerId (n : Node) (peerId : Bytes) : Option (Option Bytes) :=
  (dbKey peerId).map n.db.lookup

/-- The signature check at the head of four handlers. -/
def verifySignature (n : Node) (fromPeerId signature : Bytes) (keyStr : String) : Option Bool := do
  let sourcePk ← n.getPublicKeyByPeerId fromPeerId
  let _peer ← X.peerIdFromBytes fromPeerId
  match sourcePk with
  | some pk => return X.verify pk signature (asBytes keyStr)
  | none => return false

/-- The watermark check: `low < number` and `number ≤ high`. -/
def checkSequenceNumber (n : Node) (number : UInt64) : Option Bool := do
  let low := n.state.stableCheckpoint.1
  let high ← checkedAdd n.state.stableCheckpoint.1 100
  return !(decide (number ≤ low) || decide (high < number))

/-! ## View changes -/

/-- Nothing happens when the mode is abnormal already. -/
def broadcastViewchange (n : Node) (currentPeerId : Bytes) : Option (Node × List MessageType) :=
  if n.state.mode = .abnormal then some (n, [])
  else do
    let threshold ← checkedMul 2 n.state.faultToleranceCount
    let proofMessages ← n.log.getProofMessages X
    let newView ← checkedAdd n.state.view 1
    return ({ n with state := { n.state with mode := .abnormal } }, [.viewChange {
      newView := newView
      latestStableCheckpoint := n.state.stableCheckpoint.1
      latestStableCheckpointMessages :=
        n.log.getCheckpointMessagesBySequenceNumber X n.state.stableCheckpoint.1 threshold
      proofMessages := proofMessages
      fromPeerId := currentPeerId
      signature := "" }])

/-- `is_primary && msg_count > 2 * fault_tolerance_count`. -/
def newviewQuorum (n : Node) (msgCount : ℕ) : Option Bool :=
  if n.state.isPrimary then
    (checkedMul 2 n.state.faultToleranceCount).map fun threshold ↦ decide (threshold.toNat < msgCount)
  else some false

def handleViewchange (n : Node) (currentPeerId : Bytes) (msg : ViewChange MessageType) :
    Option (Node × List MessageType) := do
  if msg.newView ≤ n.state.view then return (n, [])
  let n := { n with log := n.log.recordMessageHandler X (.viewChange msg) }
  let msgCount := n.log.getViewchangeMessagesCountByView msg.newView
  if n.state.faultToleranceCount.toNat < msgCount ∧ n.state.mode = .normal then
    n.broadcastViewchange X currentPeerId
  else
    let quorum ← n.newviewQuorum msgCount
    if quorum then
      let newview ← n.executor.broadcastNewview msg.newView
      return (n, [.newView newview])
    else return (n, [])

/-- One turn of the loop of `handle_newview`. -/
def recordNewviewPreprepare (log : NodeLog) (preprepare : PrePrepare) : NodeLog :=
  (log.recordMessageHandler X (.prePrepare preprepare)).recordCurrentRequest preprepare.mHash

/-- The unsigned Prepare for a PrePrepare of a NewView. -/
def newviewPrepare (view : UInt64) (currentPeerId : Bytes) (preprepare : PrePrepare) : MessageType :=
  .prepare { view := view, number := preprepare.number, mHash := preprepare.mHash, fromPeerId := currentPeerId,
             signature := [] }

def handleNewview (n : Node) (currentPeerId : Bytes) (msg : NewView MessageType) :
    Option (Node × List MessageType) := do
  let valid ← n.executor.verifyNewview msg
  if !valid then return (n, [])
  let log := msg.preprepares.foldl (recordNewviewPreprepare X) n.log.clearCurrentRequest
  return ({ n with state := { n.state with view := msg.view, mode := .normal }, log := log },
    msg.preprepares.map (newviewPrepare msg.view currentPeerId))

/-! ## The three phases -/

def handleRequest (n : Node) (currentPeerId : Bytes) (request : Request) : Option (Node × List MessageType) := do
  let seqNumber ← checkedAdd n.state.currentSequenceNumber 1
  let preprepare : PrePrepare :=
    { view := n.state.view, number := seqNumber, mHash := X.getHashStr (X.serializeRequest request),
      m := X.serializeRequest request, signature := [], fromPeerId := currentPeerId }
  let signature := X.sign n.keypair (asBytes (getMessageKey X (.prePrepare preprepare)))
  return ({ n with log := n.log.recordRequest seqNumber request },
    [.prePrepare { preprepare with signature := signature }])

/-- The Prepare that answers an accepted PrePrepare. -/
def signedPrepare (n : Node) (currentPeerId : Bytes) (msg : PrePrepare) : Prepare :=
  let prepare : Prepare :=
    { view := n.state.view, number := msg.number, mHash := msg.mHash, fromPeerId := currentPeerId, signature := [] }
  { prepare with signature := X.sign n.keypair (asBytes (getMessageKey X (.prepare prepare))) }

def handlePreprepare (n : Node) (currentPeerId : Bytes) (msg : PrePrepare) : Option (Node × List MessageType) := do
  let signed ← n.verifySignature X msg.fromPeerId msg.signature (getMessageKey X (.prePrepare msg))
  if !signed then return (n, [])
  let inWindow ← n.checkSequenceNumber msg.number
  if !inWindow then return (n, [])
  if n.state.view ≠ msg.view then return (n, [])
  let m ← X.deserializeRequest msg.m
  let log := (n.log.recordRequest msg.number m).recordMessageHandler X (.prePrepare msg)
  return ({ n with log := log.recordCurrentRequest msg.mHash }, [.prepare (n.signedPrepare X currentPeerId msg)])

/-- The request logged for the number, if it has the hash that the message carries. -/
def requestOf (n : Node) (number : UInt64) (mHash : String) : Option Request :=
  (n.log.getLocalRequestBySequenceNumber number).filter fun m ↦ getMessageKey X (.request m) == mHash

/-- The checks that a Prepare and a Commit go through, in the order of the source. -/
def checkVote (n : Node) (fromPeerId signature : Bytes) (keyStr mHash : String) (done : LogPhaseState)
    (view number : UInt64) : Option Bool := do
  let signed ← n.verifySignature X fromPeerId signature keyStr
  if !signed then return false
  if n.log.getRequestPhaseState mHash = some done then return false
  let inWindow ← n.checkSequenceNumber number
  return inWindow && n.state.view == view

/-- The Commit sent when a Prepare completes the quorum. -/
def signedCommit (n : Node) (currentPeerId : Bytes) (msg : Prepare) : Commit :=
  let commit : Commit :=
    { view := n.state.view, number := msg.number, mHash := msg.mHash, fromPeerId := currentPeerId, signature := [] }
  { commit with signature := X.sign n.keypair (asBytes (getMessageKey X (.commit commit))) }

def handlePrepare (n : Node) (currentPeerId : Bytes) (msg : Prepare) : Option (Node × List MessageType) := do
  let checked ← n.checkVote X msg.fromPeerId msg.signature (getMessageKey X (.prepare msg)) msg.mHash .prepared
    msg.view msg.number
  if !checked then return (n, [])
  if n.requestOf X msg.number msg.mHash = none then return (n, [])
  let log := n.log.recordMessageHandler X (.prepare msg)
  let currentCount := log.getLocalMessagesCountByHash (getMessageKey X (.prepare msg))
  let threshold ← checkedMul 2 n.state.faultToleranceCount
  if currentCount = threshold.toNat then
    return ({ n with log := log.updateRequestPhaseState msg.mHash .prepared },
      [.commit (n.signedCommit X currentPeerId msg)])
  return ({ n with log := log }, [])

/-- The CheckPoint that is broadcast when enough requests have been committed. -/
def checkpointMessage (n : Node) (currentPeerId : Bytes) : Option CheckPoint := do
  let number ← checkedAdd n.state.stableCheckpoint.1 stableCheckpointDelta
  return { currentMaxNumber := number, checkpointStateDigest := n.state.checkpointState,
           fromPeerId := currentPeerId, signature := "" }

def dueCheckpoints (n : Node) (currentPeerId : Bytes) : Option (List MessageType) :=
  let count := n.state.currentCommitedRequestCount
  if count ≠ 0 ∧ count % stableCheckpointDelta = 0 then
    (n.checkpointMessage currentPeerId).map fun checkpoint ↦ [.checkPoint checkpoint]
  else some []

/-- The Reply sent when a Commit completes the quorum. -/
def signedReply (n : Node) (currentPeerId : Bytes) (msg : Commit) (m : Request) : Reply :=
  let reply : Reply :=
    { clientId := m.clientId, timestamp := m.timestamp, number := msg.number, fromPeerId := currentPeerId,
      signature := [], result := asBytes "ok!", view := n.state.view }
  { reply with signature := X.sign n.keypair (asBytes (getMessageKey X (.reply reply))) }

/-- The branch of `handle_commit` in which the request `m` is committed. -/
def completeCommit (n : Node) (currentPeerId : Bytes) (msg : Commit) (m : Request) :
    Option (Node × List MessageType) := do
  let state := n.state.updateCheckpointState X msg.mHash
  let count ← checkedAdd state.currentCommitedRequestCount 1
  let n := { n with
    state := { state with currentCommitedRequestCount := count }
    log := n.log.removeCommitedRequest }
  let checkpoints ← n.dueCheckpoints currentPeerId
  return ({ n with log := n.log.updateRequestPhaseState msg.mHash .commited },
    checkpoints ++ [.reply (n.signedReply X currentPeerId msg m)])

def handleCommit (n : Node) (currentPeerId : Bytes) (msg : Commit) : Option (Node × List MessageType) := do
  let checked ← n.checkVote X msg.fromPeerId msg.signature (getMessageKey X (.commit msg)) msg.mHash .commited
    msg.view msg.number
  if !checked then return (n, [])
  match n.requestOf X msg.number msg.mHash with
  | none => return (n, [])
  | some m =>
    let n := { n with log := n.log.recordMessageHandler X (.commit msg) }
    let currentCount := n.log.getLocalMessagesCountByHash (getMessageKey X (.commit msg))
    let threshold ← checkedMul 2 n.state.faultToleranceCount
    if currentCount = threshold.toNat then n.completeCommit X currentPeerId msg m
    else return (n, [])

def handleReply (n : Node) (msg : Reply) : Option (Node × List MessageType) := do
  if n.state.clientState = .replied then return (n, [])
  let signed ← n.verifySignature X msg.fromPeerId msg.signature (getMessageKey X (.reply msg))
  if !signed then return (n, [])
  let n := { n with log := n.log.recordMessageHandler X (.reply msg) }
  let currentCount := n.log.getLocalMessagesCountByHash (getMessageKey X (.reply msg))
  let replyThreshold ← checkedAdd n.state.faultToleranceCount 1
  if currentCount = replyThreshold.toNat then
    -- the result is printed as text
    if validUtf8 msg.result then return ({ n with state := { n.state with clientState := .replied } }, [])
    else none
  else return (n, [])

/-! ## Checkpoints and keys -/

def handleCheckpoint (n : Node) (msg : CheckPoint) : Option (Node × List MessageType) := do
  let log := n.log.recordMessageHandler X (.checkPoint msg)
  let currentCheckpointCount := log.getCheckpointCount msg.currentMaxNumber msg.checkpointStateDigest
  let threshold ← checkedMul 2 n.state.faultToleranceCount
  if currentCheckpointCount = threshold.toNat then
    return ({ n with
      state := { n.state with stableCheckpoint := (msg.currentMaxNumber, msg.checkpointStateDigest) }
      log := log.discardMessagesBeforeStableCheckpoint X msg.currentMaxNumber }, [])
  return ({ n with log := log }, [])

def distributePublicKey (n : Node) (currentPeerId : Bytes) : List MessageType :=
  [.publicKey { pk := X.publicKey n.keypair, fromPeerId := currentPeerId }]

def storagePublicKeyByPeerId (n : Node) (key : PublicKey) : Option (Node × List MessageType) := do
  let entry ← dbKey key.fromPeerId
  let _peer ← X.peerIdFromBytes key.fromPeerId
  return ({ n with db := n.db.insert entry key.pk }, [])

/-- `message_handler` on a decoded message. -/
def messageHandler (n : Node) (currentPeerId : Bytes) (msg : MessageType) : Option (Node × List MessageType) :=
  match n.state.mode with
  | .normal =>
    match msg with
    | .request m => n.handleRequest X currentPeerId m
    | .prePrepare m => n.handlePreprepare X currentPeerId m
    | .prepare m => n.handlePrepare X currentPeerId m
    | .commit m => n.handleCommit X currentPeerId m
    | .reply m => n.handleReply X m
    | .checkPoint m => n.handleCheckpoint X m
    | .viewChange m => n.handleViewchange X currentPeerId m
    | .newView m => n.handleNewview X currentPeerId m
    | .distributePK => some (n, n.distributePublicKey X currentPeerId)
    | .publicKey m => n.storagePublicKeyByPeerId X m
  | .abnormal =>
    match msg with
    | .checkPoint m => n.handleCheckpoint X m
    | .viewChange m => n.handleViewchange X currentPeerId m
    | .newView m => n.handleNewview X currentPeerId m
    | _ => some (n, [])

end Node

/-- What the loop of a node calls on its executor. -/
inductive Event where
  | message (msg : MessageType)
  | viewchangeNotified

/-- One call of the node `currentPeerId`, with the messages that it sends. -/
def step (currentPeerId : Bytes) (n : Node) : Event → Option (Node × List MessageType)
  | .message msg => n.messageHandler X currentPeerId msg
  | .viewchangeNotified => n.broadcastViewchange X currentPeerId

end BFTDiagnosis.PbftExecutor
