import BFTDiagnosis.BasicHotstuff.Log
import BFTDiagnosis.HotstuffNode.Requests
import BFTDiagnosis.PbftExecutor.Executor

/-!
# The executor of the standalone HotStuff node

`consensus/src/basic_hotstuff/consensus_node/executor.rs` with every message handler. The handlers put their
messages into a channel that the event loop of the node empties, so a call returns the messages in the order in
which they are sent; `none` is a panic. Certificates, hashes and the log are the ones of the ported protocol, whose
files differ in nothing that a handler reads. A vote always carries its share here.

Public keys are kept in a database under `U512::from` of the peer id, and the keys of an earlier table stay when
another table arrives. What the database writes it also reads, and bincode returns what it was given.
-/

namespace BFTDiagnosis.HotstuffNode

open Components Utils Word Hotstuff BasicHotstuff
open PbftExecutor (dbKey)

structure Vote where
  viewNum : UInt64
  block : Block
  partialSignature : Bytes
  fromPeerId : Bytes
deriving DecidableEq

inductive MessageType where
  | request (request : Request)
  | newView (newview : NewView)
  | prepare (prepare : Prepare)
  | commit (commit : Commit)
  | preCommit (preCommit : PreCommit)
  | decide (decide : Decide)
  | prepareVote (vote : Vote)
  | commitVote (vote : Vote)
  | preCommitVote (vote : Vote)
  | «end» (requestHash : String)
  | tblsKey (key : TBLSKey)
  | consensusNodePKsInfo (entries : List (Bytes × ConsensusNodePKInfo))
deriving DecidableEq

structure State where
  view : UInt64
  highQC : Option QC
  prepareQC : Option QC
  lockedQC : Option QC
  primary : Bytes
  faultToleranceCount : UInt64
  tf : UInt64
  currentViewTimeout : UInt64
  mode : Mode

/-- `State::new`, with the number of tolerated faults as a parameter instead of the constant 1. -/
def State.new (faultToleranceCount : UInt64) : State where
  view := 0
  highQC := none
  prepareQC := none
  lockedQC := none
  primary := []
  faultToleranceCount := faultToleranceCount
  tf := 10
  currentViewTimeout := 10
  mode := .init

/-- `Executor`, with the stored permits of its two notifications. -/
structure Executor where
  state : State
  log : Log
  db : HashMap ℕ ConsensusNodePKInfo
  keypair : Option TBLSKey
  consensusNodes : HashMap UInt64 Bytes
  consensusNotify : Bool
  viewTimeoutNotify : Bool

/-- `Executor::new` on a new database. -/
def Executor.new (faultToleranceCount : UInt64) : Executor where
  state := State.new faultToleranceCount
  log := Log.new
  db := ∅
  keypair := none
  consensusNodes := ∅
  consensusNotify := false
  viewTimeoutNotify := false

/-- The message in which a vote of a phase travels. -/
def voteMessage : Phase → Vote → MessageType
  | .prepare => .prepareVote
  | .preCommit => .preCommitVote
  | .commit => .commitVote

/-- What `handle_newview` does with the mode when it has a quorum. -/
def Mode.proposing : Mode → Mode
  | .init => .do 0
  | .do n | .done n | .notIsLeader n => .do n

variable (X : BasicHotstuff.Externals)

namespace Executor

/-! ## Views and keys -/

/-- `get_public_key_info_by_peer_id`, which panics on a key that is too long or not stored. -/
def getPublicKeyInfoByPeerId (e : Executor) (peerId : Bytes) : Option ConsensusNodePKInfo := do
  let key ← dbKey peerId
  e.db.lookup key

def changeLeader (e : Executor) (viewNum : UInt64) : Option Executor := do
  let nodeCount := e.consensusNodes.len
  if nodeCount = 0 then none
  let primary ← e.consensusNodes.lookup (viewNum % UInt64.ofNat nodeCount)
  return { e with state := { e.state with primary := primary } }

def newview (e : Executor) (currentPeerId : Bytes) : Option (Executor × List MessageType) := do
  let nextView ← checkedAdd e.state.view 1
  let e ← e.changeLeader nextView
  let sent :=
    if e.state.primary = currentPeerId then []
    else
      [.newView { viewNum := e.state.view, justify := e.state.prepareQC, fromPeerId := currentPeerId }]
  let _peer ← X.peerIdFromBytes e.state.primary
  return ({ e with state := { e.state with view := nextView } }, sent)

def storageTblsKey (e : Executor) (currentPeerId : Bytes) (key : TBLSKey) : Option Executor := do
  let _peer ← X.peerIdFromBytes currentPeerId
  return { e with keypair := some key }

/-- One turn of the loop of `storage_consensus_node_pk`. -/
def storeNode (e : Executor) (entry : Bytes × ConsensusNodePKInfo) : Option Executor := do
  let key ← dbKey entry.1
  let _peer ← X.peerIdFromBytes entry.1
  return { e with
    db := e.db.insert key entry.2
    consensusNodes := e.consensusNodes.insert entry.2.number entry.1 }

/-- `storage_consensus_node_pk`, which visits the map in the given order and ends by starting a new view. -/
def storageConsensusNodePk (e : Executor) (order : List (Bytes × ConsensusNodePKInfo))
    (pksInfo : HashMap Bytes ConsensusNodePKInfo) (currentPeerId : Bytes) :
    Option (Executor × List MessageType) :=
  if pksInfo.Listing order then do
    let e ← order.foldlM (storeNode X) e
    e.newview X currentPeerId
  else none

def viewTimeoutStop (e : Executor) : Executor :=
  { e with state := { e.state with currentViewTimeout := e.state.tf } }

/-- `send_end_message`: the hash of the request of an executed block, for the node itself. -/
def endMessage (block : Block) : MessageType := .end (getRequestHash X.toPlatform ⟨block.cmd⟩)

/-! ## Proposals -/

def safeNode (e : Executor) (block : Block) (qc : QC) : Bool :=
  match e.state.lockedQC with
  | some lockedQC => decide (lockedQC.viewNum < qc.viewNum) ||
      block.parentHash == getBlockHash X lockedQC.block
  | none => decide (0 < qc.viewNum) || block.parentHash == ""

def handleNewview (e : Executor) (newview : NewView) : Option (Executor × List MessageType) := do
  let e := { e with log := e.log.recordNewview newview.viewNum newview }
  let count := e.log.getNewviewsCountByView newview.viewNum
  let threshold ← quorumSize e.state.faultToleranceCount
  if count = threshold.toNat then
    let highQC ← e.log.getHighQCByView newview.viewNum e.state.prepareQC
    return ({ e with state := { e.state with highQC := highQC, mode := e.state.mode.proposing } }, [])
  return (e, [])

def handleRequest (e : Executor) (request : Request) (currentPeerId : Bytes) : List MessageType :=
  let parentHash :=
    match e.state.highQC with
    | some qc => getBlockHash X qc.block
    | none => ""
  [.prepare
    { viewNum := e.state.view, block := { cmd := request.cmd, parentHash := parentHash },
      justify := e.state.highQC, fromPeerId := currentPeerId }]

/-- The vote at the end of the three voting handlers. -/
def sendVote (e : Executor) (currentPeerId : Bytes) (phase : Phase) (viewNum : UInt64) (block : Block) :
    List MessageType :=
  match e.keypair with
  | none => []
  | some keypair =>
    [voteMessage phase
      { viewNum := viewNum, block := block,
        partialSignature := keypair.sign X.toBlsttc (asBytes (voteHash X phase viewNum block)),
        fromPeerId := currentPeerId }]

/-- The checks of `handle_prepare`. -/
def checkPrepare (e : Executor) (prepare : Prepare) : Bool :=
  match prepare.justify with
  | none => prepare.block.parentHash == ""
  | some qc => getBlockHash X qc.block == prepare.block.parentHash && e.safeNode X prepare.block qc

def handlePrepare (e : Executor) (prepare : Prepare) (currentPeerId : Bytes) : Executor × List MessageType :=
  if e.checkPrepare X prepare then
    let e := { e with state := { e.state with primary := prepare.fromPeerId } }
    (e, e.sendVote X currentPeerId .prepare prepare.viewNum prepare.block)
  else (e, [])

/-! ## Certificates -/

/-- The checks of `handle_precommit`, `handle_commit` and `handle_decide`. The inner `none` rejects the message;
the outer one is the panic of a replica without a key. -/
def checkQC (e : Executor) (phase : Phase) (justify : Option QC) : Option (Option QC) :=
  match justify with
  | none => some none
  | some justify =>
    match justify.signature with
    | none => some none
    | some signature =>
      if justify.msgType ≠ phase.code ∨ justify.viewNum ≠ e.state.view then some none
      else do
        let keypair ← e.keypair
        if keypair.thresholdVerify X.toBlsttc signature
            (asBytes (voteHash X phase justify.viewNum justify.block)) then
          return some justify
        return none

def handlePrecommit (e : Executor) (preCommit : PreCommit) (currentPeerId : Bytes) :
    Option (Executor × List MessageType) := do
  match ← e.checkQC X .prepare preCommit.justify with
  | none => return (e, [])
  | some justify =>
    let e := { e with state := { e.state with prepareQC := some justify } }
    return (e, e.sendVote X currentPeerId .preCommit preCommit.viewNum justify.block)

def handleCommit (e : Executor) (commit : Commit) (currentPeerId : Bytes) :
    Option (Executor × List MessageType) := do
  match ← e.checkQC X .preCommit commit.justify with
  | none => return (e, [])
  | some justify =>
    let e := { e with state := { e.state with lockedQC := some justify } }
    return (e, e.sendVote X currentPeerId .commit commit.viewNum justify.block)

/-- The end of the request is sent before the NewView. -/
def handleDecide (e : Executor) (decide : Decide) (currentPeerId : Bytes) :
    Option (Executor × List MessageType) := do
  match ← e.checkQC X .commit decide.justify with
  | none => return (e, [])
  | some justify =>
    let (e, sent) ← e.viewTimeoutStop.newview X currentPeerId
    return (e, endMessage X justify.block :: sent)

/-! ## Votes -/

/-- The body shared by the three handlers of a vote. -/
def collectVote (e : Executor) (phase : Phase) (vote : Vote) : Option (Executor × Option QC) := do
  let msgHash := voteHash X phase vote.viewNum vote.block
  let pkInfo ← e.getPublicKeyInfoByPeerId vote.fromPeerId
  if !X.verifyShare pkInfo.publicKey vote.partialSignature (asBytes msgHash) then return (e, none)
  let e := { e with
    log := e.log.recordMessgaePartialSignature msgHash pkInfo.number vote.partialSignature }
  let threshold ← quorumSize e.state.faultToleranceCount
  if e.log.getPartialSignaturesCountByMessageHash msgHash ≠ threshold.toNat then return (e, none)
  let partialSigs ← e.log.getPartialSignaturesByMessageHash msgHash
  let keypair ← e.keypair
  let signature ← keypair.combinePartialSignatures X.toBlsttc partialSigs
  return (e, some
    { msgType := phase.code, viewNum := vote.viewNum, block := vote.block, signature := some signature })

def handlePrepareVote (e : Executor) (vote : Vote) : Option (Executor × List MessageType) := do
  match ← e.collectVote X .prepare vote with
  | (e, none) => return (e, [])
  | (e, some prepareQC) =>
    return (e, [.preCommit { viewNum := vote.viewNum, justify := some prepareQC }])

def handlePrecommitVote (e : Executor) (vote : Vote) : Option (Executor × List MessageType) := do
  match ← e.collectVote X .preCommit vote with
  | (e, none) => return (e, [])
  | (e, some precommitQC) =>
    return (e, [.commit { viewNum := vote.viewNum, justify := some precommitQC }])

def handleCommitVote (e : Executor) (vote : Vote) (currentPeerId : Bytes) :
    Option (Executor × List MessageType) := do
  match ← e.collectVote X .commit vote with
  | (e, none) => return (e, [])
  | (e, some commitQC) =>
    let (e, sent) ← e.viewTimeoutStop.newview X currentPeerId
    return (e,
      .decide { viewNum := vote.viewNum, justify := some commitQC } :: endMessage X vote.block :: sent)

/-! ## The calls of the node -/

/-- `message_handler` on a decoded message. -/
def messageHandler (e : Executor) (currentPeerId : Bytes) (order : List (Bytes × ConsensusNodePKInfo)) :
    MessageType → Option (Executor × List MessageType)
  | .request msg => some (e, e.handleRequest X msg currentPeerId)
  | .newView msg => e.handleNewview msg
  | .prepare msg => some (e.handlePrepare X msg currentPeerId)
  | .prepareVote msg => e.handlePrepareVote X msg
  | .preCommit msg => e.handlePrecommit X msg currentPeerId
  | .preCommitVote msg => e.handlePrecommitVote X msg
  | .commit msg => e.handleCommit X msg currentPeerId
  | .commitVote msg => e.handleCommitVote X msg currentPeerId
  | .decide msg => e.handleDecide X msg currentPeerId
  | .tblsKey key => (e.storageTblsKey X currentPeerId key).map (·, [])
  | .consensusNodePKsInfo entries =>
    e.storageConsensusNodePk X order (HashMap.ofEntries entries) currentPeerId
  | .end _ => some (e, [])

/-- What the node does when a view has timed out; the doubled timeout may overflow. -/
def viewTimeout (e : Executor) (currentPeerId : Bytes) : Option (Executor × List MessageType) := do
  let timeout ← checkedMul e.state.currentViewTimeout 2
  newview X { e with state := { e.state with currentViewTimeout := timeout } } currentPeerId

/-- The calls of the node on its executor, with the order in which a table is visited. -/
inductive Call where
  | message (msg : MessageType) (order : List (Bytes × ConsensusNodePKInfo))
  | viewTimeout

/-- One call of the node `currentPeerId` on its executor, with the messages put into the channel. -/
def step (currentPeerId : Bytes) (e : Executor) : Call → Option (Executor × List MessageType)
  | .message msg order => e.messageHandler X currentPeerId order msg
  | .viewTimeout => e.viewTimeout X currentPeerId

end Executor

end BFTDiagnosis.HotstuffNode
