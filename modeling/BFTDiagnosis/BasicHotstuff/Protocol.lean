import BFTDiagnosis.BasicHotstuff.Log
import BFTDiagnosis.Lib.Run

/-!
# The Basic HotStuff protocol

`BasicHotstuffProtocol` of `protocols/src/basic_hotstuff/protocol.rs` with every message handler, the
view timeout and the reset. `none` is a panic, as in the model of PBFT. The three handlers of a
certificate share their checks, and so do the three handlers of a vote; they are applications of
`checkQC`, `sendVote` and `collectVote` to their phase.

The order in which a hash map is visited matters when it assigns key numbers to nodes and when two
entries carry one number, so a call takes it as an argument; a list that is not an order of the map
is no call. Timers, notifications and printing are left out, and so are the fields `commit_qc`,
`node_count` and `current_id` of the state, which no handler reads.
-/

namespace BFTDiagnosis.BasicHotstuff

open Components Utils Word Hotstuff

structure State where
  view : UInt64
  highQC : Option QC
  prepareQC : Option QC
  lockedQC : Option QC
  primary : Bytes
  faultToleranceCount : UInt64
  tf : UInt64
  currentViewTimeout : UInt64
  currentRequest : Request

/-- `State::new`, with the number of tolerated faults as a parameter instead of the constant 1. -/
def State.new (faultToleranceCount : UInt64) : State where
  view := 0
  highQC := none
  prepareQC := none
  lockedQC := none
  primary := []
  faultToleranceCount := faultToleranceCount
  tf := 10
  currentViewTimeout := 10
  currentRequest := ⟨"None"⟩

structure BasicHotstuffProtocol where
  state : State
  log : Log
  peerId : String
  keypair : Option TBLSKey
  consensusNodes : HashMap String PeerId
  pkConsensusNodes : HashMap UInt64 Bytes
  consensusNodePks : HashMap Bytes ConsensusNodePKInfo

/-- `BasicHotstuffProtocol::default`; the source draws a random peer id as placeholder. -/
def BasicHotstuffProtocol.new (faultToleranceCount : UInt64) (peerId : String) :
    BasicHotstuffProtocol where
  state := State.new faultToleranceCount
  log := Log.new
  peerId := peerId
  keypair := none
  consensusNodes := ∅
  pkConsensusNodes := ∅
  consensusNodePks := ∅

/-- The message in which a vote of a phase travels. -/
def Phase.voteMessage : Phase → Vote → MessageType
  | .prepare => .prepareVote
  | .preCommit => .preCommitVote
  | .commit => .commitVote

variable (X : Externals)

namespace BasicHotstuffProtocol

/-- The answer of a handler that stops without sending anything. -/
def silent : Answer := .continueExecute []

/-! ## Views and keys -/

def getPublicKeyInfoByPeerId (p : BasicHotstuffProtocol) (peerId : Bytes) : Option ConsensusNodePKInfo :=
  p.consensusNodePks.lookup peerId

/-- The leader of a view; the remainder panics without nodes, and an unassigned number does too. -/
def changeLeader (p : BasicHotstuffProtocol) (viewNum : UInt64) : Option BasicHotstuffProtocol := do
  let nodeCount := p.pkConsensusNodes.len
  if nodeCount = 0 then none
  let primary ← p.pkConsensusNodes.lookup (viewNum % UInt64.ofNat nodeCount)
  return { p with state := { p.state with primary := primary } }

def newview (p : BasicHotstuffProtocol) (currentPeerId : Bytes) :
    Option (BasicHotstuffProtocol × Answer) := do
  let nextView ← checkedAdd p.state.view 1
  let p ← p.changeLeader nextView
  let leader ← X.peerIdFromBytes p.state.primary
  let queue :=
    if p.state.primary = currentPeerId then []
    else
      [.unicast leader (.message ⟨.newView
        { viewNum := p.state.view, justify := p.state.prepareQC, fromPeerId := currentPeerId }⟩)]
  return ({ p with state := { p.state with view := nextView } }, .continueExecute queue)

def storageTblsKey (p : BasicHotstuffProtocol) (key : TBLSKey) : BasicHotstuffProtocol :=
  { p with keypair := some key }

/-- `storage_consensus_node_pk`, which ends by starting a new view. -/
def storageConsensusNodePk (p : BasicHotstuffProtocol) (order : List (Bytes × ConsensusNodePKInfo))
    (pksInfo : HashMap Bytes ConsensusNodePKInfo) (currentPeerId : Bytes) :
    Option (BasicHotstuffProtocol × Answer) :=
  if pksInfo.Listing order then do
    let pkConsensusNodes ← order.foldlM (storeNumber X.toExternals) p.pkConsensusNodes
    newview X { p with pkConsensusNodes := pkConsensusNodes } currentPeerId
  else none

def viewTimeoutStop (p : BasicHotstuffProtocol) : BasicHotstuffProtocol :=
  { p with state := { p.state with currentViewTimeout := p.state.tf } }

def distributeKeys (p : BasicHotstuffProtocol) (currentPeerId randomness : Bytes)
    (order : List (String × PeerId)) (pkOrder : List (Bytes × ConsensusNodePKInfo)) :
    Option (BasicHotstuffProtocol × Answer) :=
  if p.consensusNodes.Listing order then do
    let keys := X.generateBlsKeys order p.state.faultToleranceCount randomness
    -- The source prints the first key, and panics when there is none.
    if keys = [] then none
    let consensusNodePks := HashMap.ofEntries (keys.map pkInfoOf)
    let keypair := keys.foldl (storeOwnKey X.toExternals p.peerId) p.keypair
    let p := { p with keypair := keypair, consensusNodePks := consensusNodePks }
    let (p, answer) ← p.storageConsensusNodePk X pkOrder consensusNodePks currentPeerId
    return (p, .continueExecute
      ((keys.map fun keyInfo ↦ .unicast keyInfo.peerId (.message ⟨.tblsKey keyInfo.tblsKey⟩)) ++
        .broadcast (.message ⟨.consensusNodePKsInfo pkOrder⟩) :: answer.queue))
  else none

/-! ## Proposals -/

def safeNode (p : BasicHotstuffProtocol) (block : Block) (qc : QC) : Bool :=
  match p.state.lockedQC with
  | some lockedQC => decide (lockedQC.viewNum < qc.viewNum) ||
      block.parentHash == getBlockHash X lockedQC.block
  | none => decide (0 < qc.viewNum) || block.parentHash == ""

def handleNewview (p : BasicHotstuffProtocol) (newview : NewView) :
    Option (BasicHotstuffProtocol × Answer) := do
  let p := { p with log := p.log.recordNewview newview.viewNum newview }
  let count := p.log.getNewviewsCountByView newview.viewNum
  let threshold ← quorumSize p.state.faultToleranceCount
  if count = threshold.toNat then
    let highQC ← p.log.getHighQCByView newview.viewNum p.state.prepareQC
    return ({ p with state := { p.state with highQC := highQC } }, .over none)
  return (p, silent)

def handleRequest (p : BasicHotstuffProtocol) (request : Request) (currentPeerId : Bytes) : Answer :=
  let parentHash :=
    match p.state.highQC with
    | some qc => getBlockHash X qc.block
    | none => ""
  let prepare : Prepare :=
    { viewNum := p.state.view, block := { cmd := request.cmd, parentHash := parentHash },
      justify := p.state.highQC, fromPeerId := currentPeerId }
  .continueExecute [.broadcast (.message ⟨.prepare prepare⟩)]

/-- The vote at the end of the three voting handlers: a share for the leader, if there is a key. -/
def sendVote (p : BasicHotstuffProtocol) (currentPeerId : Bytes) (phase : Phase) (viewNum : UInt64)
    (block : Block) : Option Answer :=
  match p.keypair with
  | none => some silent
  | some keypair => do
    let vote : Vote :=
      { viewNum := viewNum, block := block,
        partialSignature := some (keypair.sign X.toBlsttc (asBytes (voteHash X phase viewNum block))),
        fromPeerId := currentPeerId }
    let leader ← X.peerIdFromBytes p.state.primary
    return .continueExecute [.unicast leader (.message ⟨phase.voteMessage vote⟩)]

/-- The checks of `handle_prepare`. A proposal without a QC does not pass through `safe_node`, and
its view is not compared with the view of the replica. -/
def checkPrepare (p : BasicHotstuffProtocol) (prepare : Prepare) : Bool :=
  match prepare.justify with
  | none => prepare.block.parentHash == ""
  | some qc => getBlockHash X qc.block == prepare.block.parentHash && p.safeNode X prepare.block qc

def handlePrepare (p : BasicHotstuffProtocol) (prepare : Prepare) (currentPeerId : Bytes) :
    Option (BasicHotstuffProtocol × Answer) :=
  if p.checkPrepare X prepare then do
    let p := { p with state := { p.state with primary := prepare.fromPeerId } }
    let answer ← p.sendVote X currentPeerId .prepare prepare.viewNum prepare.block
    return (p, answer)
  else some (p, silent)

/-! ## Certificates -/

/-- The checks of `handle_precommit`, `handle_commit` and `handle_decide`: there is a QC with a
signature, it is of the phase and of the current view, and the signature verifies. The inner `none`
rejects the message; the outer one is the panic of a replica without a key. -/
def checkQC (p : BasicHotstuffProtocol) (phase : Phase) (justify : Option QC) : Option (Option QC) :=
  match justify with
  | none => some none
  | some justify =>
    match justify.signature with
    | none => some none
    | some signature =>
      if justify.msgType ≠ phase.code ∨ justify.viewNum ≠ p.state.view then some none
      else do
        let keypair ← p.keypair
        if keypair.thresholdVerify X.toBlsttc signature
            (asBytes (voteHash X phase justify.viewNum justify.block)) then
          return some justify
        return none

def handlePrecommit (p : BasicHotstuffProtocol) (preCommit : PreCommit) (currentPeerId : Bytes) :
    Option (BasicHotstuffProtocol × Answer) := do
  match ← p.checkQC X .prepare preCommit.justify with
  | none => return (p, silent)
  | some justify =>
    let p := { p with state := { p.state with prepareQC := some justify } }
    let answer ← p.sendVote X currentPeerId .preCommit preCommit.viewNum justify.block
    return (p, answer)

def handleCommit (p : BasicHotstuffProtocol) (commit : Commit) (currentPeerId : Bytes) :
    Option (BasicHotstuffProtocol × Answer) := do
  match ← p.checkQC X .preCommit commit.justify with
  | none => return (p, silent)
  | some justify =>
    let p := { p with state := { p.state with lockedQC := some justify } }
    let answer ← p.sendVote X currentPeerId .commit commit.viewNum justify.block
    return (p, answer)

def handleDecide (p : BasicHotstuffProtocol) (decide : Decide) (currentPeerId : Bytes) :
    Option (BasicHotstuffProtocol × Answer) := do
  match ← p.checkQC X .commit decide.justify with
  | none => return (p, silent)
  | some justify =>
    let (p, answer) ← newview X p.viewTimeoutStop currentPeerId
    return (p, .complete ⟨justify.block.cmd⟩ answer.queue)

/-! ## Votes -/

/-- The body shared by the three handlers of a vote: verify the share under the key registered for
its voter, record it, and form a QC when `2 * f + 1` voters are recorded. -/
def collectVote (p : BasicHotstuffProtocol) (phase : Phase) (vote : Vote) :
    Option (BasicHotstuffProtocol × Option QC) := do
  let msgHash := voteHash X phase vote.viewNum vote.block
  let pkInfo ← p.getPublicKeyInfoByPeerId vote.fromPeerId
  let share ← vote.partialSignature
  if !X.verifyShare pkInfo.publicKey share (asBytes msgHash) then return (p, none)
  let p := { p with log := p.log.recordMessgaePartialSignature msgHash pkInfo.number share }
  let threshold ← quorumSize p.state.faultToleranceCount
  if p.log.getPartialSignaturesCountByMessageHash msgHash ≠ threshold.toNat then return (p, none)
  let partialSigs ← p.log.getPartialSignaturesByMessageHash msgHash
  let keypair ← p.keypair
  let signature ← keypair.combinePartialSignatures X.toBlsttc partialSigs
  return (p, some
    { msgType := phase.code, viewNum := vote.viewNum, block := vote.block, signature := some signature })

def handlePrepareVote (p : BasicHotstuffProtocol) (vote : Vote) :
    Option (BasicHotstuffProtocol × Answer) := do
  match ← p.collectVote X .prepare vote with
  | (p, none) => return (p, silent)
  | (p, some prepareQC) => return (p, .continueExecute [.broadcast (.message
      ⟨.preCommit { viewNum := vote.viewNum, justify := some prepareQC }⟩)])

def handlePrecommitVote (p : BasicHotstuffProtocol) (vote : Vote) :
    Option (BasicHotstuffProtocol × Answer) := do
  match ← p.collectVote X .preCommit vote with
  | (p, none) => return (p, silent)
  | (p, some precommitQC) => return (p, .continueExecute [.broadcast (.message
      ⟨.commit { viewNum := vote.viewNum, justify := some precommitQC }⟩)])

/-- A commit QC also completes the request and starts the next view of the leader. -/
def handleCommitVote (p : BasicHotstuffProtocol) (vote : Vote) (currentPeerId : Bytes) :
    Option (BasicHotstuffProtocol × Answer) := do
  match ← p.collectVote X .commit vote with
  | (p, none) => return (p, silent)
  | (p, some commitQC) =>
    let (p, answer) ← newview X p.viewTimeoutStop currentPeerId
    return (p, .complete ⟨commitQC.block.cmd⟩
      (.broadcast (.message ⟨.decide { viewNum := vote.viewNum, justify := some commitQC }⟩) ::
        answer.queue))

/-! ## The calls of the actuator -/

/-- The answer at the end of `consensus_protocol_message_handler`, an empty broadcast. -/
def emptyBroadcast : Answer := .continueExecute [.broadcast .empty]

/-- `consensus_protocol_message_handler` on a decoded message. -/
def consensusProtocolMessageHandler (p : BasicHotstuffProtocol) (currentPeerId : Bytes)
    (order : List (Bytes × ConsensusNodePKInfo)) :
    MessageType → Option (BasicHotstuffProtocol × Answer)
  | .request msg =>
    let p := { p with state := { p.state with currentRequest := msg } }
    some (p, p.handleRequest X msg currentPeerId)
  | .newView msg => p.handleNewview msg
  | .prepare msg => p.handlePrepare X msg currentPeerId
  | .commit msg => p.handleCommit X msg currentPeerId
  | .preCommit msg => p.handlePrecommit X msg currentPeerId
  | .decide msg => p.handleDecide X msg currentPeerId
  | .prepareVote msg => p.handlePrepareVote X msg
  | .commitVote msg => p.handleCommitVote X msg currentPeerId
  | .preCommitVote msg => p.handlePrecommitVote X msg
  | .end _ => some (p, emptyBroadcast)
  | .tblsKey key => do
    let _peer ← X.peerIdFromBytes currentPeerId
    return (p.storageTblsKey key, emptyBroadcast)
  | .consensusNodePKsInfo entries => do
    let info := HashMap.ofEntries entries
    let peer ← X.peerIdFromBytes currentPeerId
    { p with consensusNodePks := info }.storageConsensusNodePk X order info peer

def extraInitialStart (p : BasicHotstuffProtocol) (consensusNodes : List PeerId)
    (currentPeerId randomness : Bytes) (order : List (String × PeerId))
    (pkOrder : List (Bytes × ConsensusNodePKInfo)) : Option (BasicHotstuffProtocol × Answer) := do
  let map := HashMap.ofEntries (consensusNodes.map fun peer ↦ (X.peerIdString peer, peer))
  let peer ← X.peerIdFromBytes currentPeerId
  { p with consensusNodes := map, peerId := X.peerIdString peer }.distributeKeys X peer randomness
    order pkOrder

/-- `view_timeout_handler`; the doubled timeout may overflow. -/
def viewTimeoutHandler (p : BasicHotstuffProtocol) (currentPeerId : Bytes) :
    Option (BasicHotstuffProtocol × Answer) := do
  let timeout ← checkedMul p.state.currentViewTimeout 2
  newview X { p with state := { p.state with currentViewTimeout := timeout } } currentPeerId

/-- `protocol_reset` returns to the state of a new protocol, which tolerates one fault. -/
def protocolReset (_p : BasicHotstuffProtocol) (peerId : String) : BasicHotstuffProtocol :=
  BasicHotstuffProtocol.new 1 peerId

end BasicHotstuffProtocol

/-- What the actuator calls on the protocol, with the choices that the source leaves to hash maps and
random numbers. -/
inductive Event where
  | message (msg : MessageType) (order : List (Bytes × ConsensusNodePKInfo))
  | initialStart (consensusNodes : List PeerId) (randomness : Bytes) (order : List (String × PeerId))
      (pkOrder : List (Bytes × ConsensusNodePKInfo))
  | viewTimeout
  | protocolReset (peerId : String)

/-- One call of the actuator on the protocol of the node `currentPeerId`. -/
def step (currentPeerId : Bytes) (p : BasicHotstuffProtocol) :
    Event → Option (BasicHotstuffProtocol × Answer)
  | .message msg order => p.consensusProtocolMessageHandler X currentPeerId order msg
  | .initialStart consensusNodes randomness order pkOrder =>
    p.extraInitialStart X consensusNodes currentPeerId randomness order pkOrder
  | .viewTimeout => p.viewTimeoutHandler X currentPeerId
  | .protocolReset peerId => some (p.protocolReset peerId, BasicHotstuffProtocol.silent)

end BFTDiagnosis.BasicHotstuff
