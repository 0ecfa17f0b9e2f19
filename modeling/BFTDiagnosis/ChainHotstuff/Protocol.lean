import BFTDiagnosis.ChainHotstuff.Log
import BFTDiagnosis.Lib.Run

/-!
# The chained HotStuff protocol

`ChainHotstuffProtocol` of `protocols/src/chain_hotstuff/protocol.rs` with every message handler, the
view timeout and the reset. `none` is a panic, and the orders of hash maps are arguments, as in the
model of Basic HotStuff.

A replica that is the next leader keeps its own vote in the log and sends nothing, and
`replica_handle_generic` stores QCs in two fields, so an answer does not show everything a call does.
`Outcome` adds what is signed and which QCs of the proposal are stored.

Timers, notifications and printing are left out, and so are the fields that no handler reads:
`node_count`, `current_request`, `request_buffer`, `request_buffer_map`, `analyzer_id`, `phase_map`.
-/

namespace BFTDiagnosis.ChainHotstuff

open Components Utils Word Hotstuff

structure State where
  view : UInt64
  highQC : Option QC
  genericQC : Option QC
  lockedQC : Option QC
  currentLeader : Bytes
  nextLeader : Bytes
  faultToleranceCount : UInt64
  tf : UInt64
  currentViewTimeout : UInt64

/-- `State::new`, with the number of tolerated faults as a parameter instead of the constant 1. -/
def State.new (faultToleranceCount : UInt64) : State where
  view := 0
  highQC := none
  genericQC := none
  lockedQC := none
  currentLeader := []
  nextLeader := []
  faultToleranceCount := faultToleranceCount
  tf := 10
  currentViewTimeout := 10

structure ChainHotstuffProtocol where
  state : State
  log : Log
  consensusNodes : HashMap String PeerId
  pkConsensusNodes : HashMap UInt64 Bytes
  consensusNodePks : HashMap Bytes ConsensusNodePKInfo
  keypair : Option TBLSKey
  peerId : String
  takenRequests : Finset Bytes

def ChainHotstuffProtocol.new (faultToleranceCount : UInt64) (peerId : String) : ChainHotstuffProtocol where
  state := State.new faultToleranceCount
  log := Log.new
  consensusNodes := ∅
  pkConsensusNodes := ∅
  consensusNodePks := ∅
  keypair := none
  peerId := peerId
  takenRequests := ∅

/-- The answer of a call, the vote it signs, and the QCs of a proposal that it stores: the first in
`generic_qc`, the second in `locked_qc`. -/
structure Outcome where
  answer : Answer
  signed : Option Vote
  stored : List QC

/-- The outcome of a call that only answers. -/
def Outcome.of (answer : Answer) : Outcome where
  answer := answer
  signed := none
  stored := []

/-- The answer of a handler that stops without sending anything. -/
def silent : Answer := .continueExecute []

/-- Send another message first; other answers than these two are lost in `handle_request`. -/
def Outcome.sendFirst (outcome : Outcome) (send : SendType Payload) : Outcome :=
  { outcome with
    answer :=
      match outcome.answer with
      | .continueExecute queue => .continueExecute (send :: queue)
      | .complete request queue => .complete request (send :: queue)
      | _ => silent }

variable (X : Externals)

namespace ChainHotstuffProtocol

/-! ## Views and keys -/

/-- The leaders of a view and of the next one; the remainder panics without nodes, and an unassigned
number does too. -/
def changeLeader (p : ChainHotstuffProtocol) (viewNum : UInt64) : Option ChainHotstuffProtocol := do
  let nodeCount := p.pkConsensusNodes.len
  if nodeCount = 0 then none
  let nextViewNum ← checkedAdd viewNum 1
  let currentLeader ← p.pkConsensusNodes.lookup (viewNum % UInt64.ofNat nodeCount)
  let nextLeader ← p.pkConsensusNodes.lookup (nextViewNum % UInt64.ofNat nodeCount)
  return { p with state := { p.state with currentLeader := currentLeader, nextLeader := nextLeader } }

/-- `next_view`, with the messages it asks to send. -/
def nextView (p : ChainHotstuffProtocol) (currentPeerId : Bytes) :
    Option (ChainHotstuffProtocol × List (SendType Payload)) := do
  let nextView ← checkedAdd p.state.view 1
  let p ← p.changeLeader nextView
  if p.state.currentLeader = currentPeerId then
    return ({ p with state := { p.state with view := nextView } }, [])
  let leader ← X.peerIdFromBytes p.state.currentLeader
  let generic : Generic :=
    { viewNum := p.state.view, block := none, justify := p.state.genericQC, fromPeerId := currentPeerId }
  return ({ p with state := { p.state with view := nextView } },
    [.unicast leader (.message ⟨.generic generic⟩)])

def storageTblsKey (p : ChainHotstuffProtocol) (key : TBLSKey) : ChainHotstuffProtocol :=
  { p with keypair := some key }

/-- `storage_consensus_node_pk`, which starts a view but drops the messages for its leader. -/
def storageConsensusNodePk (p : ChainHotstuffProtocol) (order : List (Bytes × ConsensusNodePKInfo))
    (pksInfo : HashMap Bytes ConsensusNodePKInfo) (currentPeerId : Bytes) :
    Option (ChainHotstuffProtocol × Answer) :=
  if pksInfo.Listing order then do
    let pkConsensusNodes ← order.foldlM (storeNumber X.toExternals) p.pkConsensusNodes
    let (p, _) ← { p with pkConsensusNodes := pkConsensusNodes }.nextView X currentPeerId
    return (p, .overMessage none [])
  else none

def distributeKeys (p : ChainHotstuffProtocol) (currentPeerId randomness : Bytes)
    (order : List (String × PeerId)) (pkOrder : List (Bytes × ConsensusNodePKInfo)) :
    Option (ChainHotstuffProtocol × Answer) :=
  if p.consensusNodes.Listing order then do
    let keys := X.generateBlsKeys order p.state.faultToleranceCount randomness
    -- The source prints the first key, and panics when there is none.
    if keys = [] then none
    let consensusNodePks := HashMap.ofEntries (keys.map pkInfoOf)
    let keypair := keys.foldl (storeOwnKey X.toExternals p.peerId) p.keypair
    let p := { p with keypair := keypair, consensusNodePks := consensusNodePks }
    let (p, _) ← p.storageConsensusNodePk X pkOrder consensusNodePks currentPeerId
    return (p, .overMessage none
      ((keys.map fun keyInfo ↦ .unicast keyInfo.peerId (.message ⟨.tblsKey keyInfo.tblsKey⟩)) ++
        [.broadcast (.message ⟨.consensusNodePKsInfo pkOrder⟩)]))
  else none

def viewTimeoutStop (p : ChainHotstuffProtocol) : ChainHotstuffProtocol :=
  { p with state := { p.state with currentViewTimeout := p.state.tf } }

/-! ## Proposals -/

/-- `safe_node`, which lets every block without a QC pass. -/
def safeNode (p : ChainHotstuffProtocol) (block : Block) (qc : Option QC) : Bool :=
  match qc with
  | none => true
  | some qc =>
    match p.state.lockedQC with
    | some lockedQC => decide (lockedQC.viewNum < qc.viewNum) ||
        block.parentHash == getBlockHash X lockedQC.block
    | none => decide (0 < qc.viewNum) || block.parentHash == ""

/-- The vote of `replica_handle_generic`, if there is a key. The next leader records its own share
and stays in the view; every other replica sends the vote and goes on to the next view. -/
def castVote (p : ChainHotstuffProtocol) (block : Block) (currentPeerId : Bytes) :
    Option (ChainHotstuffProtocol × List (SendType Payload) × Option Vote) :=
  match p.keypair with
  | none => some (p, [], none)
  | some keypair => do
    let signMsgHash := getGenericHash X GENERIC p.state.view block
    let vote : Vote :=
      { viewNum := p.state.view, block := block,
        partialSignature := keypair.sign X.toBlsttc (asBytes signMsgHash), fromPeerId := currentPeerId }
    let pkInfo ← p.consensusNodePks.lookup vote.fromPeerId
    let leader ← X.peerIdFromBytes p.state.nextLeader
    let _current ← X.peerIdFromBytes p.state.currentLeader
    if currentPeerId = leader then
      return ({ p with
        log := p.log.recordMessgaePartialSignature signMsgHash pkInfo.number vote.partialSignature },
        [], some vote)
    let (p, queue) ← p.nextView X currentPeerId
    return (p, .unicast leader (.message ⟨.vote vote⟩) :: queue, some vote)

/-- The end of `replica_handle_generic`: the QC of the block is stored if the block is a child of the
block of the QC, the QC of the parent is locked if the parent is such a child too, and with three
links in a row the command of the great-grandparent is executed. No signature is looked at. -/
def formChain (state : State) (b1 : Block) : State × List QC × Option Request :=
  match b1.justify with
  | none => (state, [], none)
  | some qc1 =>
    let b2 := qc1.block
    if b1.parentHash ≠ getBlockHash X b2 then (state, [], none)
    else
      let state := { state with genericQC := b1.justify }
      match b2.justify with
      | none => (state, [qc1], none)
      | some qc2 =>
        let b3 := qc2.block
        if b2.parentHash ≠ getBlockHash X b3 then (state, [qc1], none)
        else
          let state := { state with lockedQC := b2.justify }
          match b3.justify with
          | none => (state, [qc1, qc2], none)
          | some qc3 =>
            let b4 := qc3.block
            if b3.parentHash ≠ getBlockHash X b4 then (state, [qc1, qc2], none)
            else (state, [qc1, qc2], some ⟨b4.cmd⟩)

/-- What follows the vote for a block: stop the timer and look at the chain below the block. -/
def conclude (p : ChainHotstuffProtocol) (queue : List (SendType Payload)) (signed : Option Vote)
    (b1 : Block) : ChainHotstuffProtocol × Outcome :=
  let (state, stored, request) := formChain X p.viewTimeoutStop.state b1
  let answer : Answer :=
    match request with
    | some request => .complete request queue
    | none => .continueExecute queue
  ({ p with state := state }, { answer := answer, signed := signed, stored := stored })

def replicaHandleGeneric (p : ChainHotstuffProtocol) (generic : Generic) (currentPeerId : Bytes) :
    Option (ChainHotstuffProtocol × Outcome) :=
  match generic.block with
  | none => some (p, .of silent)
  | some b1 =>
    if p.safeNode X b1 b1.justify then do
      let (p, queue, signed) ← p.castVote X b1 currentPeerId
      return p.conclude X queue signed b1
    else some (p, .of silent)

/-- `handle_newview_generic`; the messages for the leader of the next view are dropped. -/
def handleNewviewGeneric (p : ChainHotstuffProtocol) (generic : Generic) (currentPeerId : Bytes) :
    Option (ChainHotstuffProtocol × Outcome) := do
  let p := { p with log := p.log.recordGeneric generic.viewNum generic }
  let count := p.log.getGenericsCountByView generic.viewNum
  let threshold ← quorumSize p.state.faultToleranceCount
  if count = threshold.toNat then
    let highQC ← p.log.getHighQCByView generic.viewNum p.state.genericQC
    let (p, _) ← { p with state := { p.state with highQC := highQC, genericQC := highQC } }.nextView X
      currentPeerId
    return (p, .of (.over none))
  return (p, .of silent)

def handleGeneric (p : ChainHotstuffProtocol) (generic : Generic) (currentPeerId : Bytes) :
    Option (ChainHotstuffProtocol × Outcome) :=
  match generic.block with
  | none => p.handleNewviewGeneric X generic currentPeerId
  | some block =>
    let p := { p with takenRequests := insert (X.requestBytes ⟨block.cmd⟩) p.takenRequests }
    if p.state.view ≠ generic.viewNum then some (p, .of silent)
    else p.replicaHandleGeneric X generic currentPeerId

/-- The block that `handle_request` proposes: a child of the block of `high_qc`. -/
def proposedBlock (p : ChainHotstuffProtocol) (request : Request) : Block where
  cmd := request.cmd
  parentHash :=
    match p.state.highQC with
    | some qc => getBlockHash X qc.block
    | none => ""
  justify := p.state.highQC

/-- A leader broadcasts its proposal and handles it itself. -/
def handleRequest (p : ChainHotstuffProtocol) (request : Request) (currentPeerId : Bytes) :
    Option (ChainHotstuffProtocol × Outcome) := do
  let p := { p with takenRequests := insert (X.requestBytes request) p.takenRequests }
  let generic : Generic :=
    { viewNum := p.state.view, block := some (p.proposedBlock X request), justify := none,
      fromPeerId := currentPeerId }
  let (p, outcome) ← p.handleGeneric X generic currentPeerId
  return (p, outcome.sendFirst (.broadcast (.message ⟨.generic generic⟩)))

/-! ## Votes -/

/-- A leader records a verified share, and stores a QC when `2 * f + 1` voters are recorded. -/
def handleVote (p : ChainHotstuffProtocol) (vote : Vote) : Option (ChainHotstuffProtocol × Outcome) := do
  let genericMsgHash := getGenericHash X GENERIC vote.viewNum vote.block
  let pkInfo ← p.consensusNodePks.lookup vote.fromPeerId
  if !X.verifyShare pkInfo.publicKey vote.partialSignature (asBytes genericMsgHash) then
    return (p, .of silent)
  let p := { p with
    log := p.log.recordMessgaePartialSignature genericMsgHash pkInfo.number vote.partialSignature }
  let threshold ← quorumSize p.state.faultToleranceCount
  if p.log.getPartialSignaturesCountByMessageHash genericMsgHash ≠ threshold.toNat then
    return (p, .of silent)
  let partialSigs ← p.log.getPartialSignaturesByMessageHash genericMsgHash
  let keypair ← p.keypair
  let signature ← keypair.combinePartialSignatures X.toBlsttc partialSigs
  let qc : QC := { viewNum := vote.viewNum, block := vote.block, signature := some signature }
  return ({ p with state := { p.state with genericQC := some qc } }, .of silent)

/-! ## The calls of the actuator -/

/-- The answer at the end of `consensus_protocol_message_handler`, an empty broadcast. -/
def emptyBroadcast : Answer := .continueExecute [.broadcast .empty]

/-- `consensus_protocol_message_handler` on a decoded message. -/
def consensusProtocolMessageHandler (p : ChainHotstuffProtocol) (currentPeerId : Bytes)
    (order : List (Bytes × ConsensusNodePKInfo)) :
    MessageType → Option (ChainHotstuffProtocol × Outcome)
  | .request request => do
    let peer ← X.peerIdFromBytes currentPeerId
    p.handleRequest X request peer
  | .generic generic => do
    let peer ← X.peerIdFromBytes currentPeerId
    p.handleGeneric X generic peer
  | .vote vote => do
    let _peer ← X.peerIdFromBytes currentPeerId
    p.handleVote X vote
  | .tblsKey key => do
    let _peer ← X.peerIdFromBytes currentPeerId
    return (p.storageTblsKey key, .of emptyBroadcast)
  | .consensusNodePKsInfo entries => do
    let info := HashMap.ofEntries entries
    let peer ← X.peerIdFromBytes currentPeerId
    let (p, answer) ← { p with consensusNodePks := info }.storageConsensusNodePk X order info peer
    return (p, .of answer)
  | .init => some (p, .of emptyBroadcast)
  | .end _ => some (p, .of emptyBroadcast)

def extraInitialStart (p : ChainHotstuffProtocol) (consensusNodes : List PeerId)
    (currentPeerId randomness : Bytes) (order : List (String × PeerId))
    (pkOrder : List (Bytes × ConsensusNodePKInfo)) : Option (ChainHotstuffProtocol × Outcome) := do
  let map := HashMap.ofEntries (consensusNodes.map fun peer ↦ (X.peerIdString peer, peer))
  let peer ← X.peerIdFromBytes currentPeerId
  let (p, answer) ← { p with consensusNodes := map, peerId := X.peerIdString peer }.distributeKeys X peer
    randomness order pkOrder
  return (p, .of answer)

/-- `view_timeout_handler`; the doubled timeout may overflow. -/
def viewTimeoutHandler (p : ChainHotstuffProtocol) (currentPeerId : Bytes) :
    Option (ChainHotstuffProtocol × Outcome) := do
  let timeout ← checkedMul p.state.currentViewTimeout 2
  let (p, queue) ← { p with state := { p.state with currentViewTimeout := timeout } }.nextView X
    currentPeerId
  return (p, .of (.continueExecute queue))

/-- `protocol_reset` returns to the state of a new protocol, which tolerates one fault. -/
def protocolReset (_p : ChainHotstuffProtocol) (peerId : String) : ChainHotstuffProtocol :=
  ChainHotstuffProtocol.new 1 peerId

def isLeader (p : ChainHotstuffProtocol) (peerId : Bytes) : Bool := p.state.currentLeader == peerId

def checkTakenRequest (p : ChainHotstuffProtocol) (request : Bytes) : Bool :=
  decide (request ∈ p.takenRequests)

end ChainHotstuffProtocol

/-- What the actuator calls on the protocol, with the choices that the source leaves to hash maps and
random numbers. -/
inductive Event where
  | message (msg : MessageType) (order : List (Bytes × ConsensusNodePKInfo))
  | initialStart (consensusNodes : List PeerId) (randomness : Bytes) (order : List (String × PeerId))
      (pkOrder : List (Bytes × ConsensusNodePKInfo))
  | viewTimeout
  | protocolReset (peerId : String)

/-- One call of the actuator on the protocol of the node `currentPeerId`. -/
def step (currentPeerId : Bytes) (p : ChainHotstuffProtocol) :
    Event → Option (ChainHotstuffProtocol × Outcome)
  | .message msg order => p.consensusProtocolMessageHandler X currentPeerId order msg
  | .initialStart consensusNodes randomness order pkOrder =>
    p.extraInitialStart X consensusNodes currentPeerId randomness order pkOrder
  | .viewTimeout => p.viewTimeoutHandler X currentPeerId
  | .protocolReset peerId => some (p.protocolReset peerId, .of silent)

end BFTDiagnosis.ChainHotstuff
