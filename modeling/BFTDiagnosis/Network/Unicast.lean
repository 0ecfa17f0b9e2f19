import BFTDiagnosis.ChainHotstuff.Certification
import BFTDiagnosis.ChainHotstuff.Network
import BFTDiagnosis.Lib.Wire

/-!
# Unicast messages

`Unicast` of `network/src/p2p_protocols/unicast`, which hands a message to the connection of a known and
connected peer, and the two ends of its protocol. The sending end writes a serialized message of any length;
the receiving end reads at most 6000 bytes. A message arrives exactly when the data and the id of the sender
leave room for the 44 other bytes. A vote of chained HotStuff carries its block with all blocks below it, so
the votes of a long enough chain do not arrive.

The codecs of bincode and libp2p are parameters; `Codec.Lawful` is what is documented of them, and
`Codec.standard` is their format. The filter of received messages, which nothing reads, is left out.
-/

namespace BFTDiagnosis.Network

open Components Word Wire

structure UnicastMessage where
  source : Bytes
  data : Bytes
  sequenceNumber : Bytes
deriving DecidableEq

/-- The functions of bincode and libp2p that the two ends call. -/
structure Codec where
  /-- `bincode::serialize`. -/
  serialize : UnicastMessage → Bytes
  /-- `bincode::deserialize`, where `none` is the error. -/
  deserialize : Bytes → Option UnicastMessage
  /-- `upgrade::write_length_prefixed`: what it puts on the socket. -/
  writeLengthPrefixed : Bytes → Bytes
  /-- `upgrade::read_length_prefixed`, where `none` is the error. -/
  readLengthPrefixed : Bytes → ℕ → Option Bytes

/-- The documented behaviour of the codecs. Lengths are 64-bit words, so that a message has to fit. -/
structure Codec.Lawful (C : Codec) : Prop where
  deserialize_serialize : ∀ msg, msg.source.length < 2 ^ 64 → msg.data.length < 2 ^ 64 →
    msg.sequenceNumber.length < 2 ^ 64 → C.deserialize (C.serialize msg) = some msg
  length_serialize : ∀ msg, (C.serialize msg).length =
    24 + msg.source.length + msg.data.length + msg.sequenceNumber.length
  read_write : ∀ packet max, C.readLengthPrefixed (C.writeLengthPrefixed packet) max =
    if packet.length ≤ max then some packet else none

inductive UnicastDecodeError where
  | readError
  | invalidPeerId
deriving DecidableEq

/-- `NetworkBehaviourAction`, as far as `Unicast` uses it. -/
inductive Action where
  | dial (peerId : PeerId)
  | notifyHandler (peerId : PeerId) (event : UnicastMessage)
  | generateEvent (message : UnicastMessage)
deriving DecidableEq

structure Unicast where
  events : List Action
  localPeerId : PeerId
  canSendPeers : List PeerId
  connectedPeers : Finset PeerId

namespace Unicast

def new (localPeerId : PeerId) : Unicast where
  events := []
  localPeerId := localPeerId
  canSendPeers := []
  connectedPeers := ∅

def addNodeToPartialView (unicast : Unicast) (peerId : PeerId) : Unicast :=
  { unicast with
    canSendPeers := unicast.canSendPeers ++ [peerId]
    events := unicast.events ++ [.dial peerId] }

/-- `inject_connection_established` for the first connection to a peer. -/
def injectConnectionEstablished (unicast : Unicast) (id : PeerId) : Unicast :=
  { unicast with connectedPeers := insert id unicast.connectedPeers }

/-- `send_message`, with the random sequence number as an argument. -/
def sendMessage (unicast : Unicast) (recvPeerId : PeerId) (data : Bytes) (sequenceNumber : Vector UInt8 20) :
    Unicast :=
  let message : UnicastMessage :=
    { source := unicast.localPeerId, data := data, sequenceNumber := sequenceNumber.toList }
  if recvPeerId ∈ unicast.canSendPeers ∧ recvPeerId ∈ unicast.connectedPeers then
    { unicast with events := unicast.events ++ [.notifyHandler recvPeerId message] }
  else unicast

end Unicast

/-! ## The two ends of the protocol -/

variable (C : Codec)

/-- `UnicastMessage::upgrade_outbound`: what is written to the socket. -/
def upgradeOutbound (message : UnicastMessage) : Bytes := C.writeLengthPrefixed (C.serialize message)

/-- `UnicastProtocol::upgrade_inbound`; a packet that cannot be deserialized panics. -/
def upgradeInbound (socket : Bytes) : Option (Except UnicastDecodeError UnicastMessage) :=
  match C.readLengthPrefixed socket 6000 with
  | none => some (.error .readError)
  | some packet => (C.deserialize packet).map .ok

/-- The data is handed to the connection of the peer in a message that the other end decodes. -/
def Arrives (unicast : Unicast) (recvPeerId : PeerId) (data : Bytes) (sequenceNumber : Vector UInt8 20) :
    Prop :=
  ∃ message : UnicastMessage, message.source = unicast.localPeerId ∧ message.data = data ∧
    (unicast.sendMessage recvPeerId data sequenceNumber).events =
      unicast.events ++ [.notifyHandler recvPeerId message] ∧
    upgradeInbound C (upgradeOutbound C message) = some (.ok message)

variable {C}

/-- The other end decodes a message exactly when its serialization has at most 6000 bytes. -/
theorem upgradeInbound_upgradeOutbound (hC : C.Lawful) (message : UnicastMessage) :
    upgradeInbound C (upgradeOutbound C message) = some (.ok message) ↔
      (C.serialize message).length ≤ 6000 := by
  rw [upgradeInbound, upgradeOutbound, hC.read_write]
  constructor
  · intro h
    by_contra hlong
    rw [if_neg hlong] at h
    simp at h
  · intro hshort
    have hlength := hC.length_serialize message
    rw [if_pos hshort]
    simp only [hC.deserialize_serialize message (by omega) (by omega) (by omega), Option.map_some]

/-- What is sent to a known and connected peer arrives if and only if the id of the sender and the data
together have at most 5956 bytes. -/
theorem arrives_iff_length_le (hC : C.Lawful) (unicast : Unicast) {peer : PeerId}
    (hknown : peer ∈ unicast.canSendPeers) (hconnected : peer ∈ unicast.connectedPeers) (data : Bytes)
    (sequenceNumber : Vector UInt8 20) :
    Arrives C unicast peer data sequenceNumber ↔ unicast.localPeerId.length + data.length ≤ 5956 := by
  have hlength (message : UnicastMessage) (hsource : message.source = unicast.localPeerId)
      (hdata : message.data = data) (hnumber : message.sequenceNumber = sequenceNumber.toList) :
      (C.serialize message).length ≤ 6000 ↔ unicast.localPeerId.length + data.length ≤ 5956 := by
    rw [hC.length_serialize, hsource, hdata, hnumber, Vector.length_toList]
    omega
  have hevents : (unicast.sendMessage peer data sequenceNumber).events = unicast.events ++
      [.notifyHandler peer ⟨unicast.localPeerId, data, sequenceNumber.toList⟩] := by
    rw [Unicast.sendMessage, if_pos ⟨hknown, hconnected⟩]
  constructor
  · rintro ⟨message, hsource, hdata, hsent, hdecoded⟩
    rw [hevents, List.append_right_inj, List.singleton_inj, Action.notifyHandler.injEq] at hsent
    rw [← hlength message hsource hdata (by rw [← hsent.2]), ← upgradeInbound_upgradeOutbound hC]
    exact hdecoded
  · intro hshort
    refine ⟨_, rfl, rfl, hevents, ?_⟩
    rw [upgradeInbound_upgradeOutbound hC, hlength _ rfl rfl rfl]
    exact hshort

/-! ## The format of the codecs -/

/-- bincode writes the fields one after the other, and libp2p the length of the packet before it. -/
def Codec.standard : Codec where
  serialize msg := vec msg.source ++ (vec msg.data ++ vec msg.sequenceNumber)
  deserialize bytes := do
    let (source, rest) ← takeVec bytes
    let (data, rest) ← takeVec rest
    let (sequenceNumber, _) ← takeVec rest
    return { source := source, data := data, sequenceNumber := sequenceNumber }
  writeLengthPrefixed := framed
  readLengthPrefixed := readFramed

theorem Codec.lawful_standard : Codec.standard.Lawful where
  deserialize_serialize msg hsource hdata hnumber := by
    have hlast : takeVec (vec msg.sequenceNumber) = some (msg.sequenceNumber, []) := by
      have hread := takeVec_vec_append hnumber []
      rwa [List.append_nil] at hread
    simp only [standard, takeVec_vec_append hsource, takeVec_vec_append hdata, hlast, bind, pure,
      Option.bind_some]
  length_serialize msg := by
    simp only [standard, List.length_append, length_vec]
    omega
  read_write := readFramed_framed

/-- A node with one known and connected peer. -/
def connectedPair : Unicast := ((Unicast.new [1]).addNodeToPartialView [2]).injectConnectionEstablished [2]

theorem arrives_of_connectedPair :
    Arrives .standard connectedPair [2] [10, 20, 30] (.replicate 20 7) :=
  (arrives_iff_length_le Codec.lawful_standard connectedPair (by decide) (by decide) _ _).2 (by decide)

/-! ## Votes of chained HotStuff -/

section Votes

open ChainHotstuff ChainHotstuff.ChainHotstuffProtocol

/-- bincode of an `Option<Signature>`; a signature is written without a length. -/
def signatureBytes : Option Bytes → Bytes
  | none => [0]
  | some signature => 1 :: signature

/-- bincode of a block, with the QC in it and the block in the QC. -/
def blockBytes : Block → Bytes
  | ⟨cmd, parentHash, none⟩ => vec (asBytes cmd) ++ (vec (asBytes parentHash) ++ [0])
  | ⟨cmd, parentHash, some ⟨viewNum, block, signature⟩⟩ =>
    vec (asBytes cmd) ++ (vec (asBytes parentHash) ++
      1 :: (littleEndian 8 viewNum.toNat ++ (blockBytes block ++ signatureBytes signature)))

/-- bincode of a vote message: the number of the variant comes first. -/
def voteBytes (vote : Vote) : Bytes :=
  littleEndian 4 3 ++ (littleEndian 8 vote.viewNum.toNat ++
    (blockBytes vote.block ++ (vote.partialSignature ++ vec vote.fromPeerId)))

/-- Every block of a chain takes at least 26 bytes, and the first one 17. -/
theorem lineage_le_blockBytes :
    (block : Block) → 26 * block.lineage.length ≤ (blockBytes block).length + 9
  | ⟨cmd, parentHash, none⟩ => by
    simp only [Block.lineage, blockBytes, List.length_append, length_vec, List.length_singleton]
    omega
  | ⟨cmd, parentHash, some ⟨viewNum, block, signature⟩⟩ => by
    have hparent := lineage_le_blockBytes block
    have hsignature : 1 ≤ (signatureBytes signature).length := by
      cases signature <;> simp [signatureBytes]
    simp only [Block.lineage, blockBytes, List.length_append, length_vec, length_littleEndian, List.length_cons,
      List.length_nil]
    omega

/-- The vote for the last of 230 blocks does not arrive, whatever the blocks are. -/
theorem not_arrives_voteBytes (hC : C.Lawful) (unicast : Unicast) (peer : PeerId) {vote : Vote}
    (hdeep : 230 ≤ vote.block.lineage.length) (sequenceNumber : Vector UInt8 20) :
    ¬ Arrives C unicast peer (voteBytes vote) sequenceNumber := by
  rintro ⟨message, -, hdata, -, hdecoded⟩
  have hshort := (upgradeInbound_upgradeOutbound hC message).1 hdecoded
  have hlength := hC.length_serialize message
  have hblock := lineage_le_blockBytes vote.block
  simp only [hdata, voteBytes, List.length_append, length_vec, length_littleEndian] at hlength
  omega

variable {X : Externals} {p p' : ChainHotstuffProtocol} {me : Bytes}

theorem block_ballot (keypair : Utils.TBLSKey) (block : Block) :
    (p.ballot X keypair block me).block = block := rfl

/-- A replica with a key sends its vote to the next leader. -/
theorem castVote_unicast {keypair : Utils.TBLSKey} {pkInfo : Hotstuff.ConsensusNodePKInfo}
    {leader current : Bytes} {queue : List (SendType Payload)} (block : Block) (hkey : p.keypair = some keypair)
    (hregistered : p.consensusNodePks.lookup me = some pkInfo)
    (hleader : X.peerIdFromBytes p.state.nextLeader = some leader)
    (hcurrent : X.peerIdFromBytes p.state.currentLeader = some current) (hother : me ≠ leader)
    (hview : p.nextView X me = some (p', queue)) :
    p.castVote X block me =
      some (p', .unicast leader (.message ⟨.vote (p.ballot X keypair block me)⟩) :: queue,
        some (p.ballot X keypair block me)) := by
  simp only [castVote, hkey, hregistered, hleader, hcurrent, hview, if_neg hother, bind, pure,
    Option.bind_some, ballot]

/-- A replica with a key sends its vote for a proposed block to the next leader. -/
theorem exists_vote_sent {keypair : Utils.TBLSKey} {pkInfo : Hotstuff.ConsensusNodePKInfo}
    {leader current : Bytes} {queue : List (SendType Payload)} {generic : Generic} {block : Block}
    {order : List (Bytes × Hotstuff.ConsensusNodePKInfo)} (hme : X.peerIdFromBytes me = some me)
    (hblock : generic.block = some block) (hcurrentView : p.state.view = generic.viewNum)
    (hsafe : p.safeNode X block block.justify = true) (hkey : p.keypair = some keypair)
    (hregistered : p.consensusNodePks.lookup me = some pkInfo)
    (hleader : X.peerIdFromBytes p.state.nextLeader = some leader)
    (hcurrent : X.peerIdFromBytes p.state.currentLeader = some current) (hother : me ≠ leader)
    (hview : { p with takenRequests := insert (X.requestBytes ⟨block.cmd⟩) p.takenRequests }.nextView X me =
      some (p', queue)) :
    ∃ p'' out, step X me p (.message (.generic generic) order) = some (p'', out) ∧
      out.answer.queue = .unicast leader (.message ⟨.vote (p.ballot X keypair block me)⟩) :: queue := by
  have hsafe' : { p with takenRequests := insert (X.requestBytes ⟨block.cmd⟩) p.takenRequests }.safeNode X
      block block.justify = true := hsafe
  have hcast := castVote_unicast
    (p := { p with takenRequests := insert (X.requestBytes ⟨block.cmd⟩) p.takenRequests }) block hkey hregistered
    hleader hcurrent hother hview
  have hstep : step X me p (.message (.generic generic) order) = some (p'.conclude X
      (.unicast leader (.message ⟨.vote (p.ballot X keypair block me)⟩) :: queue)
      (some (p.ballot X keypair block me)) block) := by
    simp only [step, consensusProtocolMessageHandler, hme, handleGeneric, hblock, hcurrentView,
      replicaHandleGeneric, hsafe', hcast, ne_eq, not_true_eq_false, if_false, if_true, bind, pure,
      Option.bind_some]
    rfl
  exact ⟨_, _, hstep, queue_conclude p' _ _ block⟩

theorem length_lineage_chainOf (nodes : List (Fin 4)) :
    (cmds : List String) → cmds ≠ [] → (chainOf nodes cmds).lineage.length = cmds.length
  | [], hne => absurd rfl hne
  | [_], _ => rfl
  | cmd :: cmd' :: rest, _ => by
    have hparent := length_lineage_chainOf nodes (cmd' :: rest) (by simp)
    rw [chainOf, Block.lineage, List.length_append, hparent]
    · rfl
    · simp

/-- The last of 230 blocks, each under a QC of three of four nodes. -/
def deepBlock : Block := chainOf [0, 1, 2] (List.replicate 230 "a")

/-- The fourth of four nodes when it has entered the first view. -/
def fourthNode : ChainHotstuffProtocol :=
  final (step .transparent [4]) (ChainHotstuffProtocol.new 1 "") (joinEvents 3)

/-- The first leader proposes the block, and the fourth node votes for it. -/
def deepProposal : Event :=
  .message (.generic { viewNum := 1, block := some deepBlock, justify := none, fromPeerId := [2] }) []

theorem deepBlock_vote_lost :
    ∃ p out vote queue unicast,
      IsRun (step .transparent [4]) (ChainHotstuffProtocol.new 1 "")
        (transitions (step .transparent [4]) (ChainHotstuffProtocol.new 1 "") (joinEvents 3)) fourthNode ∧
      step .transparent [4] fourthNode deepProposal = some (p, out) ∧
      out.answer.queue = .unicast [3] (.message ⟨.vote vote⟩) :: queue ∧
      [3] ∈ unicast.canSendPeers ∧ [3] ∈ unicast.connectedPeers ∧
      ¬ Arrives .standard unicast [3] (voteBytes vote) (.replicate 20 7) := by
  have hrun : IsRun (step .transparent [4]) (ChainHotstuffProtocol.new 1 "")
      (transitions (step .transparent [4]) (ChainHotstuffProtocol.new 1 "") (joinEvents 3)) fourthNode :=
    .of_isSome (by decide +kernel)
  have hview : ({ fourthNode with
      takenRequests := insert (Externals.transparent.requestBytes ⟨deepBlock.cmd⟩)
        fourthNode.takenRequests }.nextView .transparent [4]).isSome = true := by decide +kernel
  obtain ⟨⟨p', queue⟩, hview⟩ := Option.isSome_iff_exists.1 hview
  have hkey : fourthNode.keypair.isSome = true := by decide +kernel
  obtain ⟨keypair, hkey⟩ := Option.isSome_iff_exists.1 hkey
  have hregistered : (fourthNode.consensusNodePks.lookup [4]).isSome = true := by decide +kernel
  obtain ⟨pkInfo, hregistered⟩ := Option.isSome_iff_exists.1 hregistered
  obtain ⟨p, out, hstep, hqueue⟩ := @exists_vote_sent .transparent fourthNode p' [4] keypair pkInfo [3] [2] queue
    { viewNum := 1, block := some deepBlock, justify := none, fromPeerId := [2] } deepBlock [] rfl rfl
    (by decide +kernel) (by decide +kernel) hkey hregistered (by decide +kernel) (by decide +kernel)
    (by decide) hview
  have hlineage : deepBlock.lineage.length = 230 := by
    rw [deepBlock, length_lineage_chainOf _ _ (by simp), List.length_replicate]
  refine ⟨p, out, _, queue, ((Unicast.new [4]).addNodeToPartialView [3]).injectConnectionEstablished [3], hrun,
    hstep, hqueue, by decide, by decide, not_arrives_voteBytes Codec.lawful_standard _ _ ?_ _⟩
  rw [block_ballot, hlineage]

end Votes

end BFTDiagnosis.Network
