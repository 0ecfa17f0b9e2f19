import BFTDiagnosis.ChainHotstuff.Protocol
import BFTDiagnosis.Hotstuff.NodeTable

/-!
# What one call of the chained HotStuff protocol can do

Inversion lemmas for the handlers, and `StepEffect`, which lists everything one call can do to the
protocol and what comes out of it. Invariants are proved by cases over it.
-/

namespace BFTDiagnosis.ChainHotstuff

open Components Utils Word Hotstuff

variable {X : Externals}

/-! ## The chain below a block -/

/-- The QC of a block, if the block is a child of the block of the QC. -/
def Block.link (X : Externals) (block : Block) : Option QC :=
  block.justify.bind fun qc ↦ if block.parentHash = getBlockHash X qc.block then some qc else none

theorem Block.link_eq_some {block : Block} {qc : QC} :
    block.link X = some qc ↔ block.justify = some qc ∧ block.parentHash = getBlockHash X qc.block := by
  rw [link, Option.bind_eq_some_iff]
  constructor
  · rintro ⟨qc', hjustify, hlink⟩
    split at hlink
    case isTrue hparent =>
      obtain rfl := Option.some.inj hlink
      exact ⟨hjustify, hparent⟩
    case isFalse => cases hlink
  · rintro ⟨hjustify, hparent⟩
    exact ⟨qc, hjustify, if_pos hparent⟩

namespace ChainHotstuffProtocol

/-- What `formChain` does, in terms of the links. -/
theorem formChain_eq (state : State) (b1 : Block) :
    formChain X state b1 =
      let link1 := b1.link X
      let link2 := link1.bind fun qc ↦ qc.block.link X
      let link3 := link2.bind fun qc ↦ qc.block.link X
      ({ state with genericQC := link1.or state.genericQC, lockedQC := link2.or state.lockedQC },
        link1.toList ++ link2.toList, link3.map fun qc ↦ ⟨qc.block.cmd⟩) := by
  unfold formChain Block.link
  cases h1 : b1.justify with
  | none => rfl
  | some qc1 =>
    by_cases hlink1 : b1.parentHash = getBlockHash X qc1.block
    · cases h2 : qc1.block.justify with
      | none => simp [hlink1, h2]
      | some qc2 =>
        by_cases hlink2 : qc1.block.parentHash = getBlockHash X qc2.block
        · cases h3 : qc2.block.justify with
          | none => simp [hlink1, h2, hlink2, h3]
          | some qc3 =>
            by_cases hlink3 : qc2.block.parentHash = getBlockHash X qc3.block
            · simp [hlink1, h2, hlink2, h3, hlink3]
            · simp [hlink1, h2, hlink2, h3, hlink3]
        · simp [hlink1, h2, hlink2]
    · simp [hlink1]

/-! ## Handlers -/

variable {p p' : ChainHotstuffProtocol} {me : Bytes}

/-- The protocol in the next view, under its leaders. -/
def advance (p : ChainHotstuffProtocol) (currentLeader nextLeader : Bytes) : ChainHotstuffProtocol :=
  { p with
    state := { p.state with
      currentLeader := currentLeader, nextLeader := nextLeader, view := p.state.view + 1 } }

/-- The Generic without a block with which a replica leaves a view. -/
def newViewGeneric (p : ChainHotstuffProtocol) (me : Bytes) : Generic :=
  { viewNum := p.state.view, block := none, justify := p.state.genericQC, fromPeerId := me }

/-- A queue with at most the message for the leader of the next view. -/
def NewViewQueue (me : Bytes) (p : ChainHotstuffProtocol) (queue : List (SendType Payload)) : Prop :=
  queue = [] ∨ ∃ leader, queue = [.unicast leader (.message ⟨.generic (p.newViewGeneric me)⟩)]

theorem changeLeader_cases {viewNum : UInt64} (h : p.changeLeader viewNum = some p') :
    ∃ currentLeader nextLeader,
      p' = { p with state := { p.state with currentLeader := currentLeader, nextLeader := nextLeader } } := by
  simp only [changeLeader, bind, pure] at h
  split at h
  case isTrue => cases h
  case isFalse =>
    simp only [Option.bind_eq_some_iff, Option.some.injEq] at h
    obtain ⟨nextViewNum, -, currentLeader, -, nextLeader, -, rfl⟩ := h
    exact ⟨currentLeader, nextLeader, rfl⟩

/-- A new view keeps everything but the view and the leaders. -/
theorem nextView_cases {queue : List (SendType Payload)} (h : p.nextView X me = some (p', queue)) :
    ∃ currentLeader nextLeader, p' = p.advance currentLeader nextLeader ∧ NewViewQueue me p queue := by
  simp only [nextView, bind, pure, Option.bind_eq_some_iff] at h
  obtain ⟨nextView, hnext, p₁, hleader, hrest⟩ := h
  obtain rfl : p.state.view + 1 = nextView := by
    unfold checkedAdd at hnext
    split at hnext
    case isTrue => exact Option.some.inj hnext
    case isFalse => cases hnext
  obtain ⟨currentLeader, nextLeader, rfl⟩ := changeLeader_cases hleader
  refine ⟨currentLeader, nextLeader, ?_⟩
  split at hrest
  case isTrue =>
    obtain ⟨rfl, rfl⟩ := Prod.mk.inj (Option.some.inj hrest)
    exact ⟨rfl, .inl rfl⟩
  case isFalse =>
    simp only [Option.bind_eq_some_iff, Option.some.injEq, Prod.mk.injEq] at hrest
    obtain ⟨leader, -, rfl, rfl⟩ := hrest
    exact ⟨rfl, .inr ⟨leader, rfl⟩⟩

/-- The vote of a replica for a block in its view. -/
def ballot (X : Externals) (p : ChainHotstuffProtocol) (keypair : TBLSKey) (block : Block) (me : Bytes) :
    Vote :=
  { viewNum := p.state.view
    block := block
    partialSignature := keypair.sign X.toBlsttc (asBytes (getGenericHash X GENERIC p.state.view block))
    fromPeerId := me }

/-- Everything `castVote` can do. -/
inductive CastEffect (X : Externals) (me : Bytes) (p : ChainHotstuffProtocol) (block : Block) :
    ChainHotstuffProtocol → List (SendType Payload) → Option Vote → Prop
  | keyless (nokey : p.keypair = none) : CastEffect X me p block p [] none
  | own (keypair : TBLSKey) (pkInfo : ConsensusNodePKInfo) (key : p.keypair = some keypair)
      (registered : p.consensusNodePks.lookup me = some pkInfo) :
      CastEffect X me p block
        { p with
          log := p.log.recordMessgaePartialSignature (getGenericHash X GENERIC p.state.view block)
            pkInfo.number (p.ballot X keypair block me).partialSignature }
        [] (some (p.ballot X keypair block me))
  | sent (keypair : TBLSKey) (currentLeader nextLeader leader : Bytes) (queue : List (SendType Payload))
      (key : p.keypair = some keypair) (newViews : NewViewQueue me p queue) :
      CastEffect X me p block (p.advance currentLeader nextLeader)
        (.unicast leader (.message ⟨.vote (p.ballot X keypair block me)⟩) :: queue)
        (some (p.ballot X keypair block me))

theorem castVote_effect {block : Block} {queue : List (SendType Payload)} {signed : Option Vote}
    (h : p.castVote X block me = some (p', queue, signed)) : CastEffect X me p block p' queue signed := by
  unfold castVote at h
  split at h
  case h_1 hnone =>
    simp only [Option.some.injEq, Prod.mk.injEq] at h
    obtain ⟨rfl, rfl, rfl⟩ := h
    exact .keyless hnone
  case h_2 keypair hkey =>
    simp only [bind, pure, Option.bind_eq_some_iff] at h
    obtain ⟨pkInfo, hregistered, leader, -, current, -, hrest⟩ := h
    split at hrest
    case isTrue =>
      simp only [Option.some.injEq, Prod.mk.injEq] at hrest
      obtain ⟨rfl, rfl, rfl⟩ := hrest
      exact .own keypair pkInfo hkey hregistered
    case isFalse =>
      simp only [Option.bind_eq_some_iff, Option.some.injEq, Prod.mk.injEq, Prod.exists] at hrest
      obtain ⟨p₁, queue₁, hnext, rfl, rfl, rfl⟩ := hrest
      obtain ⟨currentLeader, nextLeader, rfl, hqueue⟩ := nextView_cases hnext
      exact .sent keypair currentLeader nextLeader leader queue₁ hkey hqueue

/-- Storing the nodes' public keys fills the table of numbered nodes, starts a new view and sends nothing. -/
theorem storageConsensusNodePk_cases {order : List (Bytes × ConsensusNodePKInfo)}
    {pksInfo : HashMap Bytes ConsensusNodePKInfo} {answer : Answer}
    (h : p.storageConsensusNodePk X order pksInfo me = some (p', answer)) :
    pksInfo.Listing order ∧ IdsValid X.toPlatform order ∧ answer = .overMessage none [] ∧
      ∃ queue, nextView X { p with pkConsensusNodes := assignNumbers p.pkConsensusNodes order } me =
        some (p', queue) := by
  unfold storageConsensusNodePk at h
  split at h
  case isFalse => cases h
  case isTrue horder =>
    simp only [bind, pure, Option.bind_eq_some_iff, Option.some.injEq, Prod.mk.injEq, Prod.exists] at h
    obtain ⟨nodes, hnodes, p₁, queue, hnext, rfl, rfl⟩ := h
    rw [foldlM_storeNumber] at hnodes
    split at hnodes
    case isFalse => cases hnodes
    case isTrue hids =>
      obtain rfl := Option.some.inj hnodes
      exact ⟨horder, hids, rfl, queue, hnext⟩

/-- Distributing keys stores those that were generated. -/
theorem distributeKeys_cases {randomness : Bytes} {nodeOrder : List (String × PeerId)}
    {order : List (Bytes × ConsensusNodePKInfo)} {answer : Answer}
    (h : p.distributeKeys X me randomness nodeOrder order = some (p', answer)) :
    ∃ keys stored, keys = X.generateBlsKeys nodeOrder p.state.faultToleranceCount randomness ∧
      { p with
        keypair := keys.foldl (storeOwnKey X.toExternals p.peerId) p.keypair
        consensusNodePks := HashMap.ofEntries (keys.map pkInfoOf) }.storageConsensusNodePk X order
          (HashMap.ofEntries (keys.map pkInfoOf)) me = some (p', stored) ∧
      answer = .overMessage none
        ((keys.map fun keyInfo ↦ .unicast keyInfo.peerId (.message ⟨.tblsKey keyInfo.tblsKey⟩)) ++
          [.broadcast (.message ⟨.consensusNodePKsInfo order⟩)]) := by
  unfold distributeKeys at h
  split at h
  case isFalse => cases h
  case isTrue =>
    simp only [bind, pure] at h
    split at h
    case isTrue => cases h
    case isFalse =>
      simp only [Option.bind_eq_some_iff, Option.some.injEq, Prod.mk.injEq, Prod.exists] at h
      obtain ⟨p₁, stored, hstored, rfl, rfl⟩ := h
      exact ⟨_, stored, rfl, hstored, rfl⟩

/-- The protocol after the command of a block is marked as taken. -/
def take (p : ChainHotstuffProtocol) (taken : Finset Bytes) : ChainHotstuffProtocol :=
  { p with takenRequests := taken }

/-- What handling a block of the current view does: refuse it, or vote and look at the chain below. -/
inductive BlockEffect (X : Externals) (me : Bytes) (p : ChainHotstuffProtocol) (b1 : Block) :
    ChainHotstuffProtocol → Outcome → Prop
  | refused (rejected : p.safeNode X b1 b1.justify = false) : BlockEffect X me p b1 p (.of silent)
  | accepted (p₁ : ChainHotstuffProtocol) (queue : List (SendType Payload)) (signed : Option Vote)
      (safe : p.safeNode X b1 b1.justify = true) (cast : CastEffect X me p b1 p₁ queue signed) :
      BlockEffect X me p b1 (p₁.conclude X queue signed b1).1 (p₁.conclude X queue signed b1).2

theorem replicaHandleGeneric_effect {generic : Generic} {b1 : Block} {out : Outcome}
    (hblock : generic.block = some b1) (h : p.replicaHandleGeneric X generic me = some (p', out)) :
    BlockEffect X me p b1 p' out := by
  rw [replicaHandleGeneric, hblock] at h
  simp only at h
  split at h
  case isTrue hsafe =>
    simp only [bind, pure, Option.bind_eq_some_iff, Prod.exists] at h
    obtain ⟨p₁, queue, signed, hcast, hconclude⟩ := h
    obtain ⟨rfl, rfl⟩ := Prod.mk.inj (Option.some.inj hconclude)
    exact .accepted p₁ queue signed hsafe (castVote_effect hcast)
  case isFalse hrejected =>
    obtain ⟨rfl, rfl⟩ := Prod.mk.inj (Option.some.inj h)
    exact .refused (Bool.not_eq_true _ ▸ hrejected)

end ChainHotstuffProtocol

open ChainHotstuffProtocol

/-! ## One step -/

/-- The protocol after a share is recorded. -/
def ChainHotstuffProtocol.record (X : Externals) (p : ChainHotstuffProtocol) (vote : Vote)
    (number : UInt64) : ChainHotstuffProtocol :=
  { p with
    log := p.log.recordMessgaePartialSignature (getGenericHash X GENERIC vote.viewNum vote.block) number
      vote.partialSignature }

/-- The Generic with which a leader proposes. -/
def proposalGeneric (X : Externals) (p : ChainHotstuffProtocol) (request : Request) (me : Bytes) :
    Generic :=
  { viewNum := p.state.view, block := some (p.proposedBlock X request), justify := none, fromPeerId := me }

/-- Everything one call can do. -/
inductive StepEffect (X : Externals) (me : Bytes) (p : ChainHotstuffProtocol) :
    Event → ChainHotstuffProtocol → Outcome → Prop
  | rejected (vote : Vote) (order : List (Bytes × ConsensusNodePKInfo)) :
      StepEffect X me p (.message (.vote vote) order) p (.of silent)
  | ignored (msg : MessageType) (order : List (Bytes × ConsensusNodePKInfo))
      (hmsg : msg = .init ∨ ∃ text, msg = .end text) :
      StepEffect X me p (.message msg order) p (.of emptyBroadcast)
  | otherView (generic : Generic) (b1 : Block) (order : List (Bytes × ConsensusNodePKInfo))
      (taken : Finset Bytes) (hblock : generic.block = some b1) (hview : p.state.view ≠ generic.viewNum) :
      StepEffect X me p (.message (.generic generic) order) (p.take taken) (.of silent)
  | generic (generic : Generic) (b1 : Block) (order : List (Bytes × ConsensusNodePKInfo))
      (taken : Finset Bytes) (p' : ChainHotstuffProtocol) (out : Outcome)
      (hblock : generic.block = some b1) (hview : p.state.view = generic.viewNum)
      (handled : BlockEffect X me (p.take taken) b1 p' out) :
      StepEffect X me p (.message (.generic generic) order) p' out
  | newView (generic : Generic) (order : List (Bytes × ConsensusNodePKInfo))
      (hblock : generic.block = none) :
      StepEffect X me p (.message (.generic generic) order)
        { p with log := p.log.recordGeneric generic.viewNum generic } (.of silent)
  | newViewQuorum (generic : Generic) (order : List (Bytes × ConsensusNodePKInfo)) (highQC : Option QC)
      (currentLeader nextLeader : Bytes) (hblock : generic.block = none)
      (picked : (p.log.recordGeneric generic.viewNum generic).getHighQCByView generic.viewNum
        p.state.genericQC = some highQC) :
      StepEffect X me p (.message (.generic generic) order)
        (advance
          { p with
            log := p.log.recordGeneric generic.viewNum generic
            state := { p.state with highQC := highQC, genericQC := highQC } } currentLeader nextLeader)
        (.of (.over none))
  | request (request : Request) (order : List (Bytes × ConsensusNodePKInfo)) (taken : Finset Bytes)
      (p' : ChainHotstuffProtocol) (out : Outcome)
      (handled : BlockEffect X me (p.take taken) (p.proposedBlock X request) p' out) :
      StepEffect X me p (.message (.request request) order) p'
        (out.sendFirst (.broadcast (.message ⟨.generic (proposalGeneric X p request me)⟩)))
  | vote (vote : Vote) (order : List (Bytes × ConsensusNodePKInfo)) (pkInfo : ConsensusNodePKInfo)
      (registered : p.consensusNodePks.lookup vote.fromPeerId = some pkInfo) :
      StepEffect X me p (.message (.vote vote) order) (p.record X vote pkInfo.number) (.of silent)
  | voteQuorum (vote : Vote) (order : List (Bytes × ConsensusNodePKInfo)) (pkInfo : ConsensusNodePKInfo)
      (signature : Bytes) (registered : p.consensusNodePks.lookup vote.fromPeerId = some pkInfo)
      (count : ((p.record X vote pkInfo.number).log.sharesAt
        (getGenericHash X GENERIC vote.viewNum vote.block)).len = 2 * p.state.faultToleranceCount.toNat + 1) :
      StepEffect X me p (.message (.vote vote) order)
        { p.record X vote pkInfo.number with
          state := { p.state with
            genericQC := some
              { viewNum := vote.viewNum, block := vote.block, signature := some signature } } }
        (.of silent)
  | tblsKey (key : TBLSKey) (order : List (Bytes × ConsensusNodePKInfo)) :
      StepEffect X me p (.message (.tblsKey key) order) (p.storageTblsKey key) (.of emptyBroadcast)
  | consensusNodePKsInfo (entries order : List (Bytes × ConsensusNodePKInfo))
      (nodes : HashMap UInt64 Bytes) (currentLeader nextLeader : Bytes) :
      StepEffect X me p (.message (.consensusNodePKsInfo entries) order)
        (advance
          { p with consensusNodePks := HashMap.ofEntries entries, pkConsensusNodes := nodes }
          currentLeader nextLeader)
        (.of (.overMessage none []))
  | initialStart (consensusNodes : List PeerId) (randomness : Bytes) (order : List (String × PeerId))
      (pkOrder : List (Bytes × ConsensusNodePKInfo)) (keypair : Option TBLSKey)
      (nodes : HashMap UInt64 Bytes) (currentLeader nextLeader : Bytes) :
      StepEffect X me p (.initialStart consensusNodes randomness order pkOrder)
        (advance
          { p with
            consensusNodes := HashMap.ofEntries (consensusNodes.map fun peer ↦ (X.peerIdString peer, peer))
            peerId := X.peerIdString me
            keypair := keypair
            consensusNodePks := HashMap.ofEntries
              ((X.generateBlsKeys order p.state.faultToleranceCount randomness).map pkInfoOf)
            pkConsensusNodes := nodes } currentLeader nextLeader)
        (.of (.overMessage none
          (((X.generateBlsKeys order p.state.faultToleranceCount randomness).map fun keyInfo ↦
              .unicast keyInfo.peerId (.message ⟨.tblsKey keyInfo.tblsKey⟩)) ++
            [.broadcast (.message ⟨.consensusNodePKsInfo pkOrder⟩)])))
  | viewTimeout (timeout : UInt64) (currentLeader nextLeader : Bytes) (queue : List (SendType Payload))
      (newViews : NewViewQueue me p queue) :
      StepEffect X me p .viewTimeout
        (advance { p with state := { p.state with currentViewTimeout := timeout } } currentLeader
          nextLeader)
        (.of (.continueExecute queue))
  | protocolReset (peerId : String) :
      StepEffect X me p (.protocolReset peerId) (ChainHotstuffProtocol.new 1 peerId) (.of silent)

section Effect

variable {p p' : ChainHotstuffProtocol} {me : Bytes} {out : Outcome}
  {order : List (Bytes × ConsensusNodePKInfo)}

theorem handleNewviewGeneric_effect {generic : Generic} (hblock : generic.block = none)
    (h : p.handleNewviewGeneric X generic me = some (p', out)) :
    StepEffect X me p (.message (.generic generic) order) p' out := by
  simp only [handleNewviewGeneric, bind, pure, Option.bind_eq_some_iff] at h
  obtain ⟨threshold, -, hrest⟩ := h
  split at hrest
  case isTrue =>
    simp only [Option.bind_eq_some_iff, Option.some.injEq, Prod.mk.injEq, Prod.exists] at hrest
    obtain ⟨highQC, hpicked, p₁, queue, hnext, rfl, rfl⟩ := hrest
    obtain ⟨currentLeader, nextLeader, rfl, -⟩ := nextView_cases hnext
    exact .newViewQuorum generic order highQC currentLeader nextLeader hblock hpicked
  case isFalse =>
    obtain ⟨rfl, rfl⟩ := Prod.mk.inj (Option.some.inj hrest)
    exact .newView generic order hblock

theorem handleGeneric_effect {generic : Generic} (h : p.handleGeneric X generic me = some (p', out)) :
    StepEffect X me p (.message (.generic generic) order) p' out := by
  unfold handleGeneric at h
  split at h
  case h_1 hblock => exact handleNewviewGeneric_effect hblock h
  case h_2 b1 hblock =>
    simp only at h
    split at h
    case isTrue hview =>
      obtain ⟨rfl, rfl⟩ := Prod.mk.inj (Option.some.inj h)
      exact .otherView generic b1 order _ hblock hview
    case isFalse hview =>
      exact .generic generic b1 order _ p' out hblock (not_not.1 hview)
        (replicaHandleGeneric_effect hblock h)

theorem handleRequest_effect {request : Request} (h : p.handleRequest X request me = some (p', out)) :
    StepEffect X me p (.message (.request request) order) p' out := by
  simp only [handleRequest, bind, pure, Option.bind_eq_some_iff, Option.some.injEq, Prod.mk.injEq,
    Prod.exists] at h
  obtain ⟨p₁, out₁, hhandled, rfl, rfl⟩ := h
  simp only [handleGeneric, ne_eq, not_true_eq_false, if_false] at hhandled
  exact .request request order _ _ _ (replicaHandleGeneric_effect rfl hhandled)

theorem handleVote_effect {vote : Vote} (h : p.handleVote X vote = some (p', out)) :
    StepEffect X me p (.message (.vote vote) order) p' out := by
  simp only [handleVote, bind, pure, Option.bind_eq_some_iff] at h
  obtain ⟨pkInfo, hregistered, hrest⟩ := h
  split at hrest
  case isTrue =>
    obtain ⟨rfl, rfl⟩ := Prod.mk.inj (Option.some.inj hrest)
    exact .rejected vote order
  case isFalse =>
    simp only [Option.bind_eq_some_iff] at hrest
    obtain ⟨threshold, hthreshold, hrest⟩ := hrest
    split at hrest
    case isTrue =>
      obtain ⟨rfl, rfl⟩ := Prod.mk.inj (Option.some.inj hrest)
      exact .vote vote order pkInfo hregistered
    case isFalse hcount =>
      simp only [Option.bind_eq_some_iff, Option.some.injEq, Prod.mk.injEq] at hrest
      obtain ⟨shares, -, keypair, -, signature, -, rfl, rfl⟩ := hrest
      refine .voteQuorum vote order pkInfo signature hregistered ?_
      rw [not_not, Log.getPartialSignaturesCountByMessageHash, countSignatures_eq_len,
        toNat_of_quorumSize hthreshold] at hcount
      exact hcount

theorem extraInitialStart_effect {nodes : List PeerId} {randomness : Bytes}
    {nodeOrder : List (String × PeerId)}
    (h : p.extraInitialStart X nodes me randomness nodeOrder order = some (p', out)) :
    StepEffect X me p (.initialStart nodes randomness nodeOrder order) p' out := by
  simp only [extraInitialStart, bind, pure, Option.bind_eq_some_iff, Option.some.injEq, Prod.mk.injEq,
    Prod.exists] at h
  obtain ⟨peer, hpeer, p₁, answer, hdistribute, rfl, rfl⟩ := h
  obtain rfl := Platform.eq_of_peerIdFromBytes hpeer
  obtain ⟨keys, stored, rfl, hstored, rfl⟩ := distributeKeys_cases hdistribute
  obtain ⟨-, -, -, queue, hnext⟩ := storageConsensusNodePk_cases hstored
  obtain ⟨currentLeader, nextLeader, rfl, -⟩ := nextView_cases hnext
  exact .initialStart nodes randomness nodeOrder order _ _ currentLeader nextLeader

/-- Every call has one of the effects. -/
theorem step_effect {event : Event} (h : step X me p event = some (p', out)) :
    StepEffect X me p event p' out := by
  cases event with
  | initialStart nodes randomness nodeOrder order => exact extraInitialStart_effect h
  | viewTimeout =>
    simp only [step, viewTimeoutHandler, bind, pure, Option.bind_eq_some_iff, Option.some.injEq,
      Prod.mk.injEq, Prod.exists] at h
    obtain ⟨timeout, -, p₁, queue, hnext, rfl, rfl⟩ := h
    obtain ⟨currentLeader, nextLeader, rfl, hqueue⟩ := nextView_cases hnext
    exact .viewTimeout timeout currentLeader nextLeader queue hqueue
  | protocolReset peerId =>
    obtain ⟨rfl, rfl⟩ := Prod.mk.inj (Option.some.inj h)
    exact .protocolReset peerId
  | message msg order =>
    cases msg with
    | init =>
      obtain ⟨rfl, rfl⟩ := Prod.mk.inj (Option.some.inj h)
      exact .ignored _ order (.inl rfl)
    | «end» msg =>
      obtain ⟨rfl, rfl⟩ := Prod.mk.inj (Option.some.inj h)
      exact .ignored _ order (.inr ⟨msg, rfl⟩)
    | request request =>
      obtain ⟨peer, hpeer, hhandled⟩ := Option.bind_eq_some_iff.1 h
      obtain rfl := Platform.eq_of_peerIdFromBytes hpeer
      exact handleRequest_effect hhandled
    | generic generic =>
      obtain ⟨peer, hpeer, hhandled⟩ := Option.bind_eq_some_iff.1 h
      obtain rfl := Platform.eq_of_peerIdFromBytes hpeer
      exact handleGeneric_effect hhandled
    | vote vote =>
      obtain ⟨peer, -, hhandled⟩ := Option.bind_eq_some_iff.1 h
      exact handleVote_effect hhandled
    | tblsKey key =>
      obtain ⟨peer, -, hrest⟩ := Option.bind_eq_some_iff.1 h
      obtain ⟨rfl, rfl⟩ := Prod.mk.inj (Option.some.inj hrest)
      exact .tblsKey key order
    | consensusNodePKsInfo entries =>
      simp only [step, consensusProtocolMessageHandler, bind, pure, Option.bind_eq_some_iff,
        Option.some.injEq, Prod.mk.injEq, Prod.exists] at h
      obtain ⟨peer, -, p₁, answer, hstored, rfl, rfl⟩ := h
      obtain ⟨-, -, rfl, queue, hnext⟩ := storageConsensusNodePk_cases hstored
      obtain ⟨currentLeader, nextLeader, rfl, -⟩ := nextView_cases hnext
      exact .consensusNodePKsInfo entries order _ currentLeader nextLeader

/-- A proposal of another view changes nothing but the taken requests; one of the view is handled. -/
theorem step_proposal_cases {generic : Generic} {b1 : Block} (hblock : generic.block = some b1)
    (h : step X me p (.message (.generic generic) order) = some (p', out)) :
    (p.state.view ≠ generic.viewNum ∧ out = .of silent) ∨
      (p.state.view = generic.viewNum ∧ ∃ taken, BlockEffect X me (p.take taken) b1 p' out) := by
  obtain ⟨peer, hpeer, hhandled⟩ := Option.bind_eq_some_iff.1 h
  obtain rfl := Platform.eq_of_peerIdFromBytes hpeer
  simp only [handleGeneric, hblock] at hhandled
  split at hhandled
  case isTrue hview => exact .inl ⟨hview, (Prod.mk.inj (Option.some.inj hhandled)).2.symm⟩
  case isFalse hview => exact .inr ⟨not_not.1 hview, _, replicaHandleGeneric_effect hblock hhandled⟩

end Effect

end BFTDiagnosis.ChainHotstuff
