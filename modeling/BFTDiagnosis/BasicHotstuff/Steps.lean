import BFTDiagnosis.BasicHotstuff.Protocol
import BFTDiagnosis.Hotstuff.NodeTable

/-!
# What one call of the Basic HotStuff protocol can do

Inversion lemmas for the handlers, and `StepEffect`, which lists everything one call can do to the
protocol and what it answers. Invariants are proved by cases over it.
-/

namespace BFTDiagnosis.BasicHotstuff

open Components Utils Word Hotstuff

variable {X : Externals}

/-- A share that the handlers of a vote record: it verifies under the key registered for the voter. -/
structure VerifiedShare (X : Externals) (p : BasicHotstuffProtocol) (phase : Phase) (vote : Vote)
    (pkInfo : ConsensusNodePKInfo) (share : Bytes) : Prop where
  registered : p.consensusNodePks.lookup vote.fromPeerId = some pkInfo
  attached : vote.partialSignature = some share
  verified : X.verifyShare pkInfo.publicKey share
    (asBytes (voteHash X phase vote.viewNum vote.block)) = true

/-- The protocol after a verified share is recorded. -/
def BasicHotstuffProtocol.record (X : Externals) (p : BasicHotstuffProtocol) (phase : Phase)
    (vote : Vote) (pkInfo : ConsensusNodePKInfo) (share : Bytes) : BasicHotstuffProtocol :=
  { p with
    log := p.log.recordMessgaePartialSignature (voteHash X phase vote.viewNum vote.block) pkInfo.number
      share }

/-- The QC that a quorum of votes is combined into. -/
def quorumQC (phase : Phase) (vote : Vote) (signature : Bytes) : QC :=
  { msgType := phase.code, viewNum := vote.viewNum, block := vote.block, signature := some signature }

/-- A QC that passed the checks of a handler: what was checked. -/
structure CheckedQC (X : Externals) (p : BasicHotstuffProtocol) (phase : Phase) (qc : QC) : Prop where
  msgType : qc.msgType = phase.code
  viewNum : qc.viewNum = p.state.view
  signed : ∃ keypair signature, p.keypair = some keypair ∧ qc.signature = some signature ∧
    X.verify keypair.commonPublicKey signature
      (asBytes (voteHash X phase qc.viewNum qc.block)) = true

namespace BasicHotstuffProtocol

variable {p p' : BasicHotstuffProtocol} {me : Bytes} {out : Answer}

/-- The combined shares of a quorum. -/
structure Quorum (X : Externals) (p : BasicHotstuffProtocol) (msgHash : String) (signature : Bytes) :
    Prop where
  count : (p.log.sharesAt msgHash).len = 2 * p.state.faultToleranceCount.toNat + 1
  combined : ∃ keypair, p.keypair = some keypair ∧
    X.combineSignatures keypair.pkSet (p.log.sharesAt msgHash) = some signature

/-- A vote is rejected, recorded, or completes a quorum. -/
theorem collectVote_cases {phase : Phase} {vote : Vote} {qc : Option QC}
    (h : p.collectVote X phase vote = some (p', qc)) :
    (p' = p ∧ qc = none) ∨
    ∃ pkInfo share, VerifiedShare X p phase vote pkInfo share ∧
      p' = p.record X phase vote pkInfo share ∧
      ((qc = none ∧ (p'.log.sharesAt (voteHash X phase vote.viewNum vote.block)).len ≠
          2 * p.state.faultToleranceCount.toNat + 1) ∨
        ∃ signature, qc = some (quorumQC phase vote signature) ∧
          Quorum X p' (voteHash X phase vote.viewNum vote.block) signature) := by
  simp only [collectVote, getPublicKeyInfoByPeerId, bind, pure, Option.bind_eq_some_iff] at h
  obtain ⟨pkInfo, hpk, share, hshare, hrest⟩ := h
  split at hrest
  case isTrue =>
    simp only [Option.some.injEq, Prod.mk.injEq] at hrest
    exact .inl ⟨hrest.1.symm, hrest.2.symm⟩
  case isFalse hverify =>
    have hverified : VerifiedShare X p phase vote pkInfo share :=
      ⟨hpk, hshare, by simpa using hverify⟩
    refine .inr ⟨pkInfo, share, hverified, ?_⟩
    simp only [Option.bind_eq_some_iff] at hrest
    obtain ⟨threshold, hthreshold, hrest⟩ := hrest
    have hvalue := toNat_of_quorumSize hthreshold
    split at hrest
    case isTrue hcount =>
      simp only [Option.some.injEq, Prod.mk.injEq] at hrest
      obtain ⟨rfl, rfl⟩ := hrest
      refine ⟨rfl, .inl ⟨rfl, ?_⟩⟩
      rw [Log.getPartialSignaturesCountByMessageHash, countSignatures_eq_len, hvalue] at hcount
      exact hcount
    case isFalse hcount =>
      simp only [Option.bind_eq_some_iff, Option.some.injEq, Prod.mk.injEq] at hrest
      obtain ⟨shares, hshares, keypair, hkeypair, signature, hsignature, rfl, rfl⟩ := hrest
      refine ⟨rfl, .inr ⟨signature, rfl, ?_, keypair, hkeypair, ?_⟩⟩
      · rw [not_not, Log.getPartialSignaturesCountByMessageHash, countSignatures_eq_len, hvalue] at hcount
        exact hcount
      · simp only [Log.getPartialSignaturesByMessageHash] at hshares
        simp only [Log.sharesAt, HashMap.mapAt, hshares, Option.getD_some]
        exact hsignature

/-- What an accepted QC has been checked for. -/
theorem checkQC_eq_some {phase : Phase} {justify : Option QC} {qc : QC}
    (h : p.checkQC X phase justify = some (some qc)) : justify = some qc ∧ CheckedQC X p phase qc := by
  unfold checkQC at h
  split at h
  case h_1 => cases h
  case h_2 justify =>
    split at h
    case h_1 => cases h
    case h_2 signature hsignature =>
      split at h
      case isTrue => cases h
      case isFalse hmatch =>
        obtain ⟨keypair, hkeypair, hrest⟩ := Option.bind_eq_some_iff.1 h
        split at hrest
        case isTrue hverify =>
          simp only [pure, Option.some.injEq] at hrest
          subst hrest
          have hfields : justify.msgType = phase.code ∧ justify.viewNum = p.state.view := by
            simpa only [ne_eq, not_or, not_not] using hmatch
          exact ⟨rfl, hfields.1, hfields.2, keypair, signature, hkeypair, hsignature, hverify⟩
        case isFalse => simp [pure] at hrest

/-- The protocol in the next view, under its leader. -/
def advance (p : BasicHotstuffProtocol) (primary : Bytes) : BasicHotstuffProtocol :=
  { p with state := { p.state with primary := primary, view := p.state.view + 1 } }

/-- A queue with nothing but NewView messages. -/
def OnlyNewViews (queue : List (SendType Payload)) : Prop :=
  ∀ payload ∈ queue.flatMap SendType.payloads, ∃ newview, payload = .message ⟨.newView newview⟩

/-- A new view keeps everything but the view and the leader, and sends at most a NewView. -/
theorem newview_cases (h : p.newview X me = some (p', out)) :
    ∃ primary queue, p.state.view.toNat + 1 < 2 ^ 64 ∧ p' = p.advance primary ∧
      out = .continueExecute queue ∧ OnlyNewViews queue := by
  simp only [newview, changeLeader, bind, pure, Option.bind_eq_some_iff, Option.some.injEq,
    Prod.mk.injEq] at h
  obtain ⟨nextView, hnext, p₁, hleader, leader, -, hp, hout⟩ := h
  unfold checkedAdd at hnext
  split at hnext
  case isFalse => cases hnext
  case isTrue hlt =>
    obtain rfl := Option.some.inj hnext
    split at hleader
    case isTrue => simp at hleader
    case isFalse =>
      simp only [Option.bind_eq_some_iff, Option.some.injEq] at hleader
      obtain ⟨primary, -, rfl⟩ := hleader
      refine ⟨primary, _, hlt, hp.symm, hout.symm, ?_⟩
      intro payload hpayload
      split at hpayload
      case isTrue => simp at hpayload
      case isFalse => exact ⟨_, by simpa [SendType.payloads] using hpayload⟩

/-- A vote is sent exactly when the replica has a key. -/
theorem sendVote_cases {phase : Phase} {viewNum : UInt64} {block : Block}
    (h : p.sendVote X me phase viewNum block = some out) :
    (p.keypair = none ∧ out = silent) ∨
    ∃ keypair leader vote, p.keypair = some keypair ∧ vote.viewNum = viewNum ∧ vote.block = block ∧
      vote.fromPeerId = me ∧ vote.partialSignature =
        some (X.sign keypair.secretKey (asBytes (voteHash X phase viewNum block))) ∧
      out = .continueExecute [.unicast leader (.message ⟨phase.voteMessage vote⟩)] := by
  unfold sendVote at h
  split at h
  case h_1 hnone => exact .inl ⟨hnone, (Option.some.inj h).symm⟩
  case h_2 keypair hsome =>
    simp only [bind, pure, Option.bind_eq_some_iff, Option.some.injEq] at h
    obtain ⟨leader, -, rfl⟩ := h
    exact .inr ⟨keypair, leader, _, hsome, rfl, rfl, rfl, rfl, rfl⟩

/-- Storing the nodes' public keys fills the table of numbered nodes and starts a new view. -/
theorem storageConsensusNodePk_cases {order : List (Bytes × ConsensusNodePKInfo)}
    {pksInfo : HashMap Bytes ConsensusNodePKInfo}
    (h : p.storageConsensusNodePk X order pksInfo me = some (p', out)) :
    pksInfo.Listing order ∧ IdsValid X.toPlatform order ∧
      newview X { p with pkConsensusNodes := assignNumbers p.pkConsensusNodes order } me = some (p', out) := by
  unfold storageConsensusNodePk at h
  split at h
  case isFalse => cases h
  case isTrue horder =>
    obtain ⟨nodes, hnodes, hnewview⟩ := Option.bind_eq_some_iff.1 h
    rw [foldlM_storeNumber] at hnodes
    split at hnodes
    case isFalse => cases hnodes
    case isTrue hids =>
      obtain rfl := Option.some.inj hnodes
      exact ⟨horder, hids, hnewview⟩

/-- Distributing keys stores those that were generated. -/
theorem distributeKeys_cases {randomness : Bytes} {nodeOrder : List (String × PeerId)}
    {order : List (Bytes × ConsensusNodePKInfo)}
    (h : p.distributeKeys X me randomness nodeOrder order = some (p', out)) :
    ∃ keys answer, keys = X.generateBlsKeys nodeOrder p.state.faultToleranceCount randomness ∧
      { p with
        keypair := keys.foldl (storeOwnKey X.toExternals p.peerId) p.keypair
        consensusNodePks := HashMap.ofEntries (keys.map pkInfoOf) }.storageConsensusNodePk X order
          (HashMap.ofEntries (keys.map pkInfoOf)) me = some (p', answer) ∧
      out = .continueExecute
        ((keys.map fun keyInfo ↦ .unicast keyInfo.peerId (.message ⟨.tblsKey keyInfo.tblsKey⟩)) ++
          .broadcast (.message ⟨.consensusNodePKsInfo order⟩) :: answer.queue) := by
  unfold distributeKeys at h
  split at h
  case isFalse => cases h
  case isTrue =>
    simp only [bind, pure] at h
    split at h
    case isTrue => cases h
    case isFalse =>
      simp only [Option.bind_eq_some_iff, Option.some.injEq, Prod.mk.injEq, Prod.exists] at h
      obtain ⟨p₁, answer, hstored, rfl, rfl⟩ := h
      exact ⟨_, answer, rfl, hstored, rfl⟩

end BasicHotstuffProtocol

open BasicHotstuffProtocol

/-! ## One step -/

/-- Everything one call can do. -/
inductive StepEffect (X : Externals) (me : Bytes) (p : BasicHotstuffProtocol) :
    Event → BasicHotstuffProtocol → Answer → Prop
  | idle (msg : MessageType) (order : List (Bytes × ConsensusNodePKInfo)) :
      StepEffect X me p (.message msg order) p silent
  | request (request : Request) (order : List (Bytes × ConsensusNodePKInfo)) :
      StepEffect X me p (.message (.request request) order)
        { p with state := { p.state with currentRequest := request } } (p.handleRequest X request me)
  | newView (msg : NewView) (order : List (Bytes × ConsensusNodePKInfo)) :
      StepEffect X me p (.message (.newView msg) order)
        { p with log := p.log.recordNewview msg.viewNum msg } silent
  | newViewQuorum (msg : NewView) (order : List (Bytes × ConsensusNodePKInfo)) (highQC : Option QC) :
      StepEffect X me p (.message (.newView msg) order)
        { p with
          log := p.log.recordNewview msg.viewNum msg
          state := { p.state with highQC := highQC } }
        (.over none)
  | prepare (msg : Prepare) (order : List (Bytes × ConsensusNodePKInfo)) (answer : Answer)
      (accepted : p.checkPrepare X msg = true)
      (voted : sendVote X { p with state := { p.state with primary := msg.fromPeerId } } me .prepare
        msg.viewNum msg.block = some answer) :
      StepEffect X me p (.message (.prepare msg) order)
        { p with state := { p.state with primary := msg.fromPeerId } } answer
  | preCommit (msg : PreCommit) (order : List (Bytes × ConsensusNodePKInfo)) (qc : QC) (answer : Answer)
      (accepted : p.checkQC X .prepare msg.justify = some (some qc))
      (voted : sendVote X { p with state := { p.state with prepareQC := some qc } } me .preCommit
        msg.viewNum qc.block = some answer) :
      StepEffect X me p (.message (.preCommit msg) order)
        { p with state := { p.state with prepareQC := some qc } } answer
  | commit (msg : Commit) (order : List (Bytes × ConsensusNodePKInfo)) (qc : QC) (answer : Answer)
      (accepted : p.checkQC X .preCommit msg.justify = some (some qc))
      (voted : sendVote X { p with state := { p.state with lockedQC := some qc } } me .commit
        msg.viewNum qc.block = some answer) :
      StepEffect X me p (.message (.commit msg) order)
        { p with state := { p.state with lockedQC := some qc } } answer
  | decide (msg : Decide) (order : List (Bytes × ConsensusNodePKInfo)) (qc : QC) (primary : Bytes)
      (queue : List (SendType Payload)) (accepted : p.checkQC X .commit msg.justify = some (some qc))
      (hview : p.state.view.toNat + 1 < 2 ^ 64) (newviews : OnlyNewViews queue) :
      StepEffect X me p (.message (.decide msg) order) (p.viewTimeoutStop.advance primary)
        (.complete ⟨qc.block.cmd⟩ queue)
  | vote (phase : Phase) (vote : Vote) (order : List (Bytes × ConsensusNodePKInfo))
      (pkInfo : ConsensusNodePKInfo) (share : Bytes)
      (verified : VerifiedShare X p phase vote pkInfo share)
      (hcount : ((p.record X phase vote pkInfo share).log.sharesAt
        (voteHash X phase vote.viewNum vote.block)).len ≠ 2 * p.state.faultToleranceCount.toNat + 1) :
      StepEffect X me p (.message (phase.voteMessage vote) order)
        (p.record X phase vote pkInfo share) silent
  | prepareQuorum (vote : Vote) (order : List (Bytes × ConsensusNodePKInfo))
      (pkInfo : ConsensusNodePKInfo) (share signature : Bytes)
      (verified : VerifiedShare X p .prepare vote pkInfo share)
      (quorum : Quorum X (p.record X .prepare vote pkInfo share)
        (voteHash X .prepare vote.viewNum vote.block) signature) :
      StepEffect X me p (.message (.prepareVote vote) order) (p.record X .prepare vote pkInfo share)
        (.continueExecute [.broadcast (.message
          ⟨.preCommit { viewNum := vote.viewNum, justify := some (quorumQC .prepare vote signature) }⟩)])
  | preCommitQuorum (vote : Vote) (order : List (Bytes × ConsensusNodePKInfo))
      (pkInfo : ConsensusNodePKInfo) (share signature : Bytes)
      (verified : VerifiedShare X p .preCommit vote pkInfo share)
      (quorum : Quorum X (p.record X .preCommit vote pkInfo share)
        (voteHash X .preCommit vote.viewNum vote.block) signature) :
      StepEffect X me p (.message (.preCommitVote vote) order) (p.record X .preCommit vote pkInfo share)
        (.continueExecute [.broadcast (.message
          ⟨.commit { viewNum := vote.viewNum, justify := some (quorumQC .preCommit vote signature) }⟩)])
  | commitQuorum (vote : Vote) (order : List (Bytes × ConsensusNodePKInfo))
      (pkInfo : ConsensusNodePKInfo) (share signature primary : Bytes) (queue : List (SendType Payload))
      (verified : VerifiedShare X p .commit vote pkInfo share)
      (quorum : Quorum X (p.record X .commit vote pkInfo share)
        (voteHash X .commit vote.viewNum vote.block) signature)
      (hview : p.state.view.toNat + 1 < 2 ^ 64) (newviews : OnlyNewViews queue) :
      StepEffect X me p (.message (.commitVote vote) order)
        ((p.record X .commit vote pkInfo share).viewTimeoutStop.advance primary)
        (.complete ⟨vote.block.cmd⟩ (.broadcast (.message
          ⟨.decide { viewNum := vote.viewNum, justify := some (quorumQC .commit vote signature) }⟩) ::
            queue))
  | «end» (msg : String) (order : List (Bytes × ConsensusNodePKInfo)) :
      StepEffect X me p (.message (.end msg) order) p emptyBroadcast
  | tblsKey (key : TBLSKey) (order : List (Bytes × ConsensusNodePKInfo)) :
      StepEffect X me p (.message (.tblsKey key) order) (p.storageTblsKey key) emptyBroadcast
  | consensusNodePKsInfo (entries order : List (Bytes × ConsensusNodePKInfo))
      (nodes : HashMap UInt64 Bytes) (primary : Bytes) (queue : List (SendType Payload))
      (hview : p.state.view.toNat + 1 < 2 ^ 64) (newviews : OnlyNewViews queue) :
      StepEffect X me p (.message (.consensusNodePKsInfo entries) order)
        (advance
          { p with consensusNodePks := HashMap.ofEntries entries, pkConsensusNodes := nodes } primary)
        (.continueExecute queue)
  | initialStart (consensusNodes : List PeerId) (randomness : Bytes) (order : List (String × PeerId))
      (pkOrder : List (Bytes × ConsensusNodePKInfo)) (keypair : Option TBLSKey)
      (nodes : HashMap UInt64 Bytes) (primary : Bytes) (queue : List (SendType Payload))
      (own : keypair = p.keypair ∨
        ∃ keyInfo ∈ X.generateBlsKeys order p.state.faultToleranceCount randomness,
          X.peerIdString keyInfo.peerId = X.peerIdString me ∧ keypair = some keyInfo.tblsKey)
      (hview : p.state.view.toNat + 1 < 2 ^ 64) (newviews : OnlyNewViews queue) :
      StepEffect X me p (.initialStart consensusNodes randomness order pkOrder)
        (advance
          { p with
            consensusNodes := HashMap.ofEntries (consensusNodes.map fun peer ↦ (X.peerIdString peer, peer))
            peerId := X.peerIdString me
            keypair := keypair
            consensusNodePks := HashMap.ofEntries
              ((X.generateBlsKeys order p.state.faultToleranceCount randomness).map pkInfoOf)
            pkConsensusNodes := nodes } primary)
        (.continueExecute
          (((X.generateBlsKeys order p.state.faultToleranceCount randomness).map fun keyInfo ↦
              .unicast keyInfo.peerId (.message ⟨.tblsKey keyInfo.tblsKey⟩)) ++
            .broadcast (.message ⟨.consensusNodePKsInfo pkOrder⟩) :: queue))
  | viewTimeout (timeout : UInt64) (primary : Bytes) (queue : List (SendType Payload))
      (hview : p.state.view.toNat + 1 < 2 ^ 64) (newviews : OnlyNewViews queue) :
      StepEffect X me p .viewTimeout
        (advance { p with state := { p.state with currentViewTimeout := timeout } } primary)
        (.continueExecute queue)
  | protocolReset (peerId : String) :
      StepEffect X me p (.protocolReset peerId) (BasicHotstuffProtocol.new 1 peerId) silent

section Effect

variable {p p' : BasicHotstuffProtocol} {me : Bytes} {out : Answer} {order : List (Bytes × ConsensusNodePKInfo)}

theorem handleNewview_effect {msg : NewView} (h : p.handleNewview msg = some (p', out)) :
    StepEffect X me p (.message (.newView msg) order) p' out := by
  simp only [handleNewview, bind, pure, Option.bind_eq_some_iff] at h
  obtain ⟨threshold, -, hrest⟩ := h
  split at hrest
  case isTrue =>
    simp only [Option.bind_eq_some_iff, Option.some.injEq, Prod.mk.injEq] at hrest
    obtain ⟨highQC, -, rfl, rfl⟩ := hrest
    exact .newViewQuorum msg order highQC
  case isFalse =>
    simp only [Option.some.injEq, Prod.mk.injEq] at hrest
    obtain ⟨rfl, rfl⟩ := hrest
    exact .newView msg order

theorem handlePrepare_effect {msg : Prepare} (h : p.handlePrepare X msg me = some (p', out)) :
    StepEffect X me p (.message (.prepare msg) order) p' out := by
  unfold handlePrepare at h
  split at h
  case isTrue haccepted =>
    simp only [bind, pure, Option.bind_eq_some_iff, Option.some.injEq, Prod.mk.injEq] at h
    obtain ⟨answer, hvoted, rfl, rfl⟩ := h
    exact .prepare msg order answer haccepted hvoted
  case isFalse =>
    simp only [Option.some.injEq, Prod.mk.injEq] at h
    obtain ⟨rfl, rfl⟩ := h
    exact .idle _ order

theorem handlePrecommit_effect {msg : PreCommit} (h : p.handlePrecommit X msg me = some (p', out)) :
    StepEffect X me p (.message (.preCommit msg) order) p' out := by
  obtain ⟨checked, hchecked, hrest⟩ := Option.bind_eq_some_iff.1 h
  cases checked with
  | none =>
    simp only [pure, Option.some.injEq, Prod.mk.injEq] at hrest
    obtain ⟨rfl, rfl⟩ := hrest
    exact .idle _ order
  | some qc =>
    simp only [bind, pure, Option.bind_eq_some_iff, Option.some.injEq, Prod.mk.injEq] at hrest
    obtain ⟨answer, hvoted, rfl, rfl⟩ := hrest
    exact .preCommit msg order qc answer hchecked hvoted

theorem handleCommit_effect {msg : Commit} (h : p.handleCommit X msg me = some (p', out)) :
    StepEffect X me p (.message (.commit msg) order) p' out := by
  obtain ⟨checked, hchecked, hrest⟩ := Option.bind_eq_some_iff.1 h
  cases checked with
  | none =>
    simp only [pure, Option.some.injEq, Prod.mk.injEq] at hrest
    obtain ⟨rfl, rfl⟩ := hrest
    exact .idle _ order
  | some qc =>
    simp only [bind, pure, Option.bind_eq_some_iff, Option.some.injEq, Prod.mk.injEq] at hrest
    obtain ⟨answer, hvoted, rfl, rfl⟩ := hrest
    exact .commit msg order qc answer hchecked hvoted

theorem handleDecide_effect {msg : Decide} (h : p.handleDecide X msg me = some (p', out)) :
    StepEffect X me p (.message (.decide msg) order) p' out := by
  obtain ⟨checked, hchecked, hrest⟩ := Option.bind_eq_some_iff.1 h
  cases checked with
  | none =>
    simp only [pure, Option.some.injEq, Prod.mk.injEq] at hrest
    obtain ⟨rfl, rfl⟩ := hrest
    exact .idle _ order
  | some qc =>
    simp only [bind, pure, Option.bind_eq_some_iff, Option.some.injEq, Prod.mk.injEq,
      Prod.exists] at hrest
    obtain ⟨p₁, answer, hnext, rfl, rfl⟩ := hrest
    obtain ⟨primary, queue, hview, rfl, rfl, hqueue⟩ := newview_cases hnext
    exact .decide msg order qc primary queue hchecked hview hqueue

theorem handlePrepareVote_effect {vote : Vote} (h : p.handlePrepareVote X vote = some (p', out)) :
    StepEffect X me p (.message (.prepareVote vote) order) p' out := by
  obtain ⟨⟨p₁, qc⟩, hcollected, hrest⟩ := Option.bind_eq_some_iff.1 h
  rcases collectVote_cases hcollected with ⟨rfl, rfl⟩ | ⟨pkInfo, share, hverified, rfl, hqc⟩
  · obtain ⟨rfl, rfl⟩ := Prod.mk.inj (Option.some.inj hrest)
    exact .idle _ order
  · rcases hqc with ⟨rfl, hcount⟩ | ⟨signature, rfl, hquorum⟩
    · obtain ⟨rfl, rfl⟩ := Prod.mk.inj (Option.some.inj hrest)
      exact .vote .prepare vote order pkInfo share hverified hcount
    · obtain ⟨rfl, rfl⟩ := Prod.mk.inj (Option.some.inj hrest)
      exact .prepareQuorum vote order pkInfo share signature hverified hquorum

theorem handlePrecommitVote_effect {vote : Vote} (h : p.handlePrecommitVote X vote = some (p', out)) :
    StepEffect X me p (.message (.preCommitVote vote) order) p' out := by
  obtain ⟨⟨p₁, qc⟩, hcollected, hrest⟩ := Option.bind_eq_some_iff.1 h
  rcases collectVote_cases hcollected with ⟨rfl, rfl⟩ | ⟨pkInfo, share, hverified, rfl, hqc⟩
  · obtain ⟨rfl, rfl⟩ := Prod.mk.inj (Option.some.inj hrest)
    exact .idle _ order
  · rcases hqc with ⟨rfl, hcount⟩ | ⟨signature, rfl, hquorum⟩
    · obtain ⟨rfl, rfl⟩ := Prod.mk.inj (Option.some.inj hrest)
      exact .vote .preCommit vote order pkInfo share hverified hcount
    · obtain ⟨rfl, rfl⟩ := Prod.mk.inj (Option.some.inj hrest)
      exact .preCommitQuorum vote order pkInfo share signature hverified hquorum

theorem handleCommitVote_effect {vote : Vote} (h : p.handleCommitVote X vote me = some (p', out)) :
    StepEffect X me p (.message (.commitVote vote) order) p' out := by
  obtain ⟨⟨p₁, qc⟩, hcollected, hrest⟩ := Option.bind_eq_some_iff.1 h
  rcases collectVote_cases hcollected with ⟨rfl, rfl⟩ | ⟨pkInfo, share, hverified, rfl, hqc⟩
  · obtain ⟨rfl, rfl⟩ := Prod.mk.inj (Option.some.inj hrest)
    exact .idle _ order
  · rcases hqc with ⟨rfl, hcount⟩ | ⟨signature, rfl, hquorum⟩
    · obtain ⟨rfl, rfl⟩ := Prod.mk.inj (Option.some.inj hrest)
      exact .vote .commit vote order pkInfo share hverified hcount
    · simp only [bind, pure, Option.bind_eq_some_iff, Option.some.injEq, Prod.mk.injEq,
        Prod.exists] at hrest
      obtain ⟨p₂, answer, hnext, rfl, rfl⟩ := hrest
      obtain ⟨primary, queue, hview, rfl, rfl, hqueue⟩ := newview_cases hnext
      exact .commitQuorum vote order pkInfo share signature primary queue hverified hquorum hview hqueue

theorem extraInitialStart_effect {nodes : List PeerId} {randomness : Bytes}
    {nodeOrder : List (String × PeerId)}
    (h : p.extraInitialStart X nodes me randomness nodeOrder order = some (p', out)) :
    StepEffect X me p (.initialStart nodes randomness nodeOrder order) p' out := by
  obtain ⟨peer, hpeer, hdistribute⟩ := Option.bind_eq_some_iff.1 h
  obtain rfl := Platform.eq_of_peerIdFromBytes hpeer
  obtain ⟨keys, answer, rfl, hstored, rfl⟩ := distributeKeys_cases hdistribute
  obtain ⟨-, -, hnext⟩ := storageConsensusNodePk_cases hstored
  obtain ⟨primary, queue, hview, rfl, rfl, hqueue⟩ := newview_cases hnext
  exact .initialStart nodes randomness nodeOrder order _ _ primary queue (foldl_storeOwnKey _ _) hview hqueue

/-- Every call has one of the effects. -/
theorem step_effect {event : Event} (h : step X me p event = some (p', out)) :
    StepEffect X me p event p' out := by
  cases event with
  | initialStart nodes randomness nodeOrder order => exact extraInitialStart_effect h
  | viewTimeout =>
    obtain ⟨timeout, -, hnext⟩ := Option.bind_eq_some_iff.1 h
    obtain ⟨primary, queue, hview, rfl, rfl, hqueue⟩ := newview_cases hnext
    exact .viewTimeout timeout primary queue hview hqueue
  | protocolReset peerId =>
    obtain ⟨rfl, rfl⟩ := Prod.mk.inj (Option.some.inj h)
    exact .protocolReset peerId
  | message msg order =>
    cases msg with
    | request request =>
      obtain ⟨rfl, rfl⟩ := Prod.mk.inj (Option.some.inj h)
      exact .request request order
    | newView msg => exact handleNewview_effect h
    | prepare msg => exact handlePrepare_effect h
    | commit msg => exact handleCommit_effect h
    | preCommit msg => exact handlePrecommit_effect h
    | decide msg => exact handleDecide_effect h
    | prepareVote vote => exact handlePrepareVote_effect h
    | commitVote vote => exact handleCommitVote_effect h
    | preCommitVote vote => exact handlePrecommitVote_effect h
    | «end» msg =>
      obtain ⟨rfl, rfl⟩ := Prod.mk.inj (Option.some.inj h)
      exact .end msg order
    | tblsKey key =>
      obtain ⟨peer, -, hrest⟩ := Option.bind_eq_some_iff.1 h
      obtain ⟨rfl, rfl⟩ := Prod.mk.inj (Option.some.inj hrest)
      exact .tblsKey key order
    | consensusNodePKsInfo entries =>
      obtain ⟨peer, hpeer, hstored⟩ := Option.bind_eq_some_iff.1 h
      obtain rfl := Platform.eq_of_peerIdFromBytes hpeer
      obtain ⟨-, -, hnext⟩ := storageConsensusNodePk_cases hstored
      obtain ⟨primary, queue, hview, rfl, rfl, hqueue⟩ := newview_cases hnext
      exact .consensusNodePKsInfo entries order _ primary queue hview hqueue

end Effect

/-! ## Messages that are neither votes nor certificates -/

/-- The messages that a call sends. -/
def sentMessages (out : Answer) : List MessageType :=
  (out.queue.flatMap SendType.payloads).filterMap fun
    | .message msg => some msg.msgType
    | .empty => none

/-- The messages with which nodes change views and distribute keys. -/
inductive Housekeeping : MessageType → Prop
  | newView (newview : NewView) : Housekeeping (.newView newview)
  | tblsKey (key : TBLSKey) : Housekeeping (.tblsKey key)
  | consensusNodePKsInfo (entries : List (Bytes × ConsensusNodePKInfo)) :
      Housekeeping (.consensusNodePKsInfo entries)

theorem housekeeping_of_newviews {queue : List (SendType Payload)} (h : OnlyNewViews queue) :
    ∀ msg ∈ sentMessages (.continueExecute queue), Housekeeping msg := by
  intro msg hmsg
  obtain ⟨payload, hpayload, hsome⟩ := List.mem_filterMap.1 hmsg
  obtain ⟨newview, rfl⟩ := h payload hpayload
  obtain rfl := Option.some.inj hsome
  exact .newView newview

theorem housekeeping_of_distribution {keys : List DistributeTBLSKey}
    {entries : List (Bytes × ConsensusNodePKInfo)} {queue : List (SendType Payload)}
    (h : OnlyNewViews queue) :
    ∀ msg ∈ sentMessages (.continueExecute
      ((keys.map fun keyInfo ↦ .unicast keyInfo.peerId (.message ⟨.tblsKey keyInfo.tblsKey⟩)) ++
        .broadcast (.message ⟨.consensusNodePKsInfo entries⟩) :: queue)), Housekeeping msg := by
  intro msg hmsg
  obtain ⟨payload, hpayload, hsome⟩ := List.mem_filterMap.1 hmsg
  obtain ⟨send, hsend, hpayload⟩ := List.mem_flatMap.1 hpayload
  rcases List.mem_append.1 hsend with hkey | hrest
  · obtain ⟨keyInfo, -, rfl⟩ := List.mem_map.1 hkey
    rw [List.mem_singleton.1 hpayload] at hsome
    obtain rfl := Option.some.inj hsome
    exact .tblsKey keyInfo.tblsKey
  · rcases List.mem_cons.1 hrest with rfl | hnewview
    · rw [List.mem_singleton.1 hpayload] at hsome
      obtain rfl := Option.some.inj hsome
      exact .consensusNodePKsInfo entries
    · apply housekeeping_of_newviews h
      exact List.mem_filterMap.2 ⟨payload, List.mem_flatMap.2 ⟨send, hnewview, hpayload⟩, hsome⟩

/-- What is read off votes and certificates is not found in other messages. -/
theorem filterMap_sentMessages_eq_nil {α : Type} {read : MessageType → Option α} {out : Answer}
    (hread : ∀ msg, Housekeeping msg → read msg = none)
    (h : ∀ msg ∈ sentMessages out, Housekeeping msg) : (sentMessages out).filterMap read = [] :=
  List.filterMap_eq_nil_iff.2 fun msg hmsg ↦ hread msg (h msg hmsg)

end BFTDiagnosis.BasicHotstuff
