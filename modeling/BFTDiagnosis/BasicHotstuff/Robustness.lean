import BFTDiagnosis.BasicHotstuff.Steps

/-!
# Messages that abort a Basic HotStuff node

The handlers look keys, voters and leaders up with `unwrap` and `expect`. In a state that is reached from the
default, the numbers are those of one tolerated fault and the table of nodes has valid ids, so some of these never
fail. The others do: a vote of an unknown sender or without a share, a certificate before the own key, a leader id
that is not one, and every new view before the table of nodes is complete.
-/

namespace BFTDiagnosis.BasicHotstuff

open Components Utils Word Hotstuff BasicHotstuffProtocol

variable {X : Externals}

/-! ## The conditions -/

/-- There is a next view, and a node with its number. -/
def CanAdvance (p : BasicHotstuffProtocol) : Prop :=
  p.state.view.toNat + 1 < 2 ^ 64 ∧ (nodeOfView p.pkConsensusNodes (p.state.view + 1)).isSome = true

/-- A signed QC of the phase and of the current view needs the own key, and if it verifies, what comes next. -/
def CertificateSurvives (X : Externals) (p : BasicHotstuffProtocol) (phase : Phase) (justify : Option QC)
    (next : Prop) : Prop :=
  ∀ qc signature, justify = some qc → qc.signature = some signature → qc.msgType = phase.code →
    qc.viewNum = p.state.view → ∃ keypair, p.keypair = some keypair ∧
      (keypair.thresholdVerify X.toBlsttc signature (asBytes (voteHash X phase qc.viewNum qc.block)) = true → next)

/-- A vote needs a registered sender and a share; if the share is valid and completes a quorum, it also needs an
own key that combines the shares, and what comes next. -/
def VoteSurvives (X : Externals) (p : BasicHotstuffProtocol) (phase : Phase) (vote : Vote) (next : Prop) : Prop :=
  ∃ pkInfo share, p.consensusNodePks.lookup vote.fromPeerId = some pkInfo ∧ vote.partialSignature = some share ∧
    (X.verifyShare pkInfo.publicKey share (asBytes (voteHash X phase vote.viewNum vote.block)) = true →
      ((p.log.sharesAt (voteHash X phase vote.viewNum vote.block)).insert pkInfo.number share).len =
          2 * p.state.faultToleranceCount.toNat + 1 →
        (∃ keypair, p.keypair = some keypair ∧ (keypair.combinePartialSignatures X.toBlsttc
          ((p.log.sharesAt (voteHash X phase vote.viewNum vote.block)).insert pkInfo.number share)).isSome = true) ∧
        next)

/-- What the handler of a message relies on. -/
def Survives (X : Externals) (p : BasicHotstuffProtocol) (order : List (Bytes × ConsensusNodePKInfo)) :
    MessageType → Prop
  | .prepare msg => p.checkPrepare X msg = true → p.keypair.isSome = true → X.peerIdValid msg.fromPeerId = true
  | .preCommit msg => CertificateSurvives X p .prepare msg.justify (X.peerIdValid p.state.primary = true)
  | .commit msg => CertificateSurvives X p .preCommit msg.justify (X.peerIdValid p.state.primary = true)
  | .decide msg => CertificateSurvives X p .commit msg.justify (CanAdvance p)
  | .prepareVote vote => VoteSurvives X p .prepare vote True
  | .preCommitVote vote => VoteSurvives X p .preCommit vote True
  | .commitVote vote => VoteSurvives X p .commit vote (CanAdvance p)
  | .consensusNodePKsInfo _ => IdsValid X.toPlatform order ∧
      CanAdvance { p with pkConsensusNodes := assignNumbers p.pkConsensusNodes order }
  | _ => True

/-- What the handlers rely on and every reachable state has: one tolerated fault, and valid ids in the table. -/
structure Operational (X : Externals) (p : BasicHotstuffProtocol) : Prop where
  faults : p.state.faultToleranceCount = 1
  numbers : NumbersValid X.toPlatform p.pkConsensusNodes

/-! ## Handlers -/

section Handlers

variable {p p' : BasicHotstuffProtocol} {me : Bytes} {out : Answer}

theorem Operational.quorumSize_eq (h : Operational X p) : quorumSize p.state.faultToleranceCount = some 3 := by
  rw [h.faults]
  rfl

theorem isSome_newview (h : NumbersValid X.toPlatform p.pkConsensusNodes) :
    (p.newview X me).isSome = true ↔ CanAdvance p := by
  have hone : (1 : UInt64).toNat = 1 := rfl
  simp only [newview, CanAdvance, bind, pure]
  unfold checkedAdd
  rw [hone]
  split
  case isFalse hlarge => exact iff_of_false (by simp) fun h ↦ hlarge h.1
  case isTrue hview =>
    rw [Option.bind_some, and_iff_right hview]
    cases hnode : nodeOfView p.pkConsensusNodes (p.state.view + 1) with
    | none =>
      rw [nodeOfView] at hnode
      simp [changeLeader, hnode]
    | some primary =>
      have hlen := len_ne_zero_of_nodeOfView hnode
      have hvalid := h _ _ hnode
      rw [nodeOfView] at hnode
      simp [changeLeader, hlen, hnode, Platform.peerIdFromBytes, hvalid]

theorem isSome_handleNewview (h : Operational X p) (msg : NewView) : (p.handleNewview msg).isSome = true := by
  have hrecorded : (p.log.recordNewview msg.viewNum msg).newviews.lookup msg.viewNum =
      some (p.log.newviews.listAt msg.viewNum ++ [msg]) := by
    rw [Log.recordNewview, HashMap.pushAt_eq_insert, Finmap.lookup_insert]
  simp only [handleNewview, bind, pure, h.quorumSize_eq, Option.bind_some]
  split
  · simp only [Log.getHighQCByView, bind, pure, hrecorded, Option.bind_some, Option.isSome_some]
  · rfl

theorem isSome_sendVote {phase : Phase} {viewNum : UInt64} {block : Block} :
    (p.sendVote X me phase viewNum block).isSome = true ↔
      (p.keypair.isSome = true → X.peerIdValid p.state.primary = true) := by
  unfold sendVote
  cases hkey : p.keypair with
  | none => simp
  | some keypair =>
    cases hvalid : X.peerIdValid p.state.primary <;> simp [Platform.peerIdFromBytes, hvalid]

theorem isSome_handlePrepare {msg : Prepare} {order : List (Bytes × ConsensusNodePKInfo)} :
    (p.handlePrepare X msg me).isSome = true ↔ Survives X p order (.prepare msg) := by
  simp only [handlePrepare, Survives]
  split
  case isFalse hrefused => simp [hrefused]
  case isTrue haccepted =>
    rw [forall_prop_of_true haccepted]
    have hvote := @isSome_sendVote X { p with state := { p.state with primary := msg.fromPeerId } } me .prepare
      msg.viewNum msg.block
    rw [← hvote]
    exact iff_of_eq (congrArg (· = true) (isSome_bind_some _ _))

/-- The handlers of a certificate: the check, and what comes next when it succeeds. -/
theorem isSome_checkQC_bind {phase : Phase} {justify : Option QC} {next : Prop}
    {rest : Option QC → Option (BasicHotstuffProtocol × Answer)} (hnone : (rest none).isSome = true)
    (hsome : ∀ qc, justify = some qc → p.keypair.isSome = true → ((rest (some qc)).isSome = true ↔ next)) :
    ((p.checkQC X phase justify).bind rest).isSome = true ↔ CertificateSurvives X p phase justify next := by
  unfold checkQC
  cases justify with
  | none => exact iff_of_true hnone fun qc signature h ↦ by cases h
  | some qc =>
    cases hsignature : qc.signature with
    | none =>
      simp only [hsignature]
      refine iff_of_true hnone fun qc' signature h h' ↦ ?_
      obtain rfl := Option.some.inj h
      rw [hsignature] at h'
      cases h'
    | some signature =>
      simp only [hsignature]
      split
      case isTrue hother =>
        refine iff_of_true hnone fun qc' signature' h _ htype hview ↦ ?_
        obtain rfl := Option.some.inj h
        exact absurd hother (by simp [htype, hview])
      case isFalse hmatch =>
        have hfields : qc.msgType = phase.code ∧ qc.viewNum = p.state.view := by
          simpa only [ne_eq, not_or, not_not] using hmatch
        have hsurvives : CertificateSurvives X p phase (some qc) next ↔ ∃ keypair, p.keypair = some keypair ∧
            (keypair.thresholdVerify X.toBlsttc signature
              (asBytes (voteHash X phase qc.viewNum qc.block)) = true → next) := by
          constructor
          · exact fun h ↦ h qc signature rfl hsignature hfields.1 hfields.2
          · intro h qc' signature' hqc hsignature' _ _
            obtain rfl := Option.some.inj hqc
            obtain rfl := Option.some.inj (hsignature.symm.trans hsignature')
            exact h
        rw [hsurvives]
        cases hkey : p.keypair with
        | none => simp
        | some keypair =>
          have hnext := hsome qc rfl (by rw [hkey]; rfl)
          cases hverify : keypair.thresholdVerify X.toBlsttc signature
            (asBytes (voteHash X phase qc.viewNum qc.block)) <;> simp [hverify, hnone, hnext]

/-- The handlers of a vote: the share is recorded, and what comes next when there is a quorum. -/
theorem isSome_collectVote_bind (h : Operational X p) {phase : Phase} {vote : Vote} {next : Prop}
    {rest : BasicHotstuffProtocol × Option QC → Option (BasicHotstuffProtocol × Answer)}
    (hnone : ∀ p', (rest (p', none)).isSome = true)
    (hsome : ∀ pkInfo share qc, (rest (p.record X phase vote pkInfo share, some qc)).isSome = true ↔ next) :
    ((p.collectVote X phase vote).bind rest).isSome = true ↔ VoteSurvives X p phase vote next := by
  unfold VoteSurvives
  simp only [collectVote, getPublicKeyInfoByPeerId, bind, pure]
  cases hregistered : p.consensusNodePks.lookup vote.fromPeerId with
  | none => simp
  | some pkInfo =>
    cases hattached : vote.partialSignature with
    | none => simp
    | some share =>
      have hthree : (3 : UInt64).toNat = 2 * p.state.faultToleranceCount.toNat + 1 := by
        rw [h.faults]
        rfl
      have hexists {P : ConsensusNodePKInfo → Bytes → Prop} :
          (∃ pkInfo' share', some pkInfo = some pkInfo' ∧ some share = some share' ∧ P pkInfo' share') ↔
            P pkInfo share := by simp
      rw [hexists, Option.bind_some, Option.bind_some]
      cases hverify : X.verifyShare pkInfo.publicKey share
        (asBytes (voteHash X phase vote.viewNum vote.block)) with
      | false => simp [hnone]
      | true =>
        rw [forall_prop_of_true rfl]
        simp only [Bool.not_true, Bool.false_eq_true, if_false, h.quorumSize_eq, Option.bind_some,
          Log.getPartialSignaturesCountByMessageHash, Log.getPartialSignaturesByMessageHash, countSignatures,
          Log.lookup_record_self, hthree]
        split
        case isTrue hcount => simp [hnone, hcount]
        case isFalse hcount =>
          rw [forall_prop_of_true (not_not.1 hcount)]
          cases hkey : p.keypair with
          | none => simp
          | some keypair =>
            cases hcombined : keypair.combinePartialSignatures X.toBlsttc
              ((p.log.sharesAt (voteHash X phase vote.viewNum vote.block)).insert pkInfo.number share) with
            | none => simp [hcombined]
            | some signature =>
              have hnext := hsome pkInfo share
                { msgType := phase.code, viewNum := vote.viewNum, block := vote.block, signature := some signature }
              simp only [record, hkey] at hnext
              simp [hcombined, hnext]

theorem isSome_handlePrecommit {msg : PreCommit} {order : List (Bytes × ConsensusNodePKInfo)} :
    (p.handlePrecommit X msg me).isSome = true ↔ Survives X p order (.preCommit msg) := by
  refine isSome_checkQC_bind rfl fun qc _ hkey ↦ ?_
  have hvote := @isSome_sendVote X { p with state := { p.state with prepareQC := some qc } } me .preCommit
    msg.viewNum qc.block
  rw [forall_prop_of_true hkey] at hvote
  rw [← hvote]
  exact iff_of_eq (congrArg (· = true) (isSome_bind_some _ _))

theorem isSome_handleCommit {msg : Commit} {order : List (Bytes × ConsensusNodePKInfo)} :
    (p.handleCommit X msg me).isSome = true ↔ Survives X p order (.commit msg) := by
  refine isSome_checkQC_bind rfl fun qc _ hkey ↦ ?_
  have hvote := @isSome_sendVote X { p with state := { p.state with lockedQC := some qc } } me .commit
    msg.viewNum qc.block
  rw [forall_prop_of_true hkey] at hvote
  rw [← hvote]
  exact iff_of_eq (congrArg (· = true) (isSome_bind_some _ _))

theorem isSome_bind_newview (h : Operational X p)
    {wrap : BasicHotstuffProtocol × Answer → BasicHotstuffProtocol × Answer} :
    ((p.viewTimeoutStop.newview X me).bind fun result ↦ some (wrap result)).isSome = true ↔ CanAdvance p := by
  have hadvance := @isSome_newview X p.viewTimeoutStop me h.numbers
  have hsame : CanAdvance p.viewTimeoutStop ↔ CanAdvance p := Iff.rfl
  rw [isSome_bind_some, hadvance, hsame]

theorem isSome_handleDecide (h : Operational X p) {msg : Decide} {order : List (Bytes × ConsensusNodePKInfo)} :
    (p.handleDecide X msg me).isSome = true ↔ Survives X p order (.decide msg) :=
  isSome_checkQC_bind rfl fun _ _ _ ↦ isSome_bind_newview h

theorem isSome_handlePrepareVote (h : Operational X p) {vote : Vote}
    {order : List (Bytes × ConsensusNodePKInfo)} :
    (p.handlePrepareVote X vote).isSome = true ↔ Survives X p order (.prepareVote vote) :=
  isSome_collectVote_bind h (fun _ ↦ rfl) fun _ _ _ ↦ iff_of_true rfl trivial

theorem isSome_handlePrecommitVote (h : Operational X p) {vote : Vote}
    {order : List (Bytes × ConsensusNodePKInfo)} :
    (p.handlePrecommitVote X vote).isSome = true ↔ Survives X p order (.preCommitVote vote) :=
  isSome_collectVote_bind h (fun _ ↦ rfl) fun _ _ _ ↦ iff_of_true rfl trivial

theorem isSome_handleCommitVote (h : Operational X p) {vote : Vote}
    {order : List (Bytes × ConsensusNodePKInfo)} :
    (p.handleCommitVote X vote me).isSome = true ↔ Survives X p order (.commitVote vote) := by
  refine isSome_collectVote_bind h (fun _ ↦ rfl) fun pkInfo share qc ↦ ?_
  have hrecord : Operational X (p.record X .commit vote pkInfo share) := ⟨h.faults, h.numbers⟩
  exact isSome_bind_newview hrecord

theorem isSome_storageConsensusNodePk (h : Operational X p) {order : List (Bytes × ConsensusNodePKInfo)}
    {info : HashMap Bytes ConsensusNodePKInfo} (horder : info.Listing order) :
    (p.storageConsensusNodePk X order info me).isSome = true ↔ IdsValid X.toPlatform order ∧
      CanAdvance { p with pkConsensusNodes := assignNumbers p.pkConsensusNodes order } := by
  rw [storageConsensusNodePk, if_pos horder, foldlM_storeNumber]
  split
  case isTrue hids =>
    rw [and_iff_right hids]
    exact isSome_newview (h.numbers.assignNumbers hids)
  case isFalse hids => exact iff_of_false Bool.false_ne_true fun hboth ↦ hids hboth.1

/-- The handler of a message returns exactly when it can rely on what it needs. -/
theorem isSome_handler (h : Operational X p) (hme : X.peerIdValid me = true) {msg : MessageType}
    {order : List (Bytes × ConsensusNodePKInfo)}
    (horder : ∀ entries, msg = .consensusNodePKsInfo entries → (HashMap.ofEntries entries).Listing order) :
    (p.consensusProtocolMessageHandler X me order msg).isSome = true ↔ Survives X p order msg := by
  have hpeer : X.peerIdFromBytes me = some me := if_pos hme
  cases msg with
  | request request => exact iff_of_true rfl trivial
  | newView msg => exact iff_of_true (isSome_handleNewview h msg) trivial
  | prepare msg => exact isSome_handlePrepare
  | commit msg => exact isSome_handleCommit
  | preCommit msg => exact isSome_handlePrecommit
  | decide msg => exact isSome_handleDecide h
  | prepareVote vote => exact isSome_handlePrepareVote h
  | commitVote vote => exact isSome_handleCommitVote h
  | preCommitVote vote => exact isSome_handlePrecommitVote h
  | «end» msg => exact iff_of_true rfl trivial
  | tblsKey key =>
    refine iff_of_true ?_ trivial
    rw [consensusProtocolMessageHandler, hpeer]
    rfl
  | consensusNodePKsInfo entries =>
    rw [consensusProtocolMessageHandler, hpeer]
    have hinfo : Operational X { p with consensusNodePks := HashMap.ofEntries entries } := ⟨h.faults, h.numbers⟩
    exact isSome_storageConsensusNodePk hinfo (horder entries rfl)

theorem isSome_viewTimeoutHandler (h : Operational X p) :
    (p.viewTimeoutHandler X me).isSome = true ↔
      2 * p.state.currentViewTimeout.toNat < 2 ^ 64 ∧ CanAdvance p := by
  have htwo : (2 : UInt64).toNat = 2 := rfl
  rw [viewTimeoutHandler]
  unfold checkedMul
  rw [htwo, Nat.mul_comm]
  split
  case isTrue hfits =>
    rw [and_iff_right hfits]
    exact isSome_newview h.numbers
  case isFalse hlarge => exact iff_of_false Bool.false_ne_true fun hboth ↦ hlarge hboth.1

end Handlers

/-! ## Reachable states -/

section Runs

variable {p p' : BasicHotstuffProtocol} {me : Bytes} {out : Answer} {event : Event}

theorem newview_pkConsensusNodes (h : p.newview X me = some (p', out)) :
    p'.pkConsensusNodes = p.pkConsensusNodes := by
  obtain ⟨primary, queue, -, rfl, -, -⟩ := newview_cases h
  rfl

theorem storageConsensusNodePk_numbers {order : List (Bytes × ConsensusNodePKInfo)}
    {info : HashMap Bytes ConsensusNodePKInfo} (h : p.storageConsensusNodePk X order info me = some (p', out))
    (hvalid : NumbersValid X.toPlatform p.pkConsensusNodes) :
    NumbersValid X.toPlatform p'.pkConsensusNodes := by
  obtain ⟨-, hids, hnewview⟩ := storageConsensusNodePk_cases h
  rw [newview_pkConsensusNodes hnewview]
  exact hvalid.assignNumbers hids

theorem extraInitialStart_numbers {nodes : List PeerId} {randomness : Bytes} {order : List (String × PeerId)}
    {pkOrder : List (Bytes × ConsensusNodePKInfo)}
    (h : p.extraInitialStart X nodes me randomness order pkOrder = some (p', out))
    (hvalid : NumbersValid X.toPlatform p.pkConsensusNodes) :
    NumbersValid X.toPlatform p'.pkConsensusNodes := by
  obtain ⟨peer, -, hdistribute⟩ := Option.bind_eq_some_iff.1 h
  obtain ⟨keys, answer, -, hstored, -⟩ := distributeKeys_cases hdistribute
  exact storageConsensusNodePk_numbers hstored hvalid

/-- Every call keeps what the handlers rely on. -/
theorem Operational.step (h : Operational X p) (htaken : step X me p event = some (p', out)) :
    Operational X p' := by
  cases step_effect htaken with
  | protocolReset peerId => exact ⟨rfl, numbersValid_empty _⟩
  | consensusNodePKsInfo entries order nodes primary queue hview hqueue =>
    obtain ⟨peer, -, hstored⟩ := Option.bind_eq_some_iff.1 htaken
    have hnumbers := storageConsensusNodePk_numbers hstored h.numbers
    exact ⟨h.faults, hnumbers⟩
  | initialStart consensusNodes randomness order pkOrder keypair nodes primary queue hown hview hqueue =>
    have hnumbers := extraInitialStart_numbers htaken h.numbers
    exact ⟨h.faults, hnumbers⟩
  | _ => exact ⟨h.faults, h.numbers⟩

theorem operational_of_run {peerId : String} {run : List (Transition BasicHotstuffProtocol Event Answer)}
    (hrun : IsRun (step X me) (.new 1 peerId) run p) : Operational X p :=
  hrun.invariant_of_forall (Operational X) ⟨rfl, numbersValid_empty _⟩
    (fun _ h _ taken ↦ h.step taken) (fun _ _ ↦ trivial)

end Runs

/-! ## Messages as they arrive -/

/-- What reaches the handlers: a decoded message, public keys, whose bytes the handler deserializes itself, or a
view timeout. -/
inductive Call where
  | message (msg : MessageType) (order : List (Bytes × ConsensusNodePKInfo))
  | pksInfo (bytes : Bytes) (order : List (Bytes × ConsensusNodePKInfo))
  | viewTimeout

namespace Call

variable (deserialize : Bytes → Option (List (Bytes × ConsensusNodePKInfo)))

def run (X : Externals) (me : Bytes) (p : BasicHotstuffProtocol) : Call → Option (BasicHotstuffProtocol × Answer)
  | message msg order => step X me p (.message msg order)
  | pksInfo bytes order => do
    let entries ← deserialize bytes
    step X me p (.message (.consensusNodePKsInfo entries) order)
  | viewTimeout => step X me p .viewTimeout

/-- The order is one in which the map of public keys is visited. -/
def Ordered : Call → Prop
  | message msg order => ∀ entries, msg = .consensusNodePKsInfo entries → (HashMap.ofEntries entries).Listing order
  | pksInfo bytes order => ∀ entries, deserialize bytes = some entries → (HashMap.ofEntries entries).Listing order
  | viewTimeout => True

/-- What the handler of a call relies on. -/
def Survives (X : Externals) (p : BasicHotstuffProtocol) : Call → Prop
  | message msg order => BasicHotstuff.Survives X p order msg
  | pksInfo bytes order => ∃ entries, deserialize bytes = some entries ∧
      BasicHotstuff.Survives X p order (.consensusNodePKsInfo entries)
  | viewTimeout => 2 * p.state.currentViewTimeout.toNat < 2 ^ 64 ∧ CanAdvance p

theorem isSome_run {p : BasicHotstuffProtocol} {me : Bytes} (h : Operational X p)
    (hme : X.peerIdValid me = true) {call : Call} (horder : call.Ordered deserialize) :
    (call.run deserialize X me p).isSome = true ↔ call.Survives deserialize X p := by
  cases call with
  | message msg order => exact isSome_handler h hme horder
  | viewTimeout => exact isSome_viewTimeoutHandler h
  | pksInfo bytes order =>
    unfold run Survives
    cases hentries : deserialize bytes with
    | none => simp [hentries]
    | some entries =>
      have hhandler := @isSome_handler X p me h hme (.consensusNodePKsInfo entries) order fun entries' heq ↦ by
        injection heq with heq
        exact heq ▸ horder entries hentries
      simp only [bind, hentries, Option.bind_some, Option.some.injEq, exists_eq_left']
      exact hhandler

end Call

end BFTDiagnosis.BasicHotstuff
