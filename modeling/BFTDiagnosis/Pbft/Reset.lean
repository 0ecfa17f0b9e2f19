import BFTDiagnosis.Pbft.HiddenState

/-!
# The reset of PBFT

The reachable states that a reset returns to a fresh protocol are exactly the untouched ones. Whatever else a
node has learned is found out by calls on both protocols: a query for a request or the primary, a proposal that
only one of them accepts, a ViewChange that only one of them has waited for, or CheckPoints that become stable
for one of them first.
-/

namespace BFTDiagnosis.Pbft

open Components Word PBFTProtocol

variable {X : Externals}

/-! ## What shows -/

section Shows

variable {me : Bytes} {p p' q : PBFTProtocol}

/-- A message that one of two indistinguishable protocols handles is handled alike by the other one. -/
theorem next_message (h : Indistinguishable (call X me) p q) {msg : MessageType} {out : Answer}
    (htaken : p.consensusProtocolMessageHandler X me msg = some (p', out)) :
    ∃ q', q.consensusProtocolMessageHandler X me msg = some (q', out) ∧ Indistinguishable (call X me) p' q' := by
  have hcall : call X me p (.consensusProtocolMessageHandler msg) = some (p', .phaseState out) :=
    Option.map_eq_some_iff.2 ⟨(p', out), htaken, rfl⟩
  obtain ⟨q', hcall', hnext⟩ := h.next hcall
  obtain ⟨⟨q'', out'⟩, htaken', heq⟩ := Option.map_eq_some_iff.1 hcall'
  obtain ⟨rfl, hout⟩ := Prod.mk.inj heq
  injection hout with hout
  exact ⟨q'', hout ▸ htaken', hnext⟩

theorem decision_checkTakenRequest (h : Indistinguishable (call X me) p q) (request : Bytes) :
    p.checkTakenRequest request = q.checkTakenRequest request := by
  obtain ⟨q', hcall, -⟩ := h.next (show call X me p (.checkTakenRequest request) = some (p, _) from rfl)
  injection (Prod.mk.inj (Option.some.inj hcall)).2 with hsame
  exact hsame.symm

theorem decision_isLeader (h : Indistinguishable (call X me) p q) (peerId : Bytes) :
    p.isLeader peerId = q.isLeader peerId := by
  obtain ⟨q', hcall, -⟩ := h.next (show call X me p (.isLeader peerId) = some (p, _) from rfl)
  injection (Prod.mk.inj (Option.some.inj hcall)).2 with hsame
  exact hsame.symm

/-- A first proposal for view 0, signed with the key pair of the node itself in the name of a peer. -/
def probe (X : Externals) (keypair sender : Bytes) (request : Request) : PrePrepare :=
  let preprepare : PrePrepare :=
    { view := 0, number := 1, mHash := "", m := X.requestJson request, signature := [], fromPeerId := sender }
  { preprepare with signature := X.sign keypair (asBytes (getMessageKey X (.prePrepare preprepare))) }

/-- The node answers the proposal with a Prepare. -/
def Heeds (X : Externals) (me : Bytes) (p : PBFTProtocol) (msg : PrePrepare) : Prop :=
  ∃ p' prepare, p.handlePreprepare X me msg = some (p', .continueExecute [.broadcast prepare])

theorem Heeds.of_indistinguishable (h : Indistinguishable (call X me) p q) {msg : PrePrepare}
    (hheeds : Heeds X me p msg) : Heeds X me q msg := by
  obtain ⟨p', prepare, htaken⟩ := hheeds
  obtain ⟨q', htaken', -⟩ := @next_message X me p p' q h (.prePrepare msg) _ htaken
  exact ⟨q', prepare, htaken'⟩

/-- The node accepts the first proposal of a signed peer in view 0 as long as the stable number is 0. -/
theorem verifyPreprepare_first_iff {msg : PrePrepare} (hview : msg.view = 0) (hnumber : msg.number = 1)
    (hvalid : X.peerIdValid msg.fromPeerId = true) :
    p.verifyPreprepare X msg = some true ↔
      p.state.view = 0 ∧ p.state.stableCheckpoint.1 = 0 ∧ ValidlySigned X p (.prePrepare msg) := by
  have hwindow (hstable : p.state.stableCheckpoint.1 = 0) : p.checkSequenceNumber msg.number = some true := by
    refine (checkSequenceNumber_eq ?_).2 ?_
    · rw [WindowFits, hstable]
      decide
    · rw [InWindow, hstable, hnumber]
      decide
  constructor
  · intro haccepted
    have hchecked := verifyPreprepare_eq_true haccepted
    refine ⟨hchecked.2.trans hview, ?_, hchecked.1⟩
    simp only [verifyPreprepare, bind, pure, Option.bind_eq_some_iff] at haccepted
    obtain ⟨signed, -, hrest⟩ := haccepted
    cases signed with
    | false => simp at hrest
    | true =>
      simp only [Bool.not_true, Bool.false_eq_true, if_false, Option.bind_eq_some_iff, Option.some.injEq,
        Bool.and_eq_true] at hrest
      obtain ⟨inWindow, hinWindow, htrue, -⟩ := hrest
      rw [htrue] at hinWindow
      have hfits : WindowFits p := isSome_checkSequenceNumber.1 (Option.isSome_iff_exists.2 ⟨_, hinWindow⟩)
      have hlow := ((checkSequenceNumber_eq hfits).1 hinWindow).1
      rw [hnumber, UInt64.lt_iff_toNat_lt] at hlow
      exact UInt64.toNat_inj.1 (Nat.lt_one_iff.1 hlow)
  · rintro ⟨hzero, hstable, hsigned⟩
    obtain ⟨-, hverified⟩ | ⟨hunsigned, -⟩ := @verifySignature_of_valid X p (.prePrepare msg) hvalid
    · change p.verifySignature X msg.fromPeerId msg.signature (getMessageKey X (.prePrepare msg)) = some true
        at hverified
      simp only [verifyPreprepare, hverified, hwindow hstable, hzero, hview, bind, pure, Option.bind_some]
      rfl
    · exact absurd hsigned hunsigned

theorem heeds_probe_iff {keypair sender : Bytes} {request : Request}
    (hjson : X.requestOfJson (X.requestJson request) = some request) (hvalid : X.peerIdValid sender = true) :
    Heeds X me p (probe X keypair sender request) ↔ p.state.view = 0 ∧ p.state.stableCheckpoint.1 = 0 ∧
      ValidlySigned X p (.prePrepare (probe X keypair sender request)) := by
  have hverify := @verifyPreprepare_first_iff X (p.takePreprepare X (probe X keypair sender request) request)
    (probe X keypair sender request) rfl rfl hvalid
  constructor
  · rintro ⟨p', prepare, htaken⟩
    obtain ⟨request', hjson', ⟨haccepted, -⟩ | ⟨-, -, hsilent⟩⟩ := handlePreprepare_cases htaken
    · obtain rfl : request = request' := Option.some.inj (hjson.symm.trans hjson')
      exact hverify.1 haccepted
    · injection hsilent with hqueue
      cases hqueue
  · intro hready
    have haccepted := hverify.2 hready
    have hrequest : X.requestOfJson (probe X keypair sender request).m = some request := hjson
    have hanswer : p.handlePreprepare X me (probe X keypair sender request) =
        some ((p.takePreprepare X (probe X keypair sender request) request).acceptPreprepare X me
          (probe X keypair sender request) request) := by
      simp only [handlePreprepare, hrequest, haccepted, bind, pure, Option.bind_some, if_true]
    exact ⟨_, _, hanswer⟩

/-- Let the node learn the public key of its own key pair as the one of a peer. -/
def introduction (X : Externals) (keypair peer : Bytes) : PublicKey := ⟨X.publicKey keypair, peer⟩

theorem handler_introduction {keypair peer : Bytes} (hvalid : X.peerIdValid peer = true) :
    p.consensusProtocolMessageHandler X me (.publicKey (introduction X keypair peer)) =
      some ({ p with consensusNodePk :=
        if peer ∈ p.consensusNodePk then p.consensusNodePk
        else p.consensusNodePk.insert peer (X.publicKey keypair) }, silent) := by
  have hpeer : X.peerIdFromBytes (introduction X keypair peer).fromPeerId = some peer := if_pos hvalid
  change p.storagePublicKeyByPeerId X (introduction X keypair peer) = _
  simp only [storagePublicKeyByPeerId, hpeer]
  rfl

section Introduced

variable {keypair : Bytes} {request : Request}
  (hsign : ∀ message, X.verify (X.publicKey keypair) (X.sign keypair message) message = true)
  (hjson : X.requestOfJson (X.requestJson request) = some request)
include hsign hjson

/-- A protocol that knows no key, in view 0 and with the stable number 0, heeds a peer as soon as it has learned
its key. -/
theorem heeds_introduced (hkeys : q.consensusNodePk = ∅) (hview : q.state.view = 0)
    (hstable : q.state.stableCheckpoint.1 = 0) {peer : Bytes} (hvalid : X.peerIdValid peer = true) :
    ∃ q', q.consensusProtocolMessageHandler X me (.publicKey (introduction X keypair peer)) = some (q', silent) ∧
      Heeds X me q' (probe X keypair peer request) := by
  refine ⟨_, handler_introduction hvalid, (heeds_probe_iff hjson hvalid).2 ⟨hview, hstable, ?_⟩⟩
  refine ⟨X.publicKey keypair, ?_, hsign _⟩
  simp only [hkeys, if_neg (Finmap.notMem_empty)]
  exact Finmap.lookup_insert _

/-- What is indistinguishable from a protocol that knows no key, in view 0 and with the stable number 0, has the
same view and the same stable number. -/
theorem view_stable_of_indistinguishable (h : Indistinguishable (call X me) p q) (hkeys : q.consensusNodePk = ∅)
    (hview : q.state.view = 0) (hstable : q.state.stableCheckpoint.1 = 0) {peer : Bytes}
    (hvalid : X.peerIdValid peer = true) : p.state.view = 0 ∧ p.state.stableCheckpoint.1 = 0 := by
  obtain ⟨q', hlearned, hheeds⟩ := @heeds_introduced X me q keypair request hsign hjson hkeys hview hstable peer hvalid
  obtain ⟨p', hlearned', hnext⟩ := next_message h.symm hlearned
  obtain ⟨rfl, -⟩ := Prod.mk.inj (Option.some.inj ((handler_introduction hvalid).symm.trans hlearned'))
  have hready := (heeds_probe_iff hjson hvalid).1 (hheeds.of_indistinguishable hnext)
  exact ⟨hready.1, hready.2.1⟩

/-- It knows no key either: a peer with a key is heeded before it is introduced, or not even then. -/
theorem keys_of_indistinguishable (h : Indistinguishable (call X me) p q) (hkeys : q.consensusNodePk = ∅)
    (hview : q.state.view = 0) (hstable : q.state.stableCheckpoint.1 = 0)
    (hvalid : ∀ peer pk, p.consensusNodePk.lookup peer = some pk → X.peerIdValid peer = true) :
    p.consensusNodePk = ∅ := by
  by_contra hsome
  obtain ⟨peer, hmem⟩ : ∃ peer, peer ∈ p.consensusNodePk := by
    by_contra hnone
    exact hsome (Finmap.ext_lookup fun peer ↦ by
      rw [Finmap.lookup_empty, Finmap.lookup_eq_none]
      exact fun hmem ↦ hnone ⟨peer, hmem⟩)
  obtain ⟨pk, hlookup⟩ := Finmap.mem_iff.1 hmem
  have hpeer := hvalid peer pk hlookup
  obtain ⟨q', hlearned, hheeds⟩ := @heeds_introduced X me q keypair request hsign hjson hkeys hview hstable peer hpeer
  obtain ⟨p', hlearned', hnext⟩ := next_message h.symm hlearned
  obtain ⟨rfl, -⟩ := Prod.mk.inj (Option.some.inj ((handler_introduction hpeer).symm.trans hlearned'))
  have hready := (heeds_probe_iff hjson hpeer).1 (hheeds.of_indistinguishable hnext)
  simp only [if_pos hmem] at hready
  have hbefore : Heeds X me p (probe X keypair peer request) := (heeds_probe_iff hjson hpeer).2 hready
  have hother := (heeds_probe_iff hjson hpeer).1 (hbefore.of_indistinguishable h)
  exact not_validlySigned_of_empty hkeys hother.2.2

end Introduced

/-- When one fault is tolerated, the second CheckPoint of a number and digest makes it stable. -/
theorem handler_checkpoint (hfaults : p.state.faultToleranceCount = 1) (msg : CheckPoint) :
    ∃ p', p.consensusProtocolMessageHandler X me (.checkPoint msg) = some (p', silent) ∧
      p'.state.faultToleranceCount = 1 ∧ p'.state.view = p.state.view ∧ p'.consensusNodePk = p.consensusNodePk ∧
      ((p.log.checkpoints.listAt msg.key).length = 1 → p'.state.stableCheckpoint.1 = msg.currentMaxNumber) ∧
      ((p.log.checkpoints.listAt msg.key).length ≠ 1 →
        p'.state.stableCheckpoint = p.state.stableCheckpoint ∧
        (p'.log.checkpoints.listAt msg.key).length = (p.log.checkpoints.listAt msg.key).length + 1) := by
  have hlength : ((p.log.recordCheckpoint msg).checkpoints.listAt msg.key).length =
      (p.log.checkpoints.listAt msg.key).length + 1 := by
    rw [ConsensusLog.recordCheckpoint, ← CheckPoint.key, HashMap.listAt_pushAt_self, List.length_append,
      List.length_singleton]
  have hcount : (p.log.recordMessageHandler X (.checkPoint msg)).getCheckpointCount msg.currentMaxNumber
      msg.checkpointStateDigest = (p.log.checkpoints.listAt msg.key).length + 1 := hlength
  have hthreshold : checkedMul 2 p.state.faultToleranceCount = some 2 := by
    rw [hfaults]
    rfl
  change ∃ p', p.handleCheckpoint X msg = some (p', silent) ∧ _
  simp only [handleCheckpoint, hthreshold, hcount, bind, pure, Option.bind_some]
  have htwo : (2 : UInt64).toNat = 2 := rfl
  split
  case isTrue hcompletes =>
    rw [htwo] at hcompletes
    refine ⟨_, rfl, hfaults, rfl, rfl, fun _ ↦ rfl, fun hother ↦ absurd ?_ hother⟩
    omega
  case isFalse hincomplete =>
    rw [htwo] at hincomplete
    refine ⟨_, rfl, hfaults, rfl, rfl, fun hone ↦ absurd ?_ hincomplete, fun _ ↦ ⟨rfl, hlength⟩⟩
    omega

/-- What is indistinguishable from a protocol that knows no key and has no CheckPoint, in view 0 and with the
stable number 0, has no CheckPoint for another number than 0: the first or the second CheckPoint after it makes
the number stable for one of the two only. -/
theorem checkpoints_of_indistinguishable {keypair : Bytes} {request : Request}
    (hsign : ∀ message, X.verify (X.publicKey keypair) (X.sign keypair message) message = true)
    (hjson : X.requestOfJson (X.requestJson request) = some request) {peer : Bytes}
    (hvalid : X.peerIdValid peer = true) (h : Indistinguishable (call X me) p q)
    (hfaults : p.state.faultToleranceCount = 1) (hpkeys : p.consensusNodePk = ∅) (hpview : p.state.view = 0)
    (hpstable : p.state.stableCheckpoint.1 = 0) (hqfaults : q.state.faultToleranceCount = 1)
    (hqkeys : q.consensusNodePk = ∅) (hqview : q.state.view = 0) (hqstable : q.state.stableCheckpoint.1 = 0)
    (hnone : ∀ key, q.log.checkpoints.listAt key = []) {number : UInt64} (hnumber : number ≠ 0) (digest : String) :
    p.log.checkpoints.listAt (number, digest) = [] := by
  by_contra hsome
  have hlength : (p.log.checkpoints.listAt (number, digest)).length ≠ 0 := fun hzero ↦
    hsome (List.length_eq_zero_iff.1 hzero)
  obtain ⟨msg, rfl, rfl⟩ : ∃ msg : CheckPoint, msg.currentMaxNumber = number ∧ msg.checkpointStateDigest = digest :=
    ⟨⟨number, digest, peer, ""⟩, rfl, rfl⟩
  have hqlength : (q.log.checkpoints.listAt msg.key).length = 0 := by rw [hnone, List.length_nil]
  obtain ⟨p₁, htaken₁, hfaults₁, hview₁, hkeys₁, hstable₁, hcount₁⟩ := @handler_checkpoint X me p hfaults msg
  obtain ⟨q₁, htaken₁', hqfaults₁, hqview₁, hqkeys₁, -, hqcount₁⟩ := @handler_checkpoint X me q hqfaults msg
  obtain ⟨hqstable₁, hqlength₁⟩ := hqcount₁ (by omega)
  obtain ⟨q₁', hother, h₁⟩ := next_message h htaken₁
  obtain ⟨rfl, -⟩ := Prod.mk.inj (Option.some.inj (htaken₁'.symm.trans hother))
  by_cases hone : (p.log.checkpoints.listAt msg.key).length = 1
  · have hzero := (view_stable_of_indistinguishable hsign hjson h₁ (hqkeys₁.trans hqkeys) (hqview₁.trans hqview)
      ((congrArg Prod.fst hqstable₁).trans hqstable) hvalid).2
    exact hnumber ((hstable₁ hone).symm.trans hzero)
  · obtain ⟨hstable₁', hlength₁⟩ := hcount₁ hone
    obtain ⟨p₂, htaken₂, -, hview₂, hkeys₂, -, hcount₂⟩ := @handler_checkpoint X me p₁ hfaults₁ msg
    obtain ⟨q₂, htaken₂', -, -, -, hqstable₂, -⟩ := @handler_checkpoint X me q₁ hqfaults₁ msg
    obtain ⟨q₂', hother₂, h₂⟩ := next_message h₁ htaken₂
    obtain ⟨rfl, -⟩ := Prod.mk.inj (Option.some.inj (htaken₂'.symm.trans hother₂))
    have hpstable₂ : p₂.state.stableCheckpoint.1 = 0 := by
      change (p.log.checkpoints.listAt msg.key).length ≠ 0 at hlength
      rw [(hcount₂ (by omega)).1, hstable₁', hpstable]
    have hzero := (view_stable_of_indistinguishable hsign hjson h₂.symm (hkeys₂.trans (hkeys₁.trans hpkeys))
      (hview₂.trans (hview₁.trans hpview)) hpstable₂ hvalid).2
    exact hnumber ((hqstable₂ (by omega)).symm.trans hzero)

/-- A later view for which a ViewChange is logged is asked for at the next ViewChange, when one fault is
tolerated. -/
theorem handleViewchange_second {msg : ViewChange MessageType} (hoperational : Operational X p)
    (hfaults : p.state.faultToleranceCount = 1) (hview : p.state.view = 0) (hnewView : msg.newView ≠ 0)
    (hlogged : p.log.viewchanges.listAt msg.newView ≠ []) :
    ∃ p' viewchange, p.handleViewchange X me msg =
      some (p', .continueExecute [.broadcast (.message ⟨.viewChange viewchange⟩)]) := by
  have hlater : ¬ msg.newView ≤ p.state.view := fun hle ↦ by
    rw [hview, UInt64.le_iff_toNat_le] at hle
    exact hnewView (UInt64.toNat_inj.1 (Nat.le_zero.1 hle))
  have hrecorded : (p.log.recordViewchange msg).viewchanges.listAt msg.newView =
      p.log.viewchanges.listAt msg.newView ++ [msg] := HashMap.listAt_pushAt_self _ _ _
  have hcount : (p.log.recordMessageHandler X (.viewChange msg)).getViewchangeMessagesCountByView msg.newView =
      (p.log.viewchanges.listAt msg.newView).length + 1 := by
    change ((p.log.recordViewchange msg).viewchanges.listAt msg.newView).length = _
    rw [hrecorded, List.length_append, List.length_singleton]
  have hmany : p.state.faultToleranceCount.toNat < (p.log.viewchanges.listAt msg.newView).length + 1 := by
    have hone : (1 : UInt64).toNat = 1 := rfl
    have hpos := List.length_pos_of_ne_nil hlogged
    rw [hfaults, hone]
    omega
  have hidle : (p.log.recordMessageHandler X (.viewChange msg)).Idle :=
    ⟨hoperational.idle.requestMap, hoperational.idle.currentRequests⟩
  have hthreshold : checkedMul 2 p.state.faultToleranceCount = some 2 := by
    rw [hfaults]
    rfl
  have hnext : checkedAdd p.state.view 1 = some 1 := by
    rw [hview]
    rfl
  rw [handleViewchange, if_neg hlater]
  simp only [hcount, if_pos hmany, broadcastViewchange, hthreshold, hidle.getProofMessages, hnext, bind, pure,
    Option.bind_some]
  exact ⟨_, _, rfl⟩

/-- A new protocol does not answer a ViewChange. -/
theorem handleViewchange_first (keypair : Bytes) (msg : ViewChange MessageType) :
    ∃ p', (PBFTProtocol.new 1 keypair).handleViewchange X me msg = some (p', silent) := by
  have hrecorded : ((PBFTProtocol.new 1 keypair).log.recordViewchange msg).viewchanges.listAt msg.newView =
      (PBFTProtocol.new 1 keypair).log.viewchanges.listAt msg.newView ++ [msg] := HashMap.listAt_pushAt_self _ _ _
  have hcount : ((PBFTProtocol.new 1 keypair).log.recordMessageHandler X
      (.viewChange msg)).getViewchangeMessagesCountByView msg.newView = 1 := congrArg List.length hrecorded
  have hfew : ¬ (PBFTProtocol.new 1 keypair).state.faultToleranceCount.toNat < 1 := by
    change ¬ (1 : UInt64).toNat < 1
    decide
  rw [handleViewchange]
  split
  case isTrue => exact ⟨_, rfl⟩
  case isFalse =>
    simp only [hcount, if_neg hfew]
    exact ⟨_, rfl⟩

/-- What is indistinguishable from a new protocol has no ViewChange. -/
theorem viewchanges_of_indistinguishable {keypair keypair' : Bytes}
    (h : Indistinguishable (call X me) p (.new 1 keypair')) (hreached : Reached X keypair p)
    (hview : p.state.view = 0) : p.log.viewchanges = ∅ := by
  apply Finmap.ext_lookup
  intro view
  rw [Finmap.lookup_empty]
  by_contra hsome
  obtain ⟨messages, hlookup⟩ := Option.ne_none_iff_exists'.1 hsome
  obtain ⟨hlater, hnonempty⟩ := hreached.pending view messages hlookup
  have hlogged : p.log.viewchanges.listAt (plainViewchange view me).newView ≠ [] := by
    change (p.log.viewchanges.lookup view).getD [] ≠ []
    rwa [hlookup, Option.getD_some]
  obtain ⟨p', viewchange, htaken⟩ := @handleViewchange_second X me p (plainViewchange view me) hreached.operational
    hreached.faults hview hlater hlogged
  obtain ⟨q', hother, -⟩ := @next_message X me p p' _ h (.viewChange (plainViewchange view me)) _ htaken
  obtain ⟨q'', hfirst⟩ := @handleViewchange_first X me keypair' (plainViewchange view me)
  have hanswer := (Prod.mk.inj (Option.some.inj (hother.symm.trans hfirst))).2
  injection hanswer with hqueue
  cases hqueue

end Shows

/-! ## The reset -/

/-- After any calls on a new protocol, a reset makes it a fresh one exactly when it is untouched: a reset returns
nothing to its initial value. -/
theorem reset_indistinguishable_iff {me keypair : Bytes} {request : Request} (hX : X.CollisionFree)
    (hsign : ∀ message, X.verify (X.publicKey keypair) (X.sign keypair message) message = true)
    (hjson : X.requestOfJson (X.requestJson request) = some request) (hme : me ≠ [])
    (hvalid : X.peerIdValid me = true)
    {run : List (Transition PBFTProtocol (Call MessageType (Finset PeerId)) (Response Payload))}
    {p : PBFTProtocol} (hrun : IsRun (call X me) (PBFTProtocol.new 1 keypair) run p) :
    Indistinguishable (call X me) p.protocolReset (PBFTProtocol.new 1 keypair) ↔ Untouched p := by
  have hpeer : X.peerIdFromBytes me = some me := if_pos hvalid
  have hreached := reached_of_run hX hme (by rw [hpeer]; simp) hrun
  constructor
  · intro h
    change Indistinguishable (call X me) p (PBFTProtocol.new 1 keypair) at h
    obtain ⟨hview, hstable⟩ := view_stable_of_indistinguishable hsign hjson h rfl rfl rfl hvalid
    have hkeys := keys_of_indistinguishable hsign hjson h rfl rfl rfl hreached.validKeys
    refine ⟨?_, ?_, hview, hkeys, hstable, viewchanges_of_indistinguishable h hreached hview, ?_⟩
    · refine Finset.eq_empty_of_forall_notMem fun taken hmem ↦ ?_
      have hsame : p.checkTakenRequest taken = false := decision_checkTakenRequest h taken
      rw [checkTakenRequest, decide_eq_true hmem] at hsame
      cases hsame
    · have hsame : p.isLeader p.state.primary = ([] == p.state.primary) := decision_isLeader h p.state.primary
      rw [isLeader, beq_self_eq_true] at hsame
      exact (eq_of_beq hsame.symm).symm
    · intro number digest hnumber
      exact checkpoints_of_indistinguishable hsign hjson hvalid h hreached.faults hkeys hview hstable rfl rfl rfl rfl
        (fun _ ↦ HashMap.listAt_empty _) hnumber digest
  · intro huntouched
    exact (hreached.alike huntouched).indistinguishable.symm

end BFTDiagnosis.Pbft
