import BFTDiagnosis.Pbft.Protocol

/-!
# What one call of the PBFT protocol can do

Inversion lemmas for the handlers, and from them a description of a step by what it does to the
messages under one key, to the replies under one key, to the logged requests and to the public
keys. Later invariants use these descriptions and never unfold a handler.
-/

namespace BFTDiagnosis.Pbft

open Components Word

variable {X : Externals}

/-- The message is signed, by the public key that the protocol has stored for its sender. -/
def ValidlySigned (X : Externals) (p : PBFTProtocol) (msg : MessageType) : Prop :=
  ∃ pk, p.consensusNodePk.lookup msg.sender = some pk ∧
    X.verify pk msg.signature (asBytes (getMessageKey X msg)) = true

namespace PBFTProtocol

variable {p p' : PBFTProtocol} {me : Bytes} {out : Answer}

/-! ## Checks -/

theorem verifySignature_eq_true {sender signature : Bytes} {key : String}
    (h : p.verifySignature X sender signature key = some true) :
    ∃ pk, p.consensusNodePk.lookup sender = some pk ∧ X.verify pk signature (asBytes key) = true := by
  simp only [verifySignature, getPublicKeyByPeerId, bind, pure, Option.bind_eq_some_iff] at h
  obtain ⟨peer, hpeer, hmatch⟩ := h
  cases hpk : p.consensusNodePk.lookup sender with
  | none => simp [hpk] at hmatch
  | some pk =>
    rw [hpk] at hmatch
    exact ⟨pk, rfl, Option.some.inj hmatch⟩

theorem checkRequestHash_eq_true {number : UInt64} {mHash : String}
    (h : p.checkRequestHash X number mHash = true) :
    ∃ m, p.log.requests.lookup number = some m ∧ requestHash X m = mHash := by
  unfold checkRequestHash ConsensusLog.getLocalRequestBySequenceNumber at h
  cases hm : p.log.requests.lookup number with
  | none => simp [hm] at h
  | some m =>
    rw [hm] at h
    exact ⟨m, rfl, beq_iff_eq.1 h⟩

/-- What an accepted PrePrepare has been checked for. -/
theorem verifyPreprepare_eq_true {msg : PrePrepare} (h : p.verifyPreprepare X msg = some true) :
    ValidlySigned X p (.prePrepare msg) ∧ p.state.view = msg.view := by
  simp only [verifyPreprepare, bind, pure, Option.bind_eq_some_iff] at h
  obtain ⟨signed, hsigned, hrest⟩ := h
  cases signed with
  | false => simp at hrest
  | true =>
    simp only [Bool.not_true, Bool.false_eq_true, if_false, Option.bind_eq_some_iff,
      Option.some.injEq, Bool.and_eq_true, beq_iff_eq] at hrest
    obtain ⟨inWindow, -, -, hview⟩ := hrest
    exact ⟨verifySignature_eq_true hsigned, hview⟩

/-- A vote that passes the checks after its signature has been verified passes each of them. -/
theorem checks_eq_true {signed view hash : Bool} {done : Prop} [Decidable done] {window : Option Bool}
    (h : (if (!signed) = true then some false else if done then some false
      else window.bind fun inWindow ↦ some (inWindow && view && hash)) = some true) :
    signed = true ∧ ¬ done ∧ view = true ∧ hash = true := by
  cases signed with
  | false => cases h
  | true =>
    simp only [Bool.not_true, Bool.false_eq_true, if_false] at h
    split at h
    case isTrue => cases h
    case isFalse hdone =>
      obtain ⟨inWindow, -, hall⟩ := Option.bind_eq_some_iff.1 h
      simp only [Option.some.injEq, Bool.and_eq_true] at hall
      exact ⟨rfl, hdone, hall.1.2, hall.2⟩

/-- What an accepted Prepare has been checked for. -/
theorem verifyPrepare_eq_true {msg : Prepare} (h : p.verifyPrepare X msg = some true) :
    ValidlySigned X p (.prepare msg) ∧ p.log.getRequestPhaseState msg.mHash ≠ some .prepared ∧
      p.state.view = msg.view ∧
      ∃ m, p.log.requests.lookup msg.number = some m ∧ requestHash X m = msg.mHash := by
  obtain ⟨signed, hsigned, hrest⟩ := Option.bind_eq_some_iff.1 h
  obtain ⟨rfl, hphase, hview, hhash⟩ := checks_eq_true hrest
  exact ⟨verifySignature_eq_true hsigned, hphase, beq_iff_eq.1 hview, checkRequestHash_eq_true hhash⟩

/-- What an accepted Commit has been checked for. -/
theorem verifyCommit_eq_true {msg : Commit} (h : p.verifyCommit X msg = some true) :
    ValidlySigned X p (.commit msg) ∧ p.log.getRequestPhaseState msg.mHash ≠ some .commited ∧
      p.state.view = msg.view ∧
      ∃ m, p.log.requests.lookup msg.number = some m ∧ requestHash X m = msg.mHash := by
  obtain ⟨threshold, -, hrest⟩ := Option.bind_eq_some_iff.1 h
  split at hrest
  case isTrue => cases hrest
  case isFalse =>
    obtain ⟨signed, hsigned, hchecks⟩ := Option.bind_eq_some_iff.1 hrest
    obtain ⟨rfl, hphase, hview, hhash⟩ := checks_eq_true hchecks
    exact ⟨verifySignature_eq_true hsigned, hphase, beq_iff_eq.1 hview, checkRequestHash_eq_true hhash⟩

theorem verifyReply_eq_true {msg : Reply} (h : p.verifyReply X msg = some true) :
    ValidlySigned X p (.reply msg) := by
  obtain ⟨threshold, -, hsigned⟩ := Option.bind_eq_some_iff.1 h
  exact verifySignature_eq_true hsigned

/-! ## Handlers -/

theorem handlePreprepare_cases {msg : PrePrepare}
    (h : p.handlePreprepare X me msg = some (p', out)) :
    ∃ request, X.requestOfJson msg.m = some request ∧
      (((p.takePreprepare X msg request).verifyPreprepare X msg = some true ∧
          (p', out) = (p.takePreprepare X msg request).acceptPreprepare X me msg request) ∨
        ((p.takePreprepare X msg request).verifyPreprepare X msg = some false ∧
          p' = p.takePreprepare X msg request ∧ out = silent)) := by
  simp only [handlePreprepare, bind, pure, Option.bind_eq_some_iff] at h
  obtain ⟨request, hrequest, accepted, haccepted, hrest⟩ := h
  refine ⟨request, hrequest, ?_⟩
  cases accepted with
  | true =>
    simp only [if_true, Option.some.injEq] at hrest
    exact .inl ⟨haccepted, hrest.symm⟩
  | false =>
    simp only [Bool.false_eq_true, if_false, Option.some.injEq, Prod.mk.injEq] at hrest
    exact .inr ⟨haccepted, hrest.1.symm, hrest.2.symm⟩

/-- A Prepare is rejected, recorded below or above the quorum, or completes the quorum. -/
theorem handlePrepare_cases {msg : Prepare} (h : p.handlePrepare X me msg = some (p', out)) :
    (p.verifyPrepare X msg = some false ∧ p' = p ∧ out = silent) ∨
    (p.verifyPrepare X msg = some true ∧ ∃ threshold,
      checkedMul 2 p.state.faultToleranceCount = some threshold ∧
      ((((p.log.messages.listAt (getMessageKey X (.prepare msg))).length + 1 = threshold.toNat) ∧
          p' = { p with log := (p.log.recordPrepare X msg).updateRequestPhaseState msg.mHash .prepared } ∧
          out = .continueExecute [.broadcast (.message ⟨.commit (p.signedCommit X me msg)⟩)]) ∨
        (p' = { p with log := p.log.recordPrepare X msg } ∧ out = silent))) := by
  obtain ⟨accepted, haccepted, hrest⟩ := Option.bind_eq_some_iff.1 h
  cases accepted with
  | false =>
    simp only [Bool.false_eq_true, if_false, pure, Option.some.injEq, Prod.mk.injEq] at hrest
    exact .inl ⟨haccepted, hrest.1.symm, hrest.2.symm⟩
  | true =>
    simp only [if_true, acceptPrepare, bind, pure, Option.bind_eq_some_iff] at hrest
    obtain ⟨threshold, hthreshold, hrest⟩ := hrest
    refine .inr ⟨haccepted, threshold, hthreshold, ?_⟩
    split at hrest
    case isTrue hcount =>
      simp only [Option.some.injEq, Prod.mk.injEq] at hrest
      refine .inl ⟨?_, hrest.1.symm, hrest.2.symm⟩
      simpa [ConsensusLog.getLocalMessagesCountByHash, ConsensusLog.recordMessageHandler,
        ConsensusLog.recordPrepare, ConsensusLog.recordPhaseMessage] using hcount
    case isFalse =>
      simp only [Option.some.injEq, Prod.mk.injEq] at hrest
      exact .inr ⟨hrest.1.symm, hrest.2.symm⟩

/-- A Commit is rejected, recorded without effect, or completes the request logged for its number. -/
theorem handleCommit_cases {msg : Commit} (h : p.handleCommit X me msg = some (p', out)) :
    (p' = p ∧ out = silent) ∨
    (p.verifyCommit X msg = some true ∧ ∃ m, p.log.requests.lookup msg.number = some m ∧
      ((p' = { p with log := p.log.recordCommit X msg } ∧ out = silent) ∨
        ∃ threshold primary count, checkedMul 2 p.state.faultToleranceCount = some threshold ∧
          (p.log.messages.listAt (getMessageKey X (.commit msg))).length + 1 = threshold.toNat ∧
          p' = { p with
            state := { p.state.updateCheckpointState X msg.mHash with
              currentCommitedRequestCount := count }
            log := p.log.reset } ∧
          out = .complete ⟨m.cmd⟩
            [.unicast primary (.message ⟨.reply (p.signedReply X me msg m)⟩)])) := by
  obtain ⟨accepted, haccepted, hrest⟩ := Option.bind_eq_some_iff.1 h
  cases hm : p.log.requests.lookup msg.number with
  | none =>
    simp only [ConsensusLog.getLocalRequestBySequenceNumber, hm, pure, Option.some.injEq,
      Prod.mk.injEq] at hrest
    exact .inl ⟨hrest.1.symm, hrest.2.symm⟩
  | some m =>
    cases accepted with
    | false =>
      simp only [pure, Option.some.injEq, Prod.mk.injEq] at hrest
      exact .inl ⟨hrest.1.symm, hrest.2.symm⟩
    | true =>
      simp only [ConsensusLog.getLocalRequestBySequenceNumber, hm, acceptCommit, bind, pure,
        Option.bind_eq_some_iff] at hrest
      obtain ⟨threshold, hthreshold, hrest⟩ := hrest
      refine .inr ⟨haccepted, m, rfl, ?_⟩
      split at hrest
      case isTrue =>
        simp only [Option.some.injEq, Prod.mk.injEq] at hrest
        exact .inl ⟨hrest.1.symm, hrest.2.symm⟩
      case isFalse =>
        split at hrest
        case isFalse =>
          simp only [Option.some.injEq, Prod.mk.injEq] at hrest
          exact .inl ⟨hrest.1.symm, hrest.2.symm⟩
        case isTrue hcount =>
          simp only [completeCommit, bind, pure, Option.bind_eq_some_iff, Option.some.injEq,
            Prod.mk.injEq] at hrest
          obtain ⟨count, -, primary, -, hp, hout⟩ := hrest
          refine .inr ⟨threshold, primary, count, hthreshold, ?_, hp.symm, hout.symm⟩
          simpa [ConsensusLog.getLocalMessagesCountByHash, ConsensusLog.recordMessageHandler,
            ConsensusLog.recordCommit, ConsensusLog.recordPhaseMessage] using hcount

/-- A Reply is rejected, recorded, or completes its quorum and clears the log. -/
theorem handleReply_cases {msg : Reply} (h : p.handleReply X msg = some (p', out)) :
    (p' = p ∧ out = silent) ∨
    (p.verifyReply X msg = some true ∧
      ((p' = { p with log := p.log.recordReply X msg } ∧ out = silent) ∨
        ((p.log.replyMessages.listAt (getMessageKey X (.reply msg))).length + 1 =
            p.state.nodeCount.toNat - p.state.faultToleranceCount.toNat - 1 ∧
          p' = { p with log := ConsensusLog.new } ∧ out = .over none))) := by
  obtain ⟨accepted, haccepted, hrest⟩ := Option.bind_eq_some_iff.1 h
  cases accepted with
  | false =>
    simp only [Bool.false_eq_true, if_false, pure, Option.some.injEq, Prod.mk.injEq] at hrest
    exact .inl ⟨hrest.1.symm, hrest.2.symm⟩
  | true =>
    simp only [if_true, acceptReply, bind, pure, Option.bind_eq_some_iff] at hrest
    obtain ⟨difference, hdifference, threshold, hthreshold, hrest⟩ := hrest
    refine .inr ⟨haccepted, ?_⟩
    split at hrest
    case isFalse =>
      simp only [Option.some.injEq, Prod.mk.injEq] at hrest
      exact .inl ⟨hrest.1.symm, hrest.2.symm⟩
    case isTrue hcount =>
      split at hrest
      case isFalse => cases hrest
      case isTrue =>
        simp only [Option.some.injEq, Prod.mk.injEq] at hrest
        refine .inr ⟨?_, hrest.1.symm, hrest.2.symm⟩
        have hone : (1 : UInt64).toNat = 1 := rfl
        rw [toNat_of_checkedSub hthreshold, toNat_of_checkedSub hdifference, hone] at hcount
        simpa [ConsensusLog.getLocalReplyMessagesCountByHash, ConsensusLog.recordMessageHandler,
          ConsensusLog.recordReply] using hcount

theorem handleRequest_cases {request : Request} (h : p.handleRequest X me request = some (p', out)) :
    ∃ number preprepare, checkedAdd p.state.currentSequenceNumber 1 = some number ∧
      p' = { p with
        takenRequests := insert (X.requestBytes request) p.takenRequests
        state := { p.state with primary := me }
        log := p.log.recordRequest number request } ∧
      out = .continueExecute [.broadcast (.message ⟨.prePrepare preprepare⟩)] := by
  simp only [handleRequest, bind, pure, Option.bind_eq_some_iff, Option.some.injEq,
    Prod.mk.injEq] at h
  obtain ⟨number, hnumber, hp, hout⟩ := h
  exact ⟨number, _, hnumber, hp.symm, hout.symm⟩

/-- A ViewChange is rejected, or recorded with one of three answers. -/
theorem handleViewchange_cases {msg : ViewChange MessageType}
    (h : p.handleViewchange X me msg = some (p', out)) :
    (p' = p ∧ out = silent) ∨
    (p' = { p with log := p.log.recordViewchange msg } ∧
      (out = silent ∨
        (∃ viewchange, out = .continueExecute [.broadcast (.message ⟨.viewChange viewchange⟩)]) ∨
        ∃ newview, out = .continueExecute [.broadcast (.message ⟨.newView newview⟩)])) := by
  simp only [handleViewchange, bind, pure] at h
  split at h
  case isTrue =>
    simp only [Option.some.injEq, Prod.mk.injEq] at h
    exact .inl ⟨h.1.symm, h.2.symm⟩
  case isFalse =>
    right
    split at h
    case isTrue =>
      simp only [broadcastViewchange, bind, pure, Option.bind_eq_some_iff, Option.some.injEq,
        Prod.mk.injEq] at h
      obtain ⟨answer, ⟨-, -, -, -, -, -, rfl⟩, rfl, rfl⟩ := h
      exact ⟨rfl, .inr (.inl ⟨_, rfl⟩)⟩
    case isFalse =>
      obtain ⟨quorum, -, hrest⟩ := Option.bind_eq_some_iff.1 h
      cases quorum with
      | true =>
        simp only [if_true, broadcastNewview, bind, pure, Option.bind_eq_some_iff,
          Option.some.injEq, Prod.mk.injEq] at hrest
        obtain ⟨answer, ⟨-, -, rfl⟩, rfl, rfl⟩ := hrest
        exact ⟨rfl, .inr (.inr ⟨_, rfl⟩)⟩
      | false =>
        simp only [Bool.false_eq_true, if_false, Option.some.injEq, Prod.mk.injEq] at hrest
        exact ⟨hrest.1.symm, .inl hrest.2.symm⟩

theorem handleCheckpoint_cases {msg : CheckPoint} (h : p.handleCheckpoint X msg = some (p', out)) :
    out = silent ∧
      (p' = { p with log := p.log.recordCheckpoint msg } ∨
        p' = { p with
          state := { p.state with stableCheckpoint := (msg.currentMaxNumber, msg.checkpointStateDigest) }
          log := (p.log.recordCheckpoint msg).discardMessagesBeforeStableCheckpoint X
            msg.currentMaxNumber }) := by
  simp only [handleCheckpoint, bind, pure, Option.bind_eq_some_iff] at h
  obtain ⟨threshold, -, hrest⟩ := h
  split at hrest
  case isTrue =>
    simp only [Option.some.injEq, Prod.mk.injEq] at hrest
    exact ⟨hrest.2.symm, .inr hrest.1.symm⟩
  case isFalse =>
    simp only [Option.some.injEq, Prod.mk.injEq] at hrest
    exact ⟨hrest.2.symm, .inl hrest.1.symm⟩

theorem storagePublicKeyByPeerId_cases {key : PublicKey}
    (h : p.storagePublicKeyByPeerId X key = some (p', out)) :
    out = silent ∧
      p' = { p with consensusNodePk :=
        if key.fromPeerId ∈ p.consensusNodePk then p.consensusNodePk
        else p.consensusNodePk.insert key.fromPeerId key.pk } := by
  simp only [storagePublicKeyByPeerId, bind, pure, Option.bind_eq_some_iff, Option.some.injEq,
    Prod.mk.injEq] at h
  obtain ⟨-, -, rfl, rfl⟩ := h
  exact ⟨rfl, rfl⟩

/-! ## One step -/

/-- Everything one call can do. A call that rejects its message changes nothing and says nothing,
except that a rejected PrePrepare still marks its request as taken and its sender as primary. -/
inductive StepEffect (X : Externals) (me : Bytes) (p : PBFTProtocol) :
    Event → PBFTProtocol → Answer → Prop
  | initialStart (nodes : Finset PeerId) :
      StepEffect X me p (.initialStart nodes) (p.extraInitialStart X nodes me).1
        (p.extraInitialStart X nodes me).2
  | rejected (event : Event) : StepEffect X me p event p silent
  | request (request : Request) (number : UInt64) (preprepare : PrePrepare)
      (hnumber : checkedAdd p.state.currentSequenceNumber 1 = some number) :
      StepEffect X me p (.message (.request request))
        { p with
          takenRequests := insert (X.requestBytes request) p.takenRequests
          state := { p.state with primary := me }
          log := p.log.recordRequest number request }
        (.continueExecute [.broadcast (.message ⟨.prePrepare preprepare⟩)])
  | preprepareRejected (msg : PrePrepare) (request : Request) :
      StepEffect X me p (.message (.prePrepare msg)) (p.takePreprepare X msg request) silent
  | preprepare (msg : PrePrepare) (request : Request) (hjson : X.requestOfJson msg.m = some request)
      (accepted : p.verifyPreprepare X msg = some true) :
      StepEffect X me p (.message (.prePrepare msg))
        { p.takePreprepare X msg request with
          log := (p.log.recordRequest msg.number request).recordPreprepare X msg }
        (.continueExecute [.broadcast (.message ⟨.prepare (p.signedPrepare X me msg)⟩)])
  | prepare (msg : Prepare) (accepted : p.verifyPrepare X msg = some true) :
      StepEffect X me p (.message (.prepare msg)) { p with log := p.log.recordPrepare X msg } silent
  | prepareQuorum (msg : Prepare) (accepted : p.verifyPrepare X msg = some true)
      (hcount : (p.log.messages.listAt (getMessageKey X (.prepare msg))).length + 1 =
        2 * p.state.faultToleranceCount.toNat) :
      StepEffect X me p (.message (.prepare msg))
        { p with log := (p.log.recordPrepare X msg).updateRequestPhaseState msg.mHash .prepared }
        (.continueExecute [.broadcast (.message ⟨.commit (p.signedCommit X me msg)⟩)])
  | commit (msg : Commit) (accepted : p.verifyCommit X msg = some true) :
      StepEffect X me p (.message (.commit msg)) { p with log := p.log.recordCommit X msg } silent
  | commitQuorum (msg : Commit) (m : Request) (primary : PeerId) (count : UInt64)
      (accepted : p.verifyCommit X msg = some true)
      (hrequest : p.log.requests.lookup msg.number = some m)
      (hcount : (p.log.messages.listAt (getMessageKey X (.commit msg))).length + 1 =
        2 * p.state.faultToleranceCount.toNat) :
      StepEffect X me p (.message (.commit msg))
        { p with
          state := { p.state.updateCheckpointState X msg.mHash with currentCommitedRequestCount := count }
          log := p.log.reset }
        (.complete ⟨m.cmd⟩ [.unicast primary (.message ⟨.reply (p.signedReply X me msg m)⟩)])
  | reply (msg : Reply) (accepted : p.verifyReply X msg = some true) :
      StepEffect X me p (.message (.reply msg)) { p with log := p.log.recordReply X msg } silent
  | replyQuorum (msg : Reply) (accepted : p.verifyReply X msg = some true)
      (hcount : (p.log.replyMessages.listAt (getMessageKey X (.reply msg))).length + 1 =
        p.state.nodeCount.toNat - p.state.faultToleranceCount.toNat - 1) :
      StepEffect X me p (.message (.reply msg)) { p with log := ConsensusLog.new } (.over none)
  | checkpoint (msg : CheckPoint) :
      StepEffect X me p (.message (.checkPoint msg)) { p with log := p.log.recordCheckpoint msg } silent
  | checkpointStable (msg : CheckPoint) :
      StepEffect X me p (.message (.checkPoint msg))
        { p with
          state := { p.state with stableCheckpoint := (msg.currentMaxNumber, msg.checkpointStateDigest) }
          log := (p.log.recordCheckpoint msg).discardMessagesBeforeStableCheckpoint X
            msg.currentMaxNumber }
        silent
  | viewchange (msg : ViewChange MessageType) :
      StepEffect X me p (.message (.viewChange msg)) { p with log := p.log.recordViewchange msg } silent
  | viewchangeWeak (msg viewchange : ViewChange MessageType) :
      StepEffect X me p (.message (.viewChange msg)) { p with log := p.log.recordViewchange msg }
        (.continueExecute [.broadcast (.message ⟨.viewChange viewchange⟩)])
  | viewchangeQuorum (msg : ViewChange MessageType) (newview : NewView MessageType) :
      StepEffect X me p (.message (.viewChange msg)) { p with log := p.log.recordViewchange msg }
        (.continueExecute [.broadcast (.message ⟨.newView newview⟩)])
  | newview (msg : NewView MessageType) :
      StepEffect X me p (.message (.newView msg)) (p.handleNewview X me msg).1
        (p.handleNewview X me msg).2
  | publicKey (key : PublicKey) :
      StepEffect X me p (.message (.publicKey key))
        { p with consensusNodePk :=
          if key.fromPeerId ∈ p.consensusNodePk then p.consensusNodePk
          else p.consensusNodePk.insert key.fromPeerId key.pk }
        silent
  | distributePK : StepEffect X me p (.message .distributePK) p (p.distributePublicKey X me)

theorem toNat_threshold {f threshold : UInt64} (h : checkedMul 2 f = some threshold) :
    threshold.toNat = 2 * f.toNat := toNat_of_checkedMul h

theorem step_effect {p p' : PBFTProtocol} {me : Bytes} {event : Event} {out : Answer}
    (h : step X me p event = some (p', out)) : StepEffect X me p event p' out := by
  cases event with
  | initialStart nodes =>
    obtain ⟨rfl, rfl⟩ := Prod.mk.inj (Option.some.inj h)
    exact .initialStart nodes
  | message msg =>
    cases msg with
    | request request =>
      obtain ⟨number, preprepare, hnumber, rfl, rfl⟩ := handleRequest_cases h
      exact .request request number preprepare hnumber
    | prePrepare msg =>
      obtain ⟨request, hjson, ⟨haccepted, haccept⟩ | ⟨-, rfl, rfl⟩⟩ := handlePreprepare_cases h
      · obtain ⟨rfl, rfl⟩ := Prod.mk.inj haccept
        exact .preprepare msg request hjson haccepted
      · exact .preprepareRejected msg request
    | prepare msg =>
      obtain ⟨-, rfl, rfl⟩ | ⟨haccepted, threshold, hthreshold, ⟨hcount, rfl, rfl⟩ | ⟨rfl, rfl⟩⟩ :=
        handlePrepare_cases h
      · exact .rejected _
      · exact .prepareQuorum msg haccepted (hcount.trans (toNat_threshold hthreshold))
      · exact .prepare msg haccepted
    | commit msg =>
      obtain ⟨rfl, rfl⟩ | ⟨haccepted, m, hm, ⟨rfl, rfl⟩ |
          ⟨threshold, primary, count, hthreshold, hcount, rfl, rfl⟩⟩ := handleCommit_cases h
      · exact .rejected _
      · exact .commit msg haccepted
      · exact .commitQuorum msg m primary count haccepted hm
          (hcount.trans (toNat_threshold hthreshold))
    | reply msg =>
      obtain ⟨rfl, rfl⟩ | ⟨haccepted, ⟨rfl, rfl⟩ | ⟨hcount, rfl, rfl⟩⟩ := handleReply_cases h
      · exact .rejected _
      · exact .reply msg haccepted
      · exact .replyQuorum msg haccepted hcount
    | checkPoint msg =>
      obtain ⟨rfl, rfl | rfl⟩ := handleCheckpoint_cases h
      · exact .checkpoint msg
      · exact .checkpointStable msg
    | viewChange msg =>
      obtain ⟨rfl, rfl⟩ | ⟨rfl, rfl | ⟨viewchange, rfl⟩ | ⟨newview, rfl⟩⟩ := handleViewchange_cases h
      · exact .rejected _
      · exact .viewchange msg
      · exact .viewchangeWeak msg viewchange
      · exact .viewchangeQuorum msg newview
    | newView msg =>
      obtain ⟨rfl, rfl⟩ := Prod.mk.inj (Option.some.inj h)
      exact .newview msg
    | publicKey key =>
      obtain ⟨rfl, rfl⟩ := storagePublicKeyByPeerId_cases h
      exact .publicKey key
    | distributePK =>
      obtain ⟨rfl, rfl⟩ := Prod.mk.inj (Option.some.inj h)
      exact .distributePK

end PBFTProtocol

open PBFTProtocol

/-! ## One step, seen from one key of the log -/

/-- The vote that a call is about to log. -/
def acceptedVote (X : Externals) (p : PBFTProtocol) : Event → Option MessageType
  | .message (.prepare msg) => if p.verifyPrepare X msg = some true then some (.prepare msg) else none
  | .message (.commit msg) => if p.verifyCommit X msg = some true then some (.commit msg) else none
  | _ => none

/-- The Reply that a call is about to log. -/
def acceptedReply (X : Externals) (p : PBFTProtocol) : Event → Option MessageType
  | .message (.reply msg) => if p.verifyReply X msg = some true then some (.reply msg) else none
  | _ => none

/-- The request that a call logs for a sequence number, unless the number has one. -/
def acceptedRequest (X : Externals) (p : PBFTProtocol) : Event → Option (UInt64 × Request)
  | .message (.prePrepare msg) =>
    if p.verifyPreprepare X msg = some true then (X.requestOfJson msg.m).map (msg.number, ·) else none
  | .message (.request request) =>
    (checkedAdd p.state.currentSequenceNumber 1).map (·, request)
  | _ => none

/-- The messages that an answer sends inside a `ConsensusMessage`. -/
def sentMessages (out : Answer) : List MessageType :=
  (out.queue.flatMap SendType.payloads).filterMap fun
    | .message msg => some msg.msgType
    | .bare _ => none

theorem mem_sentMessages_of_broadcast {out : Answer} {msg : MessageType}
    (h : .broadcast (.message ⟨msg⟩) ∈ out.queue) : msg ∈ sentMessages out :=
  List.mem_filterMap.2 ⟨.message ⟨msg⟩,
    List.mem_flatMap.2 ⟨_, h, List.mem_singleton.2 rfl⟩, rfl⟩

/-- What is known of an accepted vote. -/
theorem acceptedVote_cases {p : PBFTProtocol} {event : Event} {vote : MessageType}
    (h : acceptedVote X p event = some vote) :
    (∃ msg, event = .message (.prepare msg) ∧ vote = .prepare msg ∧
      p.verifyPrepare X msg = some true) ∨
    ∃ msg, event = .message (.commit msg) ∧ vote = .commit msg ∧ p.verifyCommit X msg = some true := by
  unfold acceptedVote at h
  split at h
  case h_1 msg =>
    split at h
    case isTrue haccepted => exact .inl ⟨msg, rfl, (Option.some.inj h).symm, haccepted⟩
    case isFalse => cases h
  case h_2 msg =>
    split at h
    case isTrue haccepted => exact .inr ⟨msg, rfl, (Option.some.inj h).symm, haccepted⟩
    case isFalse => cases h
  case h_3 => cases h

theorem acceptedReply_cases {p : PBFTProtocol} {event : Event} {vote : MessageType}
    (h : acceptedReply X p event = some vote) :
    ∃ msg, event = .message (.reply msg) ∧ vote = .reply msg ∧ p.verifyReply X msg = some true := by
  unfold acceptedReply at h
  split at h
  case h_1 msg =>
    split at h
    case isTrue haccepted => exact ⟨msg, rfl, (Option.some.inj h).symm, haccepted⟩
    case isFalse => cases h
  case h_2 => cases h

theorem acceptedVote_isVote {p : PBFTProtocol} {event : Event} {vote : MessageType}
    (h : acceptedVote X p event = some vote) : IsVote vote := by
  rcases acceptedVote_cases h with ⟨msg, -, rfl, -⟩ | ⟨msg, -, rfl, -⟩
  · exact .prepare msg
  · exact .commit msg

theorem acceptedVote_signed {p : PBFTProtocol} {event : Event} {vote : MessageType}
    (h : acceptedVote X p event = some vote) : ValidlySigned X p vote := by
  rcases acceptedVote_cases h with ⟨msg, -, rfl, haccepted⟩ | ⟨msg, -, rfl, haccepted⟩
  · exact (verifyPrepare_eq_true haccepted).1
  · exact (verifyCommit_eq_true haccepted).1

theorem acceptedReply_isVote {p : PBFTProtocol} {event : Event} {vote : MessageType}
    (h : acceptedReply X p event = some vote) : IsVote vote := by
  obtain ⟨msg, -, rfl, -⟩ := acceptedReply_cases h
  exact .reply msg

theorem acceptedReply_signed {p : PBFTProtocol} {event : Event} {vote : MessageType}
    (h : acceptedReply X p event = some vote) : ValidlySigned X p vote := by
  obtain ⟨msg, -, rfl, haccepted⟩ := acceptedReply_cases h
  exact verifyReply_eq_true haccepted

/-- What a step may do to the messages logged under one key. -/
inductive MessagesChange (X : Externals) (p : PBFTProtocol) (event : Event) (key : String)
    (before : List MessageType) : List MessageType → Prop
  | cleared : MessagesChange X p event key before []
  | preprepares (extra : List MessageType)
      (h : ∀ msg ∈ extra, ∃ preprepare, msg = .prePrepare preprepare ∧ getMessageKey X msg = key) :
      MessagesChange X p event key before (before ++ extra)
  | vote (msg : MessageType) (accepted : acceptedVote X p event = some msg)
      (hkey : key = getMessageKey X msg) : MessagesChange X p event key before (before ++ [msg])

namespace MessagesChange

variable {p : PBFTProtocol} {event : Event} {key : String} {before after : List MessageType}

theorem unchanged (h : after = before) : MessagesChange X p event key before after := by
  have hnil := @preprepares X p event key before [] fun msg hmsg ↦ absurd hmsg List.not_mem_nil
  rw [h]
  simpa only [List.append_nil] using hnil

/-- Recording an accepted message changes the list under its own key only. -/
theorem of_pushAt {m : HashMap String (List MessageType)} {msg : MessageType}
    (h : key = getMessageKey X msg →
      MessagesChange X p event key (m.listAt key) (m.listAt key ++ [msg])) :
    MessagesChange X p event key (m.listAt key) ((m.pushAt (getMessageKey X msg) msg).listAt key) := by
  by_cases hkey : key = getMessageKey X msg
  · have hpushed := HashMap.listAt_pushAt_self m (getMessageKey X msg) msg
    rw [← hkey] at hpushed ⊢
    rw [hpushed]
    exact h hkey
  · exact unchanged (HashMap.listAt_pushAt_of_ne m msg hkey)

theorem of_recordPreprepare (log : ConsensusLog) (preprepare : PrePrepare) :
    MessagesChange X p event key (log.messages.listAt key)
      ((log.recordPreprepare X preprepare).messages.listAt key) := by
  apply of_pushAt
  intro hkey
  apply preprepares
  intro msg hmsg
  rw [List.mem_singleton.1 hmsg]
  exact ⟨preprepare, rfl, hkey.symm⟩

/-- The loop of `handle_newview` logs PrePrepares only. -/
theorem of_recordPreprepares (preprepares' : List PrePrepare) (log : ConsensusLog) :
    ∃ extra, ((preprepares'.foldl
        (fun log preprepare ↦ log.recordMessageHandler X (.prePrepare preprepare)) log).messages.listAt key =
          log.messages.listAt key ++ extra) ∧
      ∀ msg ∈ extra, ∃ preprepare, msg = .prePrepare preprepare ∧ getMessageKey X msg = key := by
  induction preprepares' generalizing log with
  | nil => exact ⟨[], (List.append_nil _).symm, fun msg hmsg ↦ absurd hmsg List.not_mem_nil⟩
  | cons preprepare rest ih =>
    obtain ⟨extra, hextra, hall⟩ := ih (log.recordPreprepare X preprepare)
    by_cases hkey : key = getMessageKey X (.prePrepare preprepare)
    · refine ⟨.prePrepare preprepare :: extra, ?_, ?_⟩
      · have hpushed := HashMap.listAt_pushAt_self log.messages
          (getMessageKey X (.prePrepare preprepare)) (.prePrepare preprepare)
        rw [← hkey] at hpushed
        rw [List.foldl_cons]
        refine hextra.trans ?_
        simp only [ConsensusLog.recordPreprepare, ConsensusLog.recordPhaseMessage, ← hkey, hpushed,
          List.append_assoc, List.singleton_append]
      · intro msg hmsg
        rcases List.mem_cons.1 hmsg with rfl | hmsg
        · exact ⟨preprepare, rfl, hkey.symm⟩
        · exact hall msg hmsg
    · refine ⟨extra, ?_, hall⟩
      rw [List.foldl_cons]
      refine hextra.trans ?_
      simp only [ConsensusLog.recordPreprepare, ConsensusLog.recordPhaseMessage,
        HashMap.listAt_pushAt_of_ne _ _ hkey]

end MessagesChange

theorem recordRequest_messages (log : ConsensusLog) (number : UInt64) (request : Request) :
    (log.recordRequest number request).messages = log.messages := by
  unfold ConsensusLog.recordRequest
  split <;> rfl

theorem recordRequest_replyMessages (log : ConsensusLog) (number : UInt64) (request : Request) :
    (log.recordRequest number request).replyMessages = log.replyMessages := by
  unfold ConsensusLog.recordRequest
  split <;> rfl

theorem recordPreprepares_replyMessages (preprepares : List PrePrepare) (log : ConsensusLog) :
    (preprepares.foldl
      (fun log preprepare ↦ log.recordMessageHandler X (.prePrepare preprepare)) log).replyMessages =
      log.replyMessages := by
  induction preprepares generalizing log with
  | nil => rfl
  | cons preprepare rest ih => exact ih _

theorem recordPreprepares_requests (preprepares : List PrePrepare) (log : ConsensusLog) :
    (preprepares.foldl
      (fun log preprepare ↦ log.recordMessageHandler X (.prePrepare preprepare)) log).requests =
      log.requests := by
  induction preprepares generalizing log with
  | nil => rfl
  | cons preprepare rest ih => exact ih _

theorem lookup_recordRequest {log : ConsensusLog} {number number' : UInt64} {request request' : Request}
    (h : (log.recordRequest number' request').requests.lookup number = some request) :
    log.requests.lookup number = some request ∨ (number' = number ∧ request' = request) := by
  unfold ConsensusLog.recordRequest at h
  split at h
  case isTrue => exact .inl h
  case isFalse =>
    by_cases hnumber : number = number'
    · subst hnumber
      rw [Finmap.lookup_insert] at h
      exact .inr ⟨rfl, Option.some.inj h⟩
    · rw [Finmap.lookup_insert_of_ne _ hnumber] at h
      exact .inl h

section Step

variable {p p' : PBFTProtocol} {me : Bytes} {event : Event} {out : Answer}

/-- Every step, seen from the messages under one key. -/
theorem step_messages (h : step X me p event = some (p', out)) (key : String) :
    MessagesChange X p event key (p.log.messages.listAt key) (p'.log.messages.listAt key) := by
  cases step_effect h with
  | request request number preprepare hnumber =>
    exact .unchanged (by simp only [recordRequest_messages])
  | preprepare msg request hjson haccepted =>
    have hpush := @MessagesChange.of_recordPreprepare X p (.message (.prePrepare msg)) key
      (p.log.recordRequest msg.number request) msg
    rwa [recordRequest_messages] at hpush
  | prepare msg haccepted => exact .of_pushAt fun hkey ↦ .vote _ (if_pos haccepted) hkey
  | prepareQuorum msg haccepted => exact .of_pushAt fun hkey ↦ .vote _ (if_pos haccepted) hkey
  | commit msg haccepted => exact .of_pushAt fun hkey ↦ .vote _ (if_pos haccepted) hkey
  | commitQuorum => exact .cleared
  | replyQuorum => exact .cleared
  | checkpointStable msg =>
    rcases HashMap.listAt_retain p.log.messages
      (fun other ↦ other ∉ (p.log.recordCheckpoint msg).discardedKeys X msg.currentMaxNumber) key
      with hkept | hdropped
    · exact .unchanged hkept
    · exact hdropped ▸ .cleared
  | newview msg =>
    obtain ⟨extra, hextra, hall⟩ :=
      @MessagesChange.of_recordPreprepares X key msg.preprepares p.log.clearCurrentRequest
    exact hextra ▸ .preprepares extra hall
  | _ => exact .unchanged rfl

/-- Every step, seen from the replies under one key. -/
theorem step_replyMessages (h : step X me p event = some (p', out)) (key : String) :
    p'.log.replyMessages.listAt key = p.log.replyMessages.listAt key ∨
    p'.log.replyMessages.listAt key = [] ∨
    ∃ msg, acceptedReply X p event = some msg ∧ key = getMessageKey X msg ∧
      p'.log.replyMessages.listAt key = p.log.replyMessages.listAt key ++ [msg] := by
  cases step_effect h with
  | request request number preprepare hnumber =>
    exact .inl (by simp only [recordRequest_replyMessages])
  | preprepare msg request hjson haccepted =>
    refine .inl ?_
    change (p.log.recordRequest msg.number request).replyMessages.listAt key = _
    rw [recordRequest_replyMessages]
  | reply msg haccepted =>
    by_cases hkey : key = getMessageKey X (.reply msg)
    · subst hkey
      exact .inr (.inr ⟨_, if_pos haccepted, rfl, HashMap.listAt_pushAt_self _ _ _⟩)
    · exact .inl (HashMap.listAt_pushAt_of_ne _ _ hkey)
  | replyQuorum => exact .inr (.inl (HashMap.listAt_empty key))
  | newview msg =>
    refine .inl (congrArg (HashMap.listAt · key) ?_)
    exact recordPreprepares_replyMessages msg.preprepares p.log.clearCurrentRequest
  | _ => exact .inl rfl

/-- A logged request was logged before, or is accepted by this call. -/
theorem step_requests (h : step X me p event = some (p', out)) {number : UInt64} {request : Request}
    (hlogged : p'.log.requests.lookup number = some request) :
    p.log.requests.lookup number = some request ∨
      acceptedRequest X p event = some (number, request) := by
  cases step_effect h with
  | request request' number' preprepare hnumber =>
    rcases lookup_recordRequest hlogged with hold | ⟨rfl, rfl⟩
    · exact .inl hold
    · exact .inr (by simp only [acceptedRequest, hnumber, Option.map_some])
  | preprepare msg request' hjson haccepted =>
    rcases lookup_recordRequest hlogged with hold | ⟨rfl, rfl⟩
    · exact .inl hold
    · exact .inr (by simp only [acceptedRequest, if_pos haccepted, hjson, Option.map_some])
  | commitQuorum => exact absurd hlogged (by simp [ConsensusLog.reset, ConsensusLog.new])
  | replyQuorum => exact absurd hlogged (by simp [ConsensusLog.new])
  | newview msg =>
    refine .inl ?_
    rw [← hlogged]
    exact congrArg (Finmap.lookup number)
      (recordPreprepares_requests msg.preprepares p.log.clearCurrentRequest).symm
  | _ => exact .inl hlogged

/-- Only an accepted PrePrepare is answered with a signed Prepare. -/
theorem step_sent_prepare {prepare : Prepare} (h : step X me p event = some (p', out))
    (hsent : .prepare prepare ∈ sentMessages out) :
    ∃ msg request, event = .message (.prePrepare msg) ∧ X.requestOfJson msg.m = some request ∧
      p.verifyPreprepare X msg = some true ∧ prepare = p.signedPrepare X me msg := by
  cases step_effect h with
  | preprepare msg request hjson haccepted =>
    refine ⟨msg, request, rfl, hjson, haccepted, ?_⟩
    simpa [sentMessages, SendType.payloads] using hsent
  | newview msg => simp [sentMessages, handleNewview, newviewPrepare, SendType.payloads] at hsent
  | initialStart nodes =>
    simp [sentMessages, extraInitialStart, distributePublicKey, SendType.payloads] at hsent
  | distributePK => simp [sentMessages, distributePublicKey, SendType.payloads] at hsent
  | _ => simp [sentMessages, silent, SendType.payloads] at hsent

/-- Only a Prepare that completes its quorum sends a Commit. -/
theorem step_sent_commit {commit : Commit} (h : step X me p event = some (p', out))
    (hsent : .commit commit ∈ sentMessages out) :
    ∃ msg, event = .message (.prepare msg) ∧ p.verifyPrepare X msg = some true ∧
      (p.log.messages.listAt (getMessageKey X (.prepare msg))).length + 1 =
        2 * p.state.faultToleranceCount.toNat ∧
      p'.log.messages.listAt (getMessageKey X (.prepare msg)) =
        p.log.messages.listAt (getMessageKey X (.prepare msg)) ++ [.prepare msg] ∧
      commit = p.signedCommit X me msg := by
  cases step_effect h with
  | prepareQuorum msg haccepted hcount =>
    refine ⟨msg, rfl, haccepted, hcount, HashMap.listAt_pushAt_self _ _ _, ?_⟩
    simpa [sentMessages, SendType.payloads] using hsent
  | newview msg => simp [sentMessages, handleNewview, newviewPrepare, SendType.payloads] at hsent
  | initialStart nodes =>
    simp [sentMessages, extraInitialStart, distributePublicKey, SendType.payloads] at hsent
  | distributePK => simp [sentMessages, distributePublicKey, SendType.payloads] at hsent
  | _ => simp [sentMessages, silent, SendType.payloads] at hsent

/-- Only a Commit that completes its quorum completes a request. -/
theorem step_complete {request : Request} {queue : List (SendType Payload)}
    (h : step X me p event = some (p', .complete request queue)) :
    ∃ msg, event = .message (.commit msg) ∧ p.verifyCommit X msg = some true ∧
      p.log.requests.lookup msg.number = some request ∧
      (p.log.messages.listAt (getMessageKey X (.commit msg))).length + 1 =
        2 * p.state.faultToleranceCount.toNat := by
  cases step_effect h with
  | commitQuorum msg m primary count haccepted hm hcount => exact ⟨msg, rfl, haccepted, hm, hcount⟩

/-- Only a Reply that completes its quorum ends a round. -/
theorem step_over {request : Option Request} (h : step X me p event = some (p', .over request)) :
    ∃ msg, event = .message (.reply msg) ∧ p.verifyReply X msg = some true ∧
      (p.log.replyMessages.listAt (getMessageKey X (.reply msg))).length + 1 =
        p.state.nodeCount.toNat - p.state.faultToleranceCount.toNat - 1 := by
  cases step_effect h with
  | replyQuorum msg haccepted hcount => exact ⟨msg, rfl, haccepted, hcount⟩

/-- Public keys are never overwritten or dropped. -/
theorem step_consensusNodePk (h : step X me p event = some (p', out)) {sender pk : Bytes}
    (hpk : p.consensusNodePk.lookup sender = some pk) :
    p'.consensusNodePk.lookup sender = some pk := by
  cases step_effect h with
  | publicKey key =>
    change (if key.fromPeerId ∈ p.consensusNodePk then p.consensusNodePk
      else p.consensusNodePk.insert key.fromPeerId key.pk).lookup sender = some pk
    split
    case isTrue => exact hpk
    case isFalse hfresh =>
      have hne : sender ≠ key.fromPeerId := by
        intro heq
        exact hfresh (heq ▸ Finmap.mem_of_lookup_eq_some hpk)
      rwa [Finmap.lookup_insert_of_ne _ hne]
  | _ => exact hpk

/-- A signature that verified keeps verifying. -/
theorem ValidlySigned.step (h : step X me p event = some (p', out)) {msg : MessageType}
    (hsigned : ValidlySigned X p msg) : ValidlySigned X p' msg := by
  obtain ⟨pk, hpk, hverify⟩ := hsigned
  exact ⟨pk, step_consensusNodePk h hpk, hverify⟩

/-- The number of tolerated faults is a constant of the protocol. -/
theorem step_faultToleranceCount (h : step X me p event = some (p', out)) :
    p'.state.faultToleranceCount = p.state.faultToleranceCount := by
  cases step_effect h <;> rfl

end Step

end BFTDiagnosis.Pbft
