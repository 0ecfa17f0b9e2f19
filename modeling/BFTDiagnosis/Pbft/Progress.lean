import BFTDiagnosis.Pbft.Agreement
import BFTDiagnosis.Pbft.Completion
import BFTDiagnosis.Pbft.LogLifetime
import BFTDiagnosis.Pbft.Robustness

/-!
# One request in the order of the phases

A replica hears of one request: first its proposal, then Prepares, and Commits once it has sent its own. All
of them are signed and for the same slot. Then it sends one Commit at the Prepare that makes
`2 * fault_tolerance_count`, and completes the request at the Commit that makes as many. Public keys,
ViewChanges and starts may arrive in between.

The order matters. A Prepare that overtakes the proposal is dropped, and Commits that overtake the Prepares
complete the request, which clears the log: the replica then sends no Commit of its own.
-/

namespace BFTDiagnosis.Pbft

open Components Word PBFTProtocol

variable {X : Externals}

/-! ## Checks that pass -/

section Checks

variable {p p' : PBFTProtocol} {me : Bytes} {out : Answer}

/-- The slot that a node without history gives a request. -/
def roundSlot (X : Externals) (request : Request) : Slot := ⟨0, 1, requestHash X request⟩

/-- What the checks of the round read off the state. -/
structure Standing (p : PBFTProtocol) : Prop where
  view : p.state.view = 0
  stable : p.state.stableCheckpoint.1 = 0
  number : p.state.currentSequenceNumber = 0

/-- The message can be checked and its signature verifies. -/
structure Valid (X : Externals) (p : PBFTProtocol) (msg : MessageType) : Prop where
  sender : X.peerIdValid msg.sender = true
  signed : ValidlySigned X p msg

theorem Valid.verifySignature {msg : MessageType} (h : Valid X p msg) :
    p.verifySignature X msg.sender msg.signature (getMessageKey X msg) = some true := by
  obtain ⟨-, hverify⟩ | ⟨hunsigned, -⟩ := @verifySignature_of_valid X p msg h.sender
  · exact hverify
  · exact absurd h.signed hunsigned

theorem Standing.checkSequenceNumber (h : Standing p) : p.checkSequenceNumber 1 = some true := by
  have hfits : WindowFits p := by
    rw [WindowFits, h.stable]
    decide
  refine (checkSequenceNumber_eq hfits).2 ⟨?_, ?_⟩
  · rw [h.stable]
    decide
  · rw [h.stable]
    decide

theorem checkRequestHash_of_logged {request : Request} (h : p.log.requests.lookup 1 = some request) :
    p.checkRequestHash X 1 (requestHash X request) = true :=
  checkRequestHash_eq_true_iff.2 ⟨request, h, rfl⟩

theorem verifyPreprepare_of_valid {msg : PrePrepare} {request : Request} (h : Standing p)
    (hvalid : Valid X p (.prePrepare msg)) (hslot : msg.slot = roundSlot X request) :
    p.verifyPreprepare X msg = some true := by
  obtain ⟨hview, hnumber, -⟩ := Slot.mk.inj hslot
  have hsigned := hvalid.verifySignature
  have hwindow := h.checkSequenceNumber
  simp only [MessageType.sender, MessageType.signature] at hsigned
  simp [verifyPreprepare, hsigned, hnumber, hwindow, h.view, hview]

theorem verifyPrepare_of_valid {msg : Prepare} {request : Request} (h : Standing p)
    (hvalid : Valid X p (.prepare msg)) (hslot : msg.slot = roundSlot X request)
    (hlogged : p.log.requests.lookup 1 = some request)
    (hphase : p.log.getRequestPhaseState (requestHash X request) ≠ some .prepared) :
    p.verifyPrepare X msg = some true := by
  obtain ⟨hview, hnumber, hhash⟩ := Slot.mk.inj hslot
  have hsigned := hvalid.verifySignature
  have hwindow := h.checkSequenceNumber
  have hrequest := checkRequestHash_of_logged (X := X) hlogged
  simp only [MessageType.sender, MessageType.signature] at hsigned
  simp [verifyPrepare, hsigned, hnumber, hhash, hwindow, hrequest, hphase, h.view, hview]

theorem verifyCommit_of_valid {msg : Commit} {request : Request} {threshold : UInt64} (h : Standing p)
    (hvalid : Valid X p (.commit msg)) (hslot : msg.slot = roundSlot X request)
    (hlogged : p.log.requests.lookup 1 = some request)
    (hphase : p.log.getRequestPhaseState (requestHash X request) ≠ some .commited)
    (hthreshold : checkedMul 2 p.state.faultToleranceCount = some threshold)
    (hmissing : (p.log.messages.listAt (getMessageKey X (.commit msg))).length < threshold.toNat) :
    p.verifyCommit X msg = some true := by
  obtain ⟨hview, hnumber, hhash⟩ := Slot.mk.inj hslot
  have hsigned := hvalid.verifySignature
  have hwindow := h.checkSequenceNumber
  have hrequest := checkRequestHash_of_logged (X := X) hlogged
  simp only [MessageType.sender, MessageType.signature] at hsigned
  have hcount : ¬ threshold.toNat ≤ p.log.getLocalMessagesCountByHash (getMessageKey X (.commit msg)) :=
    not_le.2 hmissing
  simp [verifyCommit, hthreshold, hcount, hsigned, hnumber, hhash, hwindow, hrequest, hphase, h.view, hview]

/-! ## Votes that pass -/

/-- A Prepare that passes the checks completes the quorum exactly when it makes `2 * f`. -/
theorem handlePrepare_of_verified {msg : Prepare} (hverified : p.verifyPrepare X msg = some true)
    (h : p.handlePrepare X me msg = some (p', out)) :
    ((p.log.messages.listAt (getMessageKey X (.prepare msg))).length + 1 =
          2 * p.state.faultToleranceCount.toNat ∧
        p' = { p with log := (p.log.recordPrepare X msg).updateRequestPhaseState msg.mHash .prepared } ∧
        out = .continueExecute [.broadcast (.message ⟨.commit (p.signedCommit X me msg)⟩)]) ∨
      ((p.log.messages.listAt (getMessageKey X (.prepare msg))).length + 1 ≠
          2 * p.state.faultToleranceCount.toNat ∧
        p' = { p with log := p.log.recordPrepare X msg } ∧ out = silent) := by
  have haccept : p.acceptPrepare X me msg = some (p', out) := by simpa [handlePrepare, hverified] using h
  obtain ⟨threshold, hthreshold, hrest⟩ := Option.bind_eq_some_iff.1 haccept
  have hrecorded : (p.log.recordMessageHandler X (.prepare msg)).getLocalMessagesCountByHash
      (getMessageKey X (.prepare msg)) =
        (p.log.messages.listAt (getMessageKey X (.prepare msg))).length + 1 := by
    simp [ConsensusLog.getLocalMessagesCountByHash, ConsensusLog.recordMessageHandler, ConsensusLog.recordPrepare,
      ConsensusLog.recordPhaseMessage]
  rw [hrecorded, toNat_threshold hthreshold] at hrest
  split at hrest
  case isTrue hcount =>
    obtain ⟨hp, hout⟩ := Prod.mk.inj (Option.some.inj hrest)
    exact .inl ⟨hcount, hp.symm, hout.symm⟩
  case isFalse hcount =>
    obtain ⟨hp, hout⟩ := Prod.mk.inj (Option.some.inj hrest)
    exact .inr ⟨hcount, hp.symm, hout.symm⟩

/-- A Commit that passes the checks completes its request exactly when it makes `2 * f`. -/
theorem handleCommit_of_verified {msg : Commit} {m : Request} (hverified : p.verifyCommit X msg = some true)
    (hlogged : p.log.requests.lookup msg.number = some m) (h : p.handleCommit X me msg = some (p', out))
    (hmissing : (p.log.messages.listAt (getMessageKey X (.commit msg))).length <
      2 * p.state.faultToleranceCount.toNat) :
    ((p.log.messages.listAt (getMessageKey X (.commit msg))).length + 1 =
          2 * p.state.faultToleranceCount.toNat ∧
        ∃ primary count, p' = { p with
            state := { p.state.updateCheckpointState X msg.mHash with currentCommitedRequestCount := count }
            log := p.log.reset } ∧
          out = .complete ⟨m.cmd⟩ [.unicast primary (.message ⟨.reply (p.signedReply X me msg m)⟩)]) ∨
      ((p.log.messages.listAt (getMessageKey X (.commit msg))).length + 1 <
          2 * p.state.faultToleranceCount.toNat ∧
        p' = { p with log := p.log.recordCommit X msg } ∧ out = silent) := by
  rw [handleCommit_of_true hverified hlogged] at h
  obtain ⟨threshold, hthreshold, hrest⟩ := Option.bind_eq_some_iff.1 h
  have hrecorded : (p.log.recordMessageHandler X (.commit msg)).getLocalMessagesCountByHash
      (getMessageKey X (.commit msg)) =
        (p.log.messages.listAt (getMessageKey X (.commit msg))).length + 1 := by
    simp [ConsensusLog.getLocalMessagesCountByHash, ConsensusLog.recordMessageHandler, ConsensusLog.recordCommit,
      ConsensusLog.recordPhaseMessage]
  have hnat : threshold.toNat = 2 * p.state.faultToleranceCount.toNat := toNat_threshold hthreshold
  dsimp only at hrest
  rw [hrecorded, hnat, if_neg (by omega)] at hrest
  split at hrest
  case isTrue hcount =>
    simp only [completeCommit, bind, pure, Option.bind_eq_some_iff, Option.some.injEq, Prod.mk.injEq] at hrest
    obtain ⟨count, -, primary, -, hp, hout⟩ := hrest
    exact .inl ⟨hcount, primary, count, hp.symm, hout.symm⟩
  case isFalse hcount =>
    obtain ⟨hp, hout⟩ := Prod.mk.inj (Option.some.inj hrest)
    exact .inr ⟨by omega, hp.symm, hout.symm⟩

end Checks

/-! ## The order of the phases -/

def Event.isProposal : Event → Bool
  | .message (.request _) => true
  | .message (.prePrepare _) => true
  | _ => false

def Event.prepares : Event → List Prepare
  | .message (.prepare msg) => [msg]
  | _ => []

def Event.commits : Event → List Commit
  | .message (.commit msg) => [msg]
  | _ => []

/-- The run has been delivered a request or a PrePrepare. -/
def proposed (run : PbftRun) : Bool := run.any (·.event.isProposal)

def prepares (run : PbftRun) : List Prepare := run.flatMap (·.event.prepares)
def commits (run : PbftRun) : List Commit := run.flatMap (·.event.commits)

/-- What may be delivered after a run: one proposal of the request, valid Prepares of its slot after the
proposal, valid Commits of its slot after the Commit of the replica itself, and what is not about requests. -/
def InOrder (X : Externals) (request : Request) (before : PbftRun) (p : PBFTProtocol) : Event → Prop
  | .message (.request other) => other = request ∧ proposed before = false
  | .message (.prePrepare msg) => proposed before = false ∧ Valid X p (.prePrepare msg) ∧
      msg.slot = roundSlot X request ∧ X.requestOfJson msg.m = some request
  | .message (.prepare msg) => proposed before = true ∧ Valid X p (.prepare msg) ∧ msg.slot = roundSlot X request
  | .message (.commit msg) => sentCommits (requestHash X request) before ≠ [] ∧ Valid X p (.commit msg) ∧
      msg.slot = roundSlot X request
  | .message (.reply _) => False
  | .message (.checkPoint _) => False
  | .message (.newView _) => False
  | .message (.viewChange _) => True
  | .message (.publicKey _) => True
  | .message .distributePK => True
  | .initialStart _ => True

/-- The messages that may clear the log, or move the view or the watermarks. -/
def Event.disturbs : Event → Bool
  | .message (.reply _) => true
  | .message (.checkPoint _) => true
  | .message (.newView _) => true
  | _ => false

theorem InOrder.undisturbed {request : Request} {before : PbftRun} {p : PBFTProtocol} {event : Event}
    (h : InOrder X request before p event) : event.disturbs = false := by
  unfold Event.disturbs
  split
  · exact h.elim
  · exact h.elim
  · exact h.elim
  · rfl

/-- The key under which the Prepares of the round are logged. -/
def roundPrepareKey (X : Externals) (request : Request) : String :=
  getPrepareKeyByRequestHash X (asBytes (requestHash X request)) 0 1

/-- The key under which the Commits of the round are logged. -/
def roundCommitKey (X : Externals) (request : Request) : String :=
  getCommitKeyByRequestHash X (asBytes (requestHash X request)) 0 1

theorem prepareKey_of_slot {request : Request} {msg : Prepare} (h : msg.slot = roundSlot X request) :
    getMessageKey X (.prepare msg) = roundPrepareKey X request := by
  obtain ⟨hview, hnumber, hhash⟩ := Slot.mk.inj h
  rw [getMessageKey, roundPrepareKey, getPrepareKeyByRequestHash, hview, hnumber, hhash]

theorem commitKey_of_slot {request : Request} {msg : Commit} (h : msg.slot = roundSlot X request) :
    getMessageKey X (.commit msg) = roundCommitKey X request := by
  obtain ⟨hview, hnumber, hhash⟩ := Slot.mk.inj h
  rw [getMessageKey, roundCommitKey, getCommitKeyByRequestHash, hview, hnumber, hhash]

/-- What a run has delivered and answered. -/
structure Account (X : Externals) (request : Request) (run : PbftRun) (isProposed : Bool) (preparesHeard commitsHeard
    commitsSent : ℕ) (completed : List Request) : Prop where
  proposed : proposed run = isProposed
  prepares : (prepares run).length = preparesHeard
  commits : (commits run).length = commitsHeard
  sent : (sentCommits (requestHash X request) run).length = commitsSent
  completed : completions run = completed

/-- How far a replica has come with the request, by what it has been delivered. -/
inductive Stage (X : Externals) (request : Request) (run : PbftRun) (p : PBFTProtocol) : Prop
  | waiting (account : Account X request run false 0 0 0 [])
      (requests : p.log.requests = ∅)
      (prepares : p.log.messages.listAt (roundPrepareKey X request) = [])
      (commits : p.log.messages.listAt (roundCommitKey X request) = [])
      (phase : p.log.getRequestPhaseState (requestHash X request) = none)
  | preparing (heard : ℕ) (account : Account X request run true heard 0 0 [])
      (few : heard < 2 * p.state.faultToleranceCount.toNat)
      (logged : p.log.requests.lookup 1 = some request)
      (prepares : (p.log.messages.listAt (roundPrepareKey X request)).length = heard)
      (commits : p.log.messages.listAt (roundCommitKey X request) = [])
      (phase : p.log.getRequestPhaseState (requestHash X request) = none)
  | committing (preparesHeard heard : ℕ) (account : Account X request run true preparesHeard heard 1 [])
      (many : 2 * p.state.faultToleranceCount.toNat ≤ preparesHeard)
      (few : heard < 2 * p.state.faultToleranceCount.toNat)
      (logged : p.log.requests.lookup 1 = some request)
      (commits : (p.log.messages.listAt (roundCommitKey X request)).length = heard)
      (phase : p.log.getRequestPhaseState (requestHash X request) = some .prepared)
  | completed (preparesHeard heard : ℕ) (account : Account X request run true preparesHeard heard 1 [request])
      (manyPrepares : 2 * p.state.faultToleranceCount.toNat ≤ preparesHeard)
      (many : 2 * p.state.faultToleranceCount.toNat ≤ heard)
      (requests : p.log.requests = ∅)

section Account

variable {request : Request} {run : PbftRun} {t : Transition PBFTProtocol Event Answer} {isProposed : Bool}
  {preparesHeard commitsHeard commitsSent : ℕ} {completed : List Request}

/-- One more transition on the account. -/
theorem Account.concat (h : Account X request run isProposed preparesHeard commitsHeard commitsSent completed) :
    Account X request (run ++ [t]) (isProposed || t.event.isProposal) (preparesHeard + t.event.prepares.length)
      (commitsHeard + t.event.commits.length) (commitsSent + (sentCommits (requestHash X request) [t]).length)
      (completed ++ (completedRequest t.out).toList) where
  proposed := by simp [Pbft.proposed, ← h.proposed]
  prepares := by simp [Pbft.prepares, ← h.prepares]
  commits := by simp [Pbft.commits, ← h.commits]
  sent := by simp [sentCommits, ← h.sent]
  completed := by rw [completions_concat, h.completed]

end Account

/-! ## One step -/

section Keys

variable (hX : X.CollisionFree) (request : Request)
include hX

theorem preprepareKey_ne_roundPrepareKey (msg : PrePrepare) :
    roundPrepareKey X request ≠ getMessageKey X (.prePrepare msg) := fun h ↦
  preprepare_key_ne_prepare hX msg
    { view := 0, number := 1, mHash := requestHash X request, fromPeerId := [], signature := [] } h.symm

theorem preprepareKey_ne_roundCommitKey (msg : PrePrepare) :
    roundCommitKey X request ≠ getMessageKey X (.prePrepare msg) := fun h ↦
  preprepare_key_ne_commit hX msg
    { view := 0, number := 1, mHash := requestHash X request, fromPeerId := [], signature := [] } h.symm

theorem roundCommitKey_ne_prepareKey (msg : Prepare) :
    roundCommitKey X request ≠ getMessageKey X (.prepare msg) := fun h ↦
  prepare_key_ne_commit hX msg
    { view := 0, number := 1, mHash := requestHash X request, fromPeerId := [], signature := [] } h.symm

end Keys

/-- What the stages read off the log and the state has not changed. -/
structure Unmoved (p p' : PBFTProtocol) : Prop where
  requests : p'.log.requests = p.log.requests
  messages : p'.log.messages = p.log.messages
  phases : p'.log.requestPhaseState = p.log.requestPhaseState
  faults : p'.state.faultToleranceCount = p.state.faultToleranceCount

section Step

variable {request : Request} {run : PbftRun} {p p' : PBFTProtocol} {me : Bytes} {event : Event} {out : Answer}

/-- A stage is kept by a transition that changes neither what it reads nor the account. -/
theorem Stage.unmoved (h : Stage X request run p) (hunmoved : Unmoved p p') (hproposal : event.isProposal = false)
    (hprepares : event.prepares = []) (hcommits : event.commits = [])
    (hsent : sentCommits (requestHash X request) [⟨p, event, out, p'⟩] = [])
    (hcompleted : completedRequest out = none) : Stage X request (run ++ [⟨p, event, out, p'⟩]) p' := by
  have hkept {isProposed : Bool} {preparesHeard commitsHeard commitsSent : ℕ} {completed : List Request}
      (haccount : Account X request run isProposed preparesHeard commitsHeard commitsSent completed) :
      Account X request (run ++ [⟨p, event, out, p'⟩]) isProposed preparesHeard commitsHeard commitsSent
        completed := by
    have hconcat := haccount.concat (t := ⟨p, event, out, p'⟩)
    simpa [hproposal, hprepares, hcommits, hsent, hcompleted] using hconcat
  have hphase (key : String) : p'.log.getRequestPhaseState key = p.log.getRequestPhaseState key := by
    rw [ConsensusLog.getRequestPhaseState, hunmoved.phases, ConsensusLog.getRequestPhaseState]
  cases h with
  | waiting account requests prepares commits phase =>
    exact .waiting (hkept account) (hunmoved.requests.trans requests) (hunmoved.messages ▸ prepares)
      (hunmoved.messages ▸ commits) ((hphase _).trans phase)
  | preparing heard account few logged prepares commits phase =>
    exact .preparing heard (hkept account) (hunmoved.faults ▸ few) (hunmoved.requests ▸ logged)
      (hunmoved.messages ▸ prepares) (hunmoved.messages ▸ commits) ((hphase _).trans phase)
  | committing preparesHeard heard account many few logged commits phase =>
    exact .committing preparesHeard heard (hkept account) (hunmoved.faults ▸ many) (hunmoved.faults ▸ few)
      (hunmoved.requests ▸ logged) (hunmoved.messages ▸ commits) ((hphase _).trans phase)
  | completed preparesHeard heard account manyPrepares many requests =>
    exact .completed preparesHeard heard (hkept account) (hunmoved.faults ▸ manyPrepares)
      (hunmoved.faults ▸ many) (hunmoved.requests.trans requests)

theorem Account.first {isProposed : Bool} {preparesHeard commitsHeard commitsSent : ℕ} {completed : List Request}
    (h : Account X request run isProposed preparesHeard commitsHeard commitsSent completed)
    (hfirst : Pbft.proposed run = false) : isProposed = false := h.proposed.symm.trans hfirst

/-- The proposal of the request, at a replica that has heard nothing of it. -/
theorem Stage.step_proposal (h : Stage X request run p) (hfirst : Pbft.proposed run = false)
    (hf : 1 ≤ p.state.faultToleranceCount.toNat) (hproposal : event.isProposal = true)
    (hprepares : event.prepares = []) (hcommits : event.commits = [])
    (hsent : sentCommits (requestHash X request) [⟨p, event, out, p'⟩] = [])
    (hcompleted : completedRequest out = none)
    (hfaults : p'.state.faultToleranceCount = p.state.faultToleranceCount)
    (hrequests : p'.log.requests = (p.log.recordRequest 1 request).requests)
    (hmessages : ∀ key ∈ [roundPrepareKey X request, roundCommitKey X request],
      p'.log.messages.listAt key = p.log.messages.listAt key)
    (hphases : p'.log.requestPhaseState = p.log.requestPhaseState) :
    Stage X request (run ++ [⟨p, event, out, p'⟩]) p' := by
  cases h with
  | waiting account requests prepares commits phase =>
    have hconcat := account.concat (t := ⟨p, event, out, p'⟩)
    have hlogged : p'.log.requests.lookup 1 = some request := by
      rw [hrequests, ConsensusLog.recordRequest, requests, if_neg Finmap.notMem_empty]
      exact Finmap.lookup_insert _
    refine .preparing 0 ?_ ?_ hlogged ?_ ?_ ?_
    · simpa [hproposal, hprepares, hcommits, hsent, hcompleted] using hconcat
    · rw [hfaults]
      omega
    · rw [hmessages _ (by simp), prepares, List.length_nil]
    · rw [hmessages _ (by simp), commits]
    · rw [ConsensusLog.getRequestPhaseState, hphases]
      exact phase
  | preparing heard account => cases account.first hfirst
  | committing preparesHeard heard account => cases account.first hfirst
  | completed preparesHeard heard account => cases account.first hfirst

theorem recordRequest_phases (log : ConsensusLog) (number : UInt64) (request : Request) :
    (log.recordRequest number request).requestPhaseState = log.requestPhaseState := by
  unfold ConsensusLog.recordRequest
  split <;> rfl

theorem Stage.step_request (h : Stage X request run p) (hstanding : Standing p)
    (hf : 1 ≤ p.state.faultToleranceCount.toNat) (hfirst : Pbft.proposed run = false)
    (htaken : step X me p (.message (.request request)) = some (p', out)) :
    Stage X request (run ++ [⟨p, .message (.request request), out, p'⟩]) p' := by
  obtain ⟨number, preprepare, hnumber, rfl, rfl⟩ := handleRequest_cases htaken
  rw [hstanding.number] at hnumber
  obtain rfl : 1 = number := Option.some.inj hnumber
  refine h.step_proposal hfirst hf rfl rfl rfl rfl rfl rfl rfl ?_ ?_
  · intro key _
    simp only [recordRequest_messages]
  · exact recordRequest_phases p.log 1 request

theorem Stage.step_prePrepare (hX : X.CollisionFree) (h : Stage X request run p) (hstanding : Standing p)
    (hf : 1 ≤ p.state.faultToleranceCount.toNat) {msg : PrePrepare} (hfirst : Pbft.proposed run = false)
    (hvalid : Valid X p (.prePrepare msg)) (hslot : msg.slot = roundSlot X request)
    (hjson : X.requestOfJson msg.m = some request)
    (htaken : step X me p (.message (.prePrepare msg)) = some (p', out)) :
    Stage X request (run ++ [⟨p, .message (.prePrepare msg), out, p'⟩]) p' := by
  obtain ⟨request', hrequest, haccepted⟩ := handlePreprepare_cases htaken
  obtain rfl : request = request' := Option.some.inj (hjson.symm.trans hrequest)
  have hverified : (p.takePreprepare X msg request).verifyPreprepare X msg = some true :=
    verifyPreprepare_of_valid ⟨hstanding.view, hstanding.stable, hstanding.number⟩
      ⟨hvalid.sender, hvalid.signed⟩ hslot
  obtain ⟨-, hnumber, -⟩ := Slot.mk.inj hslot
  rcases haccepted with ⟨-, heq⟩ | ⟨hrejected, -⟩
  · obtain ⟨rfl, rfl⟩ := Prod.mk.inj heq
    refine h.step_proposal hfirst hf rfl rfl rfl rfl rfl rfl ?_ ?_ ?_
    · rw [← hnumber]
      rfl
    · intro key hkey
      have hother : key ≠ getMessageKey X (.prePrepare msg) := by
        rcases List.mem_pair.1 hkey with rfl | rfl
        · exact preprepareKey_ne_roundPrepareKey hX request msg
        · exact preprepareKey_ne_roundCommitKey hX request msg
      refine (HashMap.listAt_pushAt_of_ne _ _ hother).trans ?_
      rw [recordRequest_messages]
      rfl
    · exact recordRequest_phases p.log msg.number request
  · rw [hverified] at hrejected
    cases hrejected

theorem Stage.step_prepare (hX : X.CollisionFree) (h : Stage X request run p) (hstanding : Standing p)
    {msg : Prepare} (hproposed : Pbft.proposed run = true) (hvalid : Valid X p (.prepare msg))
    (hslot : msg.slot = roundSlot X request) (htaken : step X me p (.message (.prepare msg)) = some (p', out)) :
    Stage X request (run ++ [⟨p, .message (.prepare msg), out, p'⟩]) p' := by
  have hkey := prepareKey_of_slot hslot
  obtain ⟨-, -, hhash⟩ := Slot.mk.inj hslot
  replace hhash : msg.mHash = requestHash X request := hhash
  cases h with
  | waiting account => cases account.proposed.symm.trans hproposed
  | preparing heard account few logged prepares commits phase =>
    have hconcat := account.concat (t := ⟨p, .message (.prepare msg), out, p'⟩)
    have hverified := verifyPrepare_of_valid hstanding hvalid hslot logged
      (by rw [phase]; exact (Option.some_ne_none _).symm)
    have hpushed : ((p.log.recordPrepare X msg).messages.listAt (roundPrepareKey X request)).length = heard + 1 := by
      rw [ConsensusLog.recordPrepare, ConsensusLog.recordPhaseMessage, hkey, HashMap.listAt_pushAt_self,
        List.length_append, prepares, List.length_singleton]
    have hother : (p.log.recordPrepare X msg).messages.listAt (roundCommitKey X request) = [] :=
      (HashMap.listAt_pushAt_of_ne _ _ (roundCommitKey_ne_prepareKey hX request msg)).trans commits
    obtain ⟨hcount, rfl, rfl⟩ | ⟨hcount, rfl, rfl⟩ := handlePrepare_of_verified hverified htaken
    · rw [hkey, prepares] at hcount
      refine .committing (heard + 1) 0 ?_ hcount.ge (Nat.zero_lt_of_lt few) logged ?_ ?_
      · simpa [sentCommits, sentMessages, SendType.payloads, MessageType.asCommit, signedCommit, hhash,
          Event.isProposal, Event.prepares, Event.commits, completedRequest] using hconcat
      · exact (congrArg List.length hother).trans List.length_nil
      · rw [ConsensusLog.getRequestPhaseState, hhash]
        exact Finmap.lookup_insert _
    · rw [hkey, prepares] at hcount
      refine .preparing (heard + 1) ?_ (Nat.lt_of_le_of_ne few hcount) logged hpushed hother phase
      exact hconcat
  | committing preparesHeard heard account many few logged commits phase =>
    have hconcat := account.concat (t := ⟨p, .message (.prepare msg), out, p'⟩)
    obtain ⟨-, rfl, rfl⟩ | ⟨hverified, -⟩ := handlePrepare_cases htaken
    · refine .committing (preparesHeard + 1) heard ?_ (by omega) few logged commits phase
      exact hconcat
    · exact absurd phase (hhash ▸ (verifyPrepare_eq_true hverified).2.1)
  | completed preparesHeard heard account manyPrepares many requests =>
    have hconcat := account.concat (t := ⟨p, .message (.prepare msg), out, p'⟩)
    obtain ⟨-, rfl, rfl⟩ | ⟨hverified, -⟩ := handlePrepare_cases htaken
    · refine .completed (preparesHeard + 1) heard ?_ (by omega) many requests
      exact hconcat
    · obtain ⟨-, -, -, m, hm, -⟩ := verifyPrepare_eq_true hverified
      rw [requests, Finmap.lookup_empty] at hm
      cases hm

theorem Stage.step_commit (h : Stage X request run p) (hstanding : Standing p) {msg : Commit}
    (hcommitted : sentCommits (requestHash X request) run ≠ []) (hvalid : Valid X p (.commit msg))
    (hslot : msg.slot = roundSlot X request) (htaken : step X me p (.message (.commit msg)) = some (p', out)) :
    Stage X request (run ++ [⟨p, .message (.commit msg), out, p'⟩]) p' := by
  have hkey := commitKey_of_slot hslot
  obtain ⟨-, hnumber, hhash⟩ := Slot.mk.inj hslot
  replace hhash : msg.mHash = requestHash X request := hhash
  replace hnumber : msg.number = 1 := hnumber
  cases h with
  | waiting account => exact absurd (List.eq_nil_of_length_eq_zero account.sent) hcommitted
  | preparing heard account => exact absurd (List.eq_nil_of_length_eq_zero account.sent) hcommitted
  | committing preparesHeard heard account many few logged commits phase =>
    have hconcat := account.concat (t := ⟨p, .message (.commit msg), out, p'⟩)
    have hmissing : (p.log.messages.listAt (getMessageKey X (.commit msg))).length <
        2 * p.state.faultToleranceCount.toNat := by rwa [hkey, commits]
    have hverified : p.verifyCommit X msg = some true := by
      obtain ⟨accepted, haccepted, -⟩ := Option.bind_eq_some_iff.1 htaken
      obtain ⟨threshold, hthreshold, -⟩ := Option.bind_eq_some_iff.1 haccepted
      apply verifyCommit_of_valid hstanding hvalid hslot logged _ hthreshold
      · rwa [toNat_threshold hthreshold]
      · rw [phase]
        decide
    have hlogged : p.log.requests.lookup msg.number = some request := by rw [hnumber, logged]
    obtain ⟨hcount, primary, count, rfl, rfl⟩ | ⟨hcount, rfl, rfl⟩ :=
      handleCommit_of_verified hverified hlogged htaken hmissing
    · rw [hkey, commits] at hcount
      refine .completed preparesHeard (heard + 1) ?_ many hcount.ge rfl
      exact hconcat
    · rw [hkey, commits] at hcount
      refine .committing preparesHeard (heard + 1) ?_ many hcount logged ?_ phase
      · exact hconcat
      · rw [ConsensusLog.recordCommit, ConsensusLog.recordPhaseMessage, hkey, HashMap.listAt_pushAt_self,
          List.length_append, commits, List.length_singleton]
  | completed preparesHeard heard account manyPrepares many requests =>
    have hconcat := account.concat (t := ⟨p, .message (.commit msg), out, p'⟩)
    obtain ⟨rfl, rfl⟩ | ⟨-, m, hm, -⟩ := handleCommit_cases htaken
    · refine .completed preparesHeard (heard + 1) ?_ manyPrepares (by omega) requests
      exact hconcat
    · rw [requests, Finmap.lookup_empty] at hm
      cases hm

theorem Stage.step_viewChange (h : Stage X request run p) {msg : ViewChange MessageType}
    (htaken : step X me p (.message (.viewChange msg)) = some (p', out)) :
    Stage X request (run ++ [⟨p, .message (.viewChange msg), out, p'⟩]) p' := by
  obtain ⟨rfl, rfl⟩ | ⟨rfl, rfl | ⟨viewchange, rfl⟩ | ⟨newview, rfl⟩⟩ := handleViewchange_cases htaken
  all_goals exact h.unmoved ⟨rfl, rfl, rfl, rfl⟩ rfl rfl rfl rfl rfl

theorem Stage.step (hX : X.CollisionFree) (h : Stage X request run p) (hstanding : Standing p)
    (hf : 1 ≤ p.state.faultToleranceCount.toNat) (horder : InOrder X request run p event)
    (htaken : Pbft.step X me p event = some (p', out)) : Stage X request (run ++ [⟨p, event, out, p'⟩]) p' := by
  cases event with
  | initialStart nodes =>
    obtain ⟨rfl, rfl⟩ := Prod.mk.inj (Option.some.inj htaken)
    exact h.unmoved ⟨rfl, rfl, rfl, rfl⟩ rfl rfl rfl rfl rfl
  | message msg =>
    cases msg with
    | request other =>
      obtain ⟨rfl, hfirst⟩ := horder
      exact h.step_request hstanding hf hfirst htaken
    | prePrepare msg =>
      obtain ⟨hfirst, hvalid, hslot, hjson⟩ := horder
      exact h.step_prePrepare hX hstanding hf hfirst hvalid hslot hjson htaken
    | prepare msg =>
      obtain ⟨hproposed, hvalid, hslot⟩ := horder
      exact h.step_prepare hX hstanding hproposed hvalid hslot htaken
    | commit msg =>
      obtain ⟨hcommitted, hvalid, hslot⟩ := horder
      exact h.step_commit hstanding hcommitted hvalid hslot htaken
    | reply msg => exact horder.elim
    | checkPoint msg => exact horder.elim
    | newView msg => exact horder.elim
    | viewChange msg => exact h.step_viewChange htaken
    | publicKey key =>
      obtain ⟨rfl, rfl⟩ := storagePublicKeyByPeerId_cases htaken
      exact h.unmoved ⟨rfl, rfl, rfl, rfl⟩ rfl rfl rfl rfl rfl
    | distributePK =>
      obtain ⟨rfl, rfl⟩ := Prod.mk.inj (Option.some.inj htaken)
      exact h.unmoved ⟨rfl, rfl, rfl, rfl⟩ rfl rfl rfl rfl rfl

theorem Standing.step (h : Standing p) (hundisturbed : event.disturbs = false)
    (htaken : Pbft.step X me p event = some (p', out)) : Standing p' := by
  cases step_effect htaken with
  | checkpointStable => cases hundisturbed
  | newview => cases hundisturbed
  | _ => exact ⟨h.view, h.stable, h.number⟩

end Step

/-! ## Runs -/

section Runs

variable {request : Request} {run : PbftRun} {p : PBFTProtocol} {f : UInt64} {keypair me : Bytes}
  {keys : HashMap Bytes Bytes}

theorem Stage.start : Stage X request [] { PBFTProtocol.new f keypair with consensusNodePk := keys } :=
  .waiting ⟨rfl, rfl, rfl, rfl, rfl⟩ rfl (HashMap.listAt_empty _) (HashMap.listAt_empty _)
    (Finmap.lookup_empty _)

/-- The stage of a replica in a run that delivers the phases in order. -/
theorem stage_of_inOrder (hX : X.CollisionFree) (hf : 1 ≤ f.toNat)
    (hrun : IsRun (step X me) { PBFTProtocol.new f keypair with consensusNodePk := keys } run p)
    (horder : ∀ before t after, run = before ++ t :: after → InOrder X request before t.pre t.event) :
    Stage X request run p ∧ Standing p ∧ p.state.faultToleranceCount = f := by
  refine hrun.induction_of_split (motive := fun run p ↦ Stage X request run p ∧ Standing p ∧
    p.state.faultToleranceCount = f) ⟨.start, ⟨rfl, rfl, rfl⟩, rfl⟩ ?_ horder
  rintro run p event out p' ⟨hstage, hstanding, hfaults⟩ horder htaken
  exact ⟨hstage.step hX hstanding (hfaults ▸ hf) horder htaken, hstanding.step horder.undisturbed htaken,
    (step_faultToleranceCount htaken).trans hfaults⟩

/-- The votes that have been heard decide what has been sent and completed. -/
theorem Stage.decided (h : Stage X request run p) (hf : 1 ≤ p.state.faultToleranceCount.toNat) :
    (sentCommits (requestHash X request) run).length =
        (if 2 * p.state.faultToleranceCount.toNat ≤ (prepares run).length then 1 else 0) ∧
      completions run =
        if 2 * p.state.faultToleranceCount.toNat ≤ (commits run).length then [request] else [] := by
  cases h with
  | waiting account =>
    rw [account.sent, account.prepares, account.completed, account.commits, if_neg (by omega), if_neg (by omega)]
    exact ⟨rfl, rfl⟩
  | preparing heard account few =>
    rw [account.sent, account.prepares, account.completed, account.commits, if_neg (by omega), if_neg (by omega)]
    exact ⟨rfl, rfl⟩
  | committing preparesHeard heard account many few =>
    rw [account.sent, account.prepares, account.completed, account.commits, if_pos many, if_neg (by omega)]
    exact ⟨rfl, rfl⟩
  | completed preparesHeard heard account manyPrepares many =>
    rw [account.sent, account.prepares, account.completed, account.commits, if_pos manyPrepares, if_pos many]
    exact ⟨rfl, rfl⟩

/-- Such a run sends its Commit exactly at the Prepare that makes `2 * f`, and completes its request exactly at
the Commit that makes `2 * f`. -/
theorem votes_decide_of_inOrder (hX : X.CollisionFree) (hf : 1 ≤ f.toNat)
    (hrun : IsRun (step X me) { PBFTProtocol.new f keypair with consensusNodePk := keys } run p)
    (horder : ∀ before t after, run = before ++ t :: after → InOrder X request before t.pre t.event) :
    (sentCommits (requestHash X request) run).length = (if 2 * f.toNat ≤ (prepares run).length then 1 else 0) ∧
      completions run = if 2 * f.toNat ≤ (commits run).length then [request] else [] := by
  obtain ⟨hstage, -, rfl⟩ := stage_of_inOrder hX hf hrun horder
  exact hstage.decided hf

end Runs

section Decidable

variable (p : PBFTProtocol)

instance Valid.decidable (X : Externals) (msg : MessageType) : Decidable (Valid X p msg) :=
  decidable_of_iff (X.peerIdValid msg.sender = true ∧ ∃ pk ∈ p.consensusNodePk.lookup msg.sender,
      X.verify pk msg.signature (asBytes (getMessageKey X msg)) = true)
    ⟨fun h ↦ ⟨h.1, h.2⟩, fun h ↦ ⟨h.1, h.2⟩⟩

instance InOrder.decidable (X : Externals) (request : Request) (before : PbftRun) :
    ∀ event, Decidable (InOrder X request before p event)
  | .message (.request other) => inferInstanceAs (Decidable (other = request ∧ _ = false))
  | .message (.prePrepare msg) => inferInstanceAs (Decidable (_ = false ∧ Valid X p (.prePrepare msg) ∧ _ = _ ∧ _ = _))
  | .message (.prepare msg) => inferInstanceAs (Decidable (_ = true ∧ Valid X p (.prepare msg) ∧ _ = _))
  | .message (.commit msg) => inferInstanceAs (Decidable (_ ≠ [] ∧ Valid X p (.commit msg) ∧ _ = _))
  | .message (.reply _) => .isFalse not_false
  | .message (.checkPoint _) => .isFalse not_false
  | .message (.newView _) => .isFalse not_false
  | .message (.viewChange _) => .isTrue trivial
  | .message (.publicKey _) => .isTrue trivial
  | .message .distributePK => .isTrue trivial
  | .initialStart _ => .isTrue trivial

end Decidable

/-- A node that proposes a request and hears two Prepares and two Commits. -/
def orderedEvents : List Event :=
  [.message (.request ⟨"a"⟩), .message (.prepare (roundPrepare [2] ⟨"a"⟩)),
    .message (.prepare (roundPrepare [3] ⟨"a"⟩)), .message (.commit (roundCommit [2] ⟨"a"⟩)),
    .message (.commit (roundCommit [3] ⟨"a"⟩))]

def orderedRun : PbftRun := transitions (step .transparent [1]) (fourNodes 0) orderedEvents

theorem votes_decide_of_inOrder_round :
    (sentCommits (requestHash .transparent ⟨"a"⟩) orderedRun).length = 1 ∧ completions orderedRun = [⟨"a"⟩] := by
  have hrun : IsRun (step .transparent [1]) (fourNodes 0) orderedRun
      (final (step .transparent [1]) (fourNodes 0) orderedEvents) := IsRun.of_isSome (by decide +kernel)
  have horder : ∀ before t after, orderedRun = before ++ t :: after →
      InOrder .transparent ⟨"a"⟩ before t.pre t.event := forall_split_of_forall (by decide +kernel)
  have hdecide := votes_decide_of_inOrder Utils.Platform.collisionFree_transparent (by decide) hrun horder
  have hcommits : 2 ≤ (commits orderedRun).length := by decide +kernel
  have hprepares : 2 ≤ (prepares orderedRun).length := by decide +kernel
  exact ⟨hdecide.1.trans (if_pos hprepares), hdecide.2.trans (if_pos hcommits)⟩

end BFTDiagnosis.Pbft
