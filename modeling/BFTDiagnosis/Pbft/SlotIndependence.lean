import BFTDiagnosis.Pbft.Proposals
import BFTDiagnosis.Pbft.ViewChange

/-!
# Independence of two PBFT slots

Two agreements with different views or sequence numbers should not influence each other: what a
replica sends and completes for one slot should be the same when the messages of the other slot are
removed. Three things that the slots share stand in the way. A completed request resets the whole log.
A prepared request is marked by its hash alone, so the same request in the other slot is marked too.
And a request completes only when the primary is a peer id, which the PrePrepares of both slots write.

The main theorem is a simulation. Two states agree on a slot when everything its messages depend on is
equal; the messages of the slot keep this and are answered alike, and the messages of the other slot do
not disturb it as long as they complete nothing and prepare no hash that the slot votes on.
-/

namespace BFTDiagnosis.Pbft

open Components Word PBFTProtocol

variable {X : Externals}

/-! ## Slots of events -/

/-- The view and the number that a message of the three phases is for. -/
def Event.slot : Event → Option (UInt64 × UInt64)
  | .message (.prePrepare msg) => some (msg.view, msg.number)
  | .message (.prepare msg) => some (msg.view, msg.number)
  | .message (.commit msg) => some (msg.view, msg.number)
  | _ => none

def Event.isFor (slot : UInt64 × UInt64) (event : Event) : Bool := decide (event.slot = some slot)

/-- The request hash that a vote carries. -/
def Event.votedHash : Event → Option String
  | .message (.prepare msg) => some msg.mHash
  | .message (.commit msg) => some msg.mHash
  | _ => none

/-- The request hashes that the votes for a slot carry. -/
def votedHashes (slot : UInt64 × UInt64) (events : List Event) : List String :=
  (events.filter (Event.isFor slot)).filterMap Event.votedHash

/-- The call is about to complete a request: its Commit is accepted, and the last one missing. -/
def completesNow (X : Externals) (p : PBFTProtocol) : Event → Bool
  | .message (.commit msg) =>
    decide (p.verifyCommit X msg = some true ∧
      (p.log.messages.listAt (getMessageKey X (.commit msg))).length + 1 =
        2 * p.state.faultToleranceCount.toNat)
  | _ => false

/-- The hash that the call is about to mark as prepared: its Prepare is accepted, and the last one
missing. -/
def preparesNow (X : Externals) (p : PBFTProtocol) : Event → Option String
  | .message (.prepare msg) =>
    if p.verifyPrepare X msg = some true ∧
        (p.log.messages.listAt (getMessageKey X (.prepare msg))).length + 1 =
          2 * p.state.faultToleranceCount.toNat then some msg.mHash else none
  | _ => none

/-- What an answer sends, and the request it completes; to whom a Reply goes is left open. -/
def results (out : Answer) : List MessageType × Option Request := (sentMessages out, completedRequest out)

/-! ## Agreement of two states on a slot -/

/-- The key of a kind of messages for a slot and a request hash. -/
def slotKey (X : Externals) (slot : UInt64 × UInt64) (kind : UInt8) (mHash : String) : String :=
  X.getHashStr (phaseKeyBytes kind (asBytes mHash) slot.1 slot.2)

theorem slotKey_ne (hX : X.CollisionFree) {slot slot' : UInt64 × UInt64} (hne : slot ≠ slot')
    (kind kind' : UInt8) (mHash mHash' : String) :
    slotKey X slot kind mHash ≠ slotKey X slot' kind' mHash' := by
  intro hkey
  have hslots := (phaseKey_inj hX ⟨slot.1, slot.2, mHash⟩ ⟨slot'.1, slot'.2, mHash'⟩ hkey).2
  obtain ⟨hview, hnumber, -⟩ := Slot.mk.inj hslots
  exact hne (Prod.ext hview hnumber)

/-- Two logs hold the same messages for a slot, and the same phase for the hashes of interest. -/
structure LogAgree (X : Externals) (slot : UInt64 × UInt64) (hashes : List String)
    (log log' : ConsensusLog) : Prop where
  messages : ∀ kind mHash, log.messages.listAt (slotKey X slot kind mHash) =
    log'.messages.listAt (slotKey X slot kind mHash)
  phase : ∀ mHash ∈ hashes, log.getRequestPhaseState mHash = log'.getRequestPhaseState mHash

/-- Two states agree on everything that the messages of a slot depend on. The request logged for its
number matters only in the view of the slot, and the primary only once there is a request. -/
structure SlotAgree (X : Externals) (slot : UInt64 × UInt64) (hashes : List String)
    (p q : PBFTProtocol) : Prop where
  view : p.state.view = q.state.view
  faults : p.state.faultToleranceCount = q.state.faultToleranceCount
  stable : p.state.stableCheckpoint = q.state.stableCheckpoint
  count : p.state.currentCommitedRequestCount = q.state.currentCommitedRequestCount
  keypair : p.keypair = q.keypair
  keys : p.consensusNodePk = q.consensusNodePk
  log : LogAgree X slot hashes p.log q.log
  request : p.state.view = slot.1 → p.log.requests.lookup slot.2 = q.log.requests.lookup slot.2
  primary : q.log.requests.lookup slot.2 ≠ none → X.peerIdFromBytes q.state.primary ≠ none

namespace LogAgree

variable {slot : UInt64 × UInt64} {hashes : List String} {log log' : ConsensusLog}

/-- Recording one message on both sides. -/
theorem record (h : LogAgree X slot hashes log log') (msg : MessageType) :
    LogAgree X slot hashes (log.recordPhaseMessage X msg) (log'.recordPhaseMessage X msg) where
  messages := fun kind mHash ↦ HashMap.listAt_pushAt_congr (h.messages kind mHash) _ msg
  phase := h.phase

/-- Recording a message of another slot on one side. -/
theorem record_other (hX : X.CollisionFree) (h : LogAgree X slot hashes log log')
    {slot' : UInt64 × UInt64} (hne : slot ≠ slot') {kind : UInt8} {mHash : String} {msg : MessageType}
    (hkey : getMessageKey X msg = slotKey X slot' kind mHash) :
    LogAgree X slot hashes (log.recordPhaseMessage X msg) log' where
  messages := by
    intro kind' mHash'
    rw [← h.messages kind' mHash']
    apply HashMap.listAt_pushAt_of_ne
    rw [hkey]
    exact slotKey_ne hX hne kind' kind mHash' mHash
  phase := h.phase

/-- Marking one hash on both sides. -/
theorem mark (h : LogAgree X slot hashes log log') (mHash : String) (state : LogPhaseState) :
    LogAgree X slot hashes (log.updateRequestPhaseState mHash state)
      (log'.updateRequestPhaseState mHash state) where
  messages := h.messages
  phase := by
    intro other hother
    change Finmap.lookup other (log.requestPhaseState.insert mHash state) =
      Finmap.lookup other (log'.requestPhaseState.insert mHash state)
    by_cases hsame : other = mHash
    · rw [hsame, Finmap.lookup_insert, Finmap.lookup_insert]
    · rw [Finmap.lookup_insert_of_ne _ hsame, Finmap.lookup_insert_of_ne _ hsame]
      exact h.phase other hother

/-- Marking a hash of no interest on one side. -/
theorem mark_other (h : LogAgree X slot hashes log log') {mHash : String} (hother : mHash ∉ hashes)
    (state : LogPhaseState) : LogAgree X slot hashes (log.updateRequestPhaseState mHash state) log' where
  messages := h.messages
  phase := by
    intro other hmem
    have hne : other ≠ mHash := fun heq ↦ hother (heq ▸ hmem)
    change Finmap.lookup other (log.requestPhaseState.insert mHash state) = _
    rw [Finmap.lookup_insert_of_ne _ hne]
    exact h.phase other hmem

/-- Recording requests changes nothing that the logs agree on. -/
theorem recordRequest (h : LogAgree X slot hashes log log') (number : UInt64) (request : Request) :
    LogAgree X slot hashes (log.recordRequest number request) log' := by
  obtain ⟨requests, hframe⟩ := recordRequest_frame log number request
  rw [hframe]
  exact ⟨h.messages, h.phase⟩

theorem symm (h : LogAgree X slot hashes log log') : LogAgree X slot hashes log' log where
  messages := fun kind mHash ↦ (h.messages kind mHash).symm
  phase := fun mHash hmem ↦ (h.phase mHash hmem).symm

theorem reset : LogAgree X slot hashes log.reset log'.reset where
  messages := fun _ _ ↦ rfl
  phase := fun _ _ ↦ rfl

end LogAgree

theorem lookup_recordRequest_of_ne (log : ConsensusLog) {number number' : UInt64} (request : Request)
    (hne : number ≠ number') :
    (log.recordRequest number' request).requests.lookup number = log.requests.lookup number := by
  unfold ConsensusLog.recordRequest
  split
  case isTrue => rfl
  case isFalse => exact Finmap.lookup_insert_of_ne _ hne

theorem peerIdFromBytes_of_verifyPreprepare {p : PBFTProtocol} {msg : PrePrepare} {accepted : Bool}
    (h : p.verifyPreprepare X msg = some accepted) : X.peerIdFromBytes msg.fromPeerId ≠ none := by
  simp only [verifyPreprepare, verifySignature, bind, Option.bind_eq_some_iff] at h
  obtain ⟨signed, ⟨peer, hpeer, -⟩, -⟩ := h
  rw [hpeer]
  exact Option.some_ne_none peer

namespace SlotAgree

variable {slot slot' : UInt64 × UInt64} {hashes : List String} {p p' q : PBFTProtocol} {me : Bytes}
  {event : Event} {out : Answer}

theorem refl (hprimary : p.log.requests.lookup slot.2 ≠ none → X.peerIdFromBytes p.state.primary ≠ none) :
    SlotAgree X slot hashes p p :=
  ⟨rfl, rfl, rfl, rfl, rfl, rfl, ⟨fun _ _ ↦ rfl, fun _ _ ↦ rfl⟩, fun _ ↦ rfl, hprimary⟩

/-- Replacing the logs by two that agree and hold the same requests as before. -/
theorem withLogs (h : SlotAgree X slot hashes p q) {log log' : ConsensusLog}
    (hlog : LogAgree X slot hashes log log') (hrequests : log.requests = p.log.requests)
    (hrequests' : log'.requests = q.log.requests) :
    SlotAgree X slot hashes { p with log := log } { q with log := log' } where
  view := h.view
  faults := h.faults
  stable := h.stable
  count := h.count
  keypair := h.keypair
  keys := h.keys
  log := hlog
  request := by
    intro hview
    rw [hrequests, hrequests']
    exact h.request hview
  primary := by
    intro hlogged
    rw [hrequests'] at hlogged
    exact h.primary hlogged

/-! ## Messages of the other slot -/

/-- A message of another slot does not disturb the agreement, unless it completes a request or marks a
hash that the slot votes on. -/
theorem step_other (hX : X.CollisionFree) (hne : slot ≠ slot') (h : SlotAgree X slot hashes p q)
    (htaken : step X me p event = some (p', out)) (hslot : event.slot = some slot')
    (hcompletes : completesNow X p event = false)
    (hprepares : ∀ mHash ∈ preparesNow X p event, mHash ∉ hashes) : SlotAgree X slot hashes p' q := by
  cases step_effect htaken with
  | rejected event' => exact h
  | preprepareRejected msg request =>
    exact ⟨h.view, h.faults, h.stable, h.count, h.keypair, h.keys, h.log, h.request, h.primary⟩
  | preprepare msg request hjson haccepted =>
    obtain rfl := Option.some.inj hslot
    have hview : p.state.view = msg.view := (verifyPreprepare_eq_true haccepted).2
    refine ⟨h.view, h.faults, h.stable, h.count, h.keypair, h.keys,
      (h.log.recordRequest msg.number request).record_other hX hne rfl, ?_, h.primary⟩
    intro hsame
    have hnumber : slot.2 ≠ msg.number := by
      intro heq
      exact hne (Prod.ext (hsame.symm.trans hview) heq)
    exact (lookup_recordRequest_of_ne p.log request hnumber).trans (h.request hsame)
  | prepare msg haccepted =>
    obtain rfl := Option.some.inj hslot
    exact h.withLogs (h.log.record_other hX hne rfl) rfl rfl
  | prepareQuorum msg haccepted hcount =>
    obtain rfl := Option.some.inj hslot
    have hother : msg.mHash ∉ hashes := hprepares msg.mHash (if_pos ⟨haccepted, hcount⟩)
    exact h.withLogs ((h.log.record_other hX hne rfl).mark_other hother .prepared) rfl rfl
  | commit msg haccepted =>
    obtain rfl := Option.some.inj hslot
    exact h.withLogs (h.log.record_other hX hne rfl) rfl rfl
  | commitQuorum msg m primary count haccepted hm hcount =>
    have hnow : completesNow X p (.message (.commit msg)) = true :=
      decide_eq_true ⟨haccepted, hcount⟩
    rw [hnow] at hcompletes
    cases hcompletes
  | _ => cases hslot

/-! ## Messages of the slot -/

theorem verifyPreprepare_eq (h : SlotAgree X slot hashes p q) (msg : PrePrepare) :
    q.verifyPreprepare X msg = p.verifyPreprepare X msg := by
  simp only [verifyPreprepare, verifySignature, getPublicKeyByPeerId, checkSequenceNumber, h.keys,
    h.stable, h.view]

/-- The request is compared only in the view of the slot, where the states log the same one. -/
theorem checkRequestHash_eq {view number : UInt64} (h : SlotAgree X (view, number) hashes p q)
    (mHash : String) :
    (q.state.view == view && q.checkRequestHash X number mHash) =
      (p.state.view == view && p.checkRequestHash X number mHash) := by
  by_cases hview : p.state.view = view
  · have hrequest := h.request hview
    simp only [checkRequestHash, ConsensusLog.getLocalRequestBySequenceNumber, hrequest, h.view]
  · have hview' : q.state.view ≠ view := h.view ▸ hview
    simp only [beq_false_of_ne hview, beq_false_of_ne hview', Bool.false_and]

theorem verifyPrepare_eq {msg : Prepare} (h : SlotAgree X (msg.view, msg.number) hashes p q)
    (hmem : msg.mHash ∈ hashes) : q.verifyPrepare X msg = p.verifyPrepare X msg := by
  simp only [verifyPrepare, verifySignature, getPublicKeyByPeerId, checkSequenceNumber, h.keys,
    h.stable, h.log.phase msg.mHash hmem, Bool.and_assoc, h.checkRequestHash_eq]

theorem verifyCommit_eq {msg : Commit} (h : SlotAgree X (msg.view, msg.number) hashes p q)
    (hmem : msg.mHash ∈ hashes) : q.verifyCommit X msg = p.verifyCommit X msg := by
  have hmessages : p.log.messages.listAt (getMessageKey X (.commit msg)) =
      q.log.messages.listAt (getMessageKey X (.commit msg)) := h.log.messages commitPrefix msg.mHash
  simp only [verifyCommit, verifySignature, getPublicKeyByPeerId, checkSequenceNumber,
    ConsensusLog.getLocalMessagesCountByHash, hmessages, h.keys, h.stable, h.faults,
    h.log.phase msg.mHash hmem, Bool.and_assoc, h.checkRequestHash_eq]

theorem step_preprepare {msg : PrePrepare} (h : SlotAgree X (msg.view, msg.number) hashes p q)
    (htaken : p.handlePreprepare X me msg = some (p', out)) :
    ∃ q' out', q.handlePreprepare X me msg = some (q', out') ∧ results out' = results out ∧
      SlotAgree X (msg.view, msg.number) hashes p' q' := by
  obtain ⟨request, hjson, ⟨haccepted, haccept⟩ | ⟨hrejected, rfl, rfl⟩⟩ := handlePreprepare_cases htaken
  · have hverify : (q.takePreprepare X msg request).verifyPreprepare X msg = some true :=
      (h.verifyPreprepare_eq msg).trans haccepted
    obtain ⟨rfl, rfl⟩ := Prod.mk.inj haccept
    have hhandled : q.handlePreprepare X me msg =
        some ((q.takePreprepare X msg request).acceptPreprepare X me msg request) := by
      simp only [handlePreprepare, hjson, hverify, bind, pure, Option.bind_some, if_true]
    refine ⟨_, _, hhandled, ?_, ?_⟩
    · have hprepare : (q.takePreprepare X msg request).signedPrepare X me msg =
          (p.takePreprepare X msg request).signedPrepare X me msg := by
        simp only [signedPrepare, takePreprepare, h.view, h.keypair]
      simp only [hprepare]
    · have hlog : LogAgree X (msg.view, msg.number) hashes (p.log.recordRequest msg.number request)
          (q.log.recordRequest msg.number request) :=
        ((h.log.recordRequest msg.number request).symm.recordRequest msg.number request).symm
      refine ⟨h.view, h.faults, h.stable, h.count, h.keypair, h.keys, hlog.record (.prePrepare msg), ?_, ?_⟩
      · intro hview
        change (p.log.recordRequest msg.number request).requests.lookup msg.number =
          (q.log.recordRequest msg.number request).requests.lookup msg.number
        rw [lookup_recordRequest_self, lookup_recordRequest_self, h.request hview]
      · intro _
        exact peerIdFromBytes_of_verifyPreprepare hverify
  · have hverify : q.verifyPreprepare X msg = some false := (h.verifyPreprepare_eq msg).trans hrejected
    refine ⟨_, _, handlePreprepare_of_rejected hjson hverify, rfl, ?_⟩
    refine ⟨h.view, h.faults, h.stable, h.count, h.keypair, h.keys, h.log, h.request, ?_⟩
    intro _
    exact peerIdFromBytes_of_verifyPreprepare hverify

theorem acceptPrepare {msg : Prepare} (h : SlotAgree X (msg.view, msg.number) hashes p q)
    (htaken : p.acceptPrepare X me msg = some (p', out)) :
    ∃ q' out', q.acceptPrepare X me msg = some (q', out') ∧ results out' = results out ∧
      SlotAgree X (msg.view, msg.number) hashes p' q' := by
  simp only [PBFTProtocol.acceptPrepare, bind, pure, Option.bind_eq_some_iff] at htaken
  obtain ⟨threshold, hthreshold, hrest⟩ := htaken
  have hlog := h.log.record (.prepare msg)
  have hcount : (q.log.recordMessageHandler X (.prepare msg)).getLocalMessagesCountByHash
      (getMessageKey X (.prepare msg)) =
        (p.log.recordMessageHandler X (.prepare msg)).getLocalMessagesCountByHash
          (getMessageKey X (.prepare msg)) :=
    congrArg List.length (hlog.messages preparePrefix msg.mHash).symm
  have hcommit : q.signedCommit X me msg = p.signedCommit X me msg := by
    simp only [signedCommit, h.view, h.keypair]
  split at hrest
  case isTrue hquorum =>
    obtain ⟨rfl, rfl⟩ := Prod.mk.inj (Option.some.inj hrest)
    refine ⟨{ q with log := (q.log.recordPrepare X msg).updateRequestPhaseState msg.mHash .prepared },
      .continueExecute [.broadcast (.message ⟨.commit (p.signedCommit X me msg)⟩)], ?_, rfl, ?_⟩
    · simp only [PBFTProtocol.acceptPrepare, ← h.faults, hthreshold, hcount, hquorum, hcommit, bind,
        pure, Option.bind_some, if_true]
      rfl
    · exact h.withLogs (hlog.mark msg.mHash .prepared) rfl rfl
  case isFalse hquorum =>
    obtain ⟨rfl, rfl⟩ := Prod.mk.inj (Option.some.inj hrest)
    refine ⟨{ q with log := q.log.recordPrepare X msg }, silent, ?_, rfl, ?_⟩
    · simp only [PBFTProtocol.acceptPrepare, ← h.faults, hthreshold, hcount, hquorum, bind, pure,
        Option.bind_some, if_false]
      rfl
    · exact h.withLogs hlog rfl rfl

theorem step_prepare {msg : Prepare} (h : SlotAgree X (msg.view, msg.number) hashes p q)
    (hmem : msg.mHash ∈ hashes) (htaken : p.handlePrepare X me msg = some (p', out)) :
    ∃ q' out', q.handlePrepare X me msg = some (q', out') ∧ results out' = results out ∧
      SlotAgree X (msg.view, msg.number) hashes p' q' := by
  obtain ⟨accepted, haccepted, hrest⟩ := Option.bind_eq_some_iff.1 htaken
  have hverify : q.verifyPrepare X msg = some accepted := (h.verifyPrepare_eq hmem).trans haccepted
  cases accepted with
  | false =>
    simp only [Bool.false_eq_true, if_false, pure, Option.some.injEq, Prod.mk.injEq] at hrest
    obtain ⟨rfl, rfl⟩ := hrest
    exact ⟨q, silent, handlePrepare_of_rejected hverify, rfl, h⟩
  | true =>
    have hhandled : q.handlePrepare X me msg = q.acceptPrepare X me msg := by
      simp only [handlePrepare, hverify, bind, Option.bind_some, if_true]
    rw [hhandled]
    exact h.acceptPrepare hrest

/-- The last Commit of a quorum completes the request in both states, for whatever primary. -/
theorem completeCommit {msg : Commit} {m : Request} (h : SlotAgree X (msg.view, msg.number) hashes p q)
    (hprimary : X.peerIdFromBytes q.state.primary ≠ none)
    (htaken : p.completeCommit X me msg m = some (p', out)) :
    ∃ q' out', q.completeCommit X me msg m = some (q', out') ∧ results out' = results out ∧
      SlotAgree X (msg.view, msg.number) hashes p' q' := by
  simp only [PBFTProtocol.completeCommit, bind, pure, Option.bind_eq_some_iff, Option.some.injEq,
    Prod.mk.injEq] at htaken
  obtain ⟨count, hcount, primary, -, rfl, rfl⟩ := htaken
  obtain ⟨primary', hprimary'⟩ := Option.ne_none_iff_exists'.1 hprimary
  have hreply : q.signedReply X me msg m = p.signedReply X me msg m := by
    simp only [signedReply, h.view, h.keypair]
  refine ⟨{ q with
      state := { q.state.updateCheckpointState X msg.mHash with currentCommitedRequestCount := count }
      log := q.log.reset },
    .complete ⟨m.cmd⟩ [.unicast primary' (.message ⟨.reply (p.signedReply X me msg m)⟩)], ?_, rfl, ?_⟩
  · simp only [PBFTProtocol.completeCommit, ← h.count, hcount, hprimary', hreply, bind, pure,
      Option.bind_some]
    rfl
  · refine ⟨h.view, h.faults, h.stable, rfl, h.keypair, h.keys, LogAgree.reset, fun _ ↦ rfl, ?_⟩
    intro hlogged
    exact absurd rfl hlogged

/-- The states agree after both have recorded the Commit. -/
theorem recordCommit {msg : Commit} (h : SlotAgree X (msg.view, msg.number) hashes p q) :
    SlotAgree X (msg.view, msg.number) hashes
      { p with log := p.log.recordMessageHandler X (.commit msg) }
      { q with log := q.log.recordMessageHandler X (.commit msg) } :=
  h.withLogs (h.log.record (.commit msg)) rfl rfl

theorem acceptCommit {msg : Commit} {m : Request} (h : SlotAgree X (msg.view, msg.number) hashes p q)
    (hprimary : X.peerIdFromBytes q.state.primary ≠ none)
    (htaken : p.acceptCommit X me msg m = some (p', out)) :
    ∃ q' out', q.acceptCommit X me msg m = some (q', out') ∧ results out' = results out ∧
      SlotAgree X (msg.view, msg.number) hashes p' q' := by
  simp only [PBFTProtocol.acceptCommit, bind, pure, Option.bind_eq_some_iff] at htaken
  obtain ⟨threshold, hthreshold, hrest⟩ := htaken
  have hrecorded := h.recordCommit
  have hcount : (q.log.recordMessageHandler X (.commit msg)).getLocalMessagesCountByHash
      (getMessageKey X (.commit msg)) =
        (p.log.recordMessageHandler X (.commit msg)).getLocalMessagesCountByHash
          (getMessageKey X (.commit msg)) :=
    congrArg List.length (hrecorded.log.messages commitPrefix msg.mHash).symm
  simp only [PBFTProtocol.acceptCommit, ← h.faults, hthreshold, hcount, bind, pure, Option.bind_some]
  split at hrest
  case isTrue hmany =>
    obtain ⟨rfl, rfl⟩ := Prod.mk.inj (Option.some.inj hrest)
    exact ⟨_, _, if_pos hmany, rfl, hrecorded⟩
  case isFalse hmany =>
    rw [if_neg hmany]
    split at hrest
    case isTrue hquorum =>
      rw [if_pos hquorum]
      exact hrecorded.completeCommit hprimary hrest
    case isFalse hquorum =>
      obtain ⟨rfl, rfl⟩ := Prod.mk.inj (Option.some.inj hrest)
      exact ⟨_, _, if_neg hquorum, rfl, hrecorded⟩

theorem step_commit {msg : Commit} (h : SlotAgree X (msg.view, msg.number) hashes p q)
    (hmem : msg.mHash ∈ hashes) (htaken : p.handleCommit X me msg = some (p', out)) :
    ∃ q' out', q.handleCommit X me msg = some (q', out') ∧ results out' = results out ∧
      SlotAgree X (msg.view, msg.number) hashes p' q' := by
  obtain ⟨accepted, haccepted, hrest⟩ := Option.bind_eq_some_iff.1 htaken
  have hverify : q.verifyCommit X msg = some accepted := (h.verifyCommit_eq hmem).trans haccepted
  cases accepted with
  | false =>
    simp only [pure, Option.some.injEq, Prod.mk.injEq] at hrest
    obtain ⟨rfl, rfl⟩ := hrest
    exact ⟨q, silent, handleCommit_of_rejected hverify, rfl, h⟩
  | true =>
    obtain ⟨-, -, hview, m, hm, -⟩ := verifyCommit_eq_true haccepted
    have hm' : q.log.requests.lookup msg.number = some m := (h.request hview).symm.trans hm
    simp only [ConsensusLog.getLocalRequestBySequenceNumber, hm] at hrest
    have hhandled : q.handleCommit X me msg = q.acceptCommit X me msg m := by
      simp only [handleCommit, hverify, ConsensusLog.getLocalRequestBySequenceNumber, hm', bind,
        Option.bind_some]
    rw [hhandled]
    apply h.acceptCommit (h.primary ?_) hrest
    rw [hm']
    exact Option.some_ne_none m

/-- The messages of the slot are answered alike, and keep the agreement. -/
theorem step_mine (h : SlotAgree X slot hashes p q) (hslot : event.slot = some slot)
    (hhashes : ∀ mHash ∈ event.votedHash, mHash ∈ hashes)
    (htaken : step X me p event = some (p', out)) :
    ∃ q' out', step X me q event = some (q', out') ∧ results out' = results out ∧
      SlotAgree X slot hashes p' q' := by
  cases event with
  | initialStart nodes => cases hslot
  | message msg =>
    cases msg with
    | prePrepare msg =>
      obtain rfl := Option.some.inj hslot
      exact h.step_preprepare htaken
    | prepare msg =>
      obtain rfl := Option.some.inj hslot
      exact h.step_prepare (hhashes msg.mHash rfl) htaken
    | commit msg =>
      obtain rfl := Option.some.inj hslot
      exact h.step_commit (hhashes msg.mHash rfl) htaken
    | _ => cases hslot

end SlotAgree

/-! ## Two slots -/

/-- The replica answers the messages of the slot alike when all other messages are removed. -/
def SlotIndependent (X : Externals) (me : Bytes) (p : PBFTProtocol) (events : List Event)
    (slot : UInt64 × UInt64) : Prop :=
  ∃ run p' alone q, exec (step X me) p events = some (run, p') ∧
    exec (step X me) p (events.filter (Event.isFor slot)) = some (alone, q) ∧
    alone.map (results ·.out) = (run.filter (·.event.isFor slot)).map (results ·.out)

/-- A message of the other slot completes no request, and prepares no hash that the slot votes on. -/
def Undisturbed (X : Externals) (slot : UInt64 × UInt64) (events : List Event)
    (t : Transition PBFTProtocol Event Answer) : Prop :=
  t.event.isFor slot = false → completesNow X t.pre t.event = false ∧
    ∀ mHash ∈ preparesNow X t.pre t.event, mHash ∉ votedHashes slot events

theorem mem_votedHashes {slot : UInt64 × UInt64} {events : List Event} {event : Event} {mHash : String}
    (hevent : event ∈ events) (hslot : event.isFor slot = true) (hhash : event.votedHash = some mHash) :
    mHash ∈ votedHashes slot events :=
  List.mem_filterMap.2 ⟨event, List.mem_filter.2 ⟨hevent, hslot⟩, hhash⟩

/-- Slots are independent in every interleaving whose messages of the other slot complete nothing and
prepare no hash that the slot votes on. A request that is logged for the slot from the start needs a
primary to complete. -/
theorem slotIndependent_of_undisturbed (hX : X.CollisionFree) {me : Bytes} {p p' : PBFTProtocol}
    {events : List Event} {run : PbftRun} {slot slot' : UInt64 × UInt64} (hne : slot ≠ slot')
    (hevents : ∀ event ∈ events, event.slot = some slot ∨ event.slot = some slot')
    (hexec : exec (step X me) p events = some (run, p'))
    (hprimary : p.log.requests.lookup slot.2 ≠ none → X.peerIdFromBytes p.state.primary ≠ none)
    (hundisturbed : ∀ t ∈ run, Undisturbed X slot events t) : SlotIndependent X me p events slot := by
  let condition := fun t : Transition PBFTProtocol Event Answer ↦
    t.event ∈ events ∧ Undisturbed X slot events t
  have hcondition : ∀ t ∈ run, condition t := by
    intro t ht
    refine ⟨?_, hundisturbed t ht⟩
    rw [← map_event_of_exec hexec]
    exact List.mem_map_of_mem ht
  have hmine : ∀ p q event p' out, SlotAgree X slot (votedHashes slot events) p q →
      event.isFor slot = true → condition ⟨p, event, out, p'⟩ → step X me p event = some (p', out) →
        ∃ q' out', step X me q event = some (q', out') ∧ results out' = results out ∧
          SlotAgree X slot (votedHashes slot events) p' q' := by
    intro p q event p' out hagree hmine hcondition htaken
    apply hagree.step_mine (of_decide_eq_true hmine) ?_ htaken
    intro mHash hhash
    exact mem_votedHashes hcondition.1 hmine hhash
  have hother : ∀ p q event p' out, SlotAgree X slot (votedHashes slot events) p q →
      event.isFor slot = false → condition ⟨p, event, out, p'⟩ → step X me p event = some (p', out) →
        SlotAgree X slot (votedHashes slot events) p' q := by
    intro p q event p' out hagree hother hcondition htaken
    have hslot : event.slot = some slot' := by
      rcases hevents event hcondition.1 with hslot | hslot'
      · exact absurd hslot (of_decide_eq_false hother)
      · exact hslot'
    obtain ⟨hcompletes, hprepares⟩ := hcondition.2 hother
    exact hagree.step_other hX hne htaken hslot hcompletes hprepares
  obtain ⟨alone, q, halone, hsame⟩ := exec_filter_of_simulation
    (SlotAgree X slot (votedHashes slot events)) (Event.isFor slot) results hmine hother
    (SlotAgree.refl hprimary) hexec hcondition
  exact ⟨run, p', alone, q, hexec, halone, hsame⟩

instance Undisturbed.decidable (X : Externals) (slot : UInt64 × UInt64) (events : List Event)
    (t : Transition PBFTProtocol Event Answer) : Decidable (Undisturbed X slot events t) :=
  inferInstanceAs (Decidable (_ → _ ∧ ∀ mHash ∈ preparesNow X t.pre t.event, _ ∉ _))

/-- There is a primary as soon as a request is logged. -/
def KnowsPrimary (X : Externals) (p : PBFTProtocol) : Prop :=
  p.log.requests = ∅ ∨ X.peerIdFromBytes p.state.primary ≠ none

theorem KnowsPrimary.step {me : Bytes} (hme : X.peerIdFromBytes me ≠ none) {p p' : PBFTProtocol}
    {event : Event} {out : Answer} (htaken : step X me p event = some (p', out))
    (h : KnowsPrimary X p) : KnowsPrimary X p' := by
  cases step_effect htaken with
  | initialStart nodes => exact .inr hme
  | request request number preprepare hnumber => exact .inr hme
  | preprepareRejected msg request =>
    obtain ⟨request', -, ⟨haccepted, -⟩ | ⟨hrejected, -⟩⟩ := handlePreprepare_cases htaken
    · exact .inr (peerIdFromBytes_of_verifyPreprepare haccepted)
    · exact .inr (peerIdFromBytes_of_verifyPreprepare hrejected)
  | preprepare msg request hjson haccepted => exact .inr (peerIdFromBytes_of_verifyPreprepare haccepted)
  | commitQuorum => exact .inl rfl
  | replyQuorum => exact .inl rfl
  | newview msg =>
    refine h.imp_left fun hempty ↦ ?_
    exact (recordPreprepares_requests msg.preprepares p.log.clearCurrentRequest).trans hempty
  | _ => exact h

/-- In every reachable state of a node with a peer id, a logged request comes with a primary. -/
theorem primary_of_logged {f : UInt64} {keypair me : Bytes} (hme : X.peerIdFromBytes me ≠ none)
    {run : PbftRun} {p : PBFTProtocol}
    (hrun : IsRun (step X me) (PBFTProtocol.new f keypair) run p) {number : UInt64}
    (hlogged : p.log.requests.lookup number ≠ none) : X.peerIdFromBytes p.state.primary ≠ none := by
  have hknown : KnowsPrimary X p := by
    apply IsRun.invariant_of_forall (KnowsPrimary X) (.inl rfl) ?_ hrun fun _ _ ↦ trivial
    intro t hbefore _ htaken
    exact hbefore.step hme htaken
  rcases hknown with hempty | hprimary
  · rw [hempty, Finmap.lookup_empty] at hlogged
    exact absurd rfl hlogged
  · exact hprimary

/-! ## Two slots of one replica -/

section TwoSlots

/-- The votes and the proposal of a peer for a request under a number, in view 0. -/
def slotPreprepare (number : UInt64) (peer : Bytes) (request : Request) : PrePrepare :=
  let preprepare := { roundPreprepare peer request with number := number }
  { preprepare with
    signature := Externals.transparent.sign peer
      (asBytes (getMessageKey .transparent (.prePrepare preprepare))) }

def slotPrepare (number : UInt64) (peer : Bytes) (request : Request) : Prepare :=
  let prepare := { roundPrepare peer request with number := number }
  { prepare with
    signature := Externals.transparent.sign peer
      (asBytes (getMessageKey .transparent (.prepare prepare))) }

def slotCommit (number : UInt64) (peer : Bytes) (request : Request) : Commit :=
  let commit := { roundCommit peer request with number := number }
  { commit with
    signature := Externals.transparent.sign peer
      (asBytes (getMessageKey .transparent (.commit commit))) }

/-- A replica that knows two peers. -/
def introducedNode : PBFTProtocol :=
  final (step .transparent [1]) (PBFTProtocol.new 1 [1])
    [.message (.publicKey ⟨[2], [2]⟩), .message (.publicKey ⟨[3], [3]⟩)]

theorem isRun_introducedNode :
    ∃ run, IsRun (step .transparent [1]) (PBFTProtocol.new 1 [1]) run introducedNode :=
  ⟨_, .of_isSome (by decide +kernel)⟩

/-- The first slot completes while the second is prepared in between. -/
def interleavedEvents : List Event :=
  [.message (.prePrepare (slotPreprepare 1 [2] ⟨"a"⟩)), .message (.prePrepare (slotPreprepare 2 [3] ⟨"b"⟩)),
    .message (.prepare (slotPrepare 2 [2] ⟨"b"⟩)), .message (.prepare (slotPrepare 1 [2] ⟨"a"⟩)),
    .message (.prepare (slotPrepare 2 [3] ⟨"b"⟩)), .message (.prepare (slotPrepare 1 [3] ⟨"a"⟩)),
    .message (.commit (slotCommit 2 [2] ⟨"b"⟩)), .message (.commit (slotCommit 1 [2] ⟨"a"⟩)),
    .message (.commit (slotCommit 1 [3] ⟨"a"⟩))]

theorem slotIndependent_of_undisturbed_interleaved :
    (∃ run, IsRun (step .transparent [1]) (PBFTProtocol.new 1 [1]) run introducedNode) ∧
      ((transitions (step .transparent [1]) introducedNode interleavedEvents).map
        fun t ↦ (results t.out).1.length) = [1, 1, 0, 0, 1, 1, 0, 0, 1] ∧
      (∀ t ∈ transitions (step .transparent [1]) introducedNode interleavedEvents,
        Undisturbed .transparent (0, 1) interleavedEvents t) ∧
      SlotIndependent .transparent [1] introducedNode interleavedEvents (0, 1) := by
  have hexec := @exec_eq_of_isSome _ _ _ (step .transparent [1]) introducedNode interleavedEvents
    (by decide +kernel)
  have hevents : ∀ event ∈ interleavedEvents, event.slot = some (0, 1) ∨ event.slot = some (0, 2) := by
    decide +kernel
  have hundisturbed : ∀ t ∈ transitions (step .transparent [1]) introducedNode interleavedEvents,
      Undisturbed .transparent (0, 1) interleavedEvents t := by decide +kernel
  obtain ⟨run, hrun⟩ := isRun_introducedNode
  have hme : Externals.transparent.peerIdFromBytes [1] ≠ none := by decide +kernel
  exact ⟨⟨run, hrun⟩, by decide +kernel, hundisturbed,
    slotIndependent_of_undisturbed Utils.Platform.collisionFree_transparent (by decide) hevents hexec
      (primary_of_logged hme hrun) hundisturbed⟩

/-- The second slot completes while the first waits for its last Prepare. -/
def interruptedEvents : List Event :=
  [.message (.prePrepare (slotPreprepare 1 [2] ⟨"a"⟩)), .message (.prepare (slotPrepare 1 [2] ⟨"a"⟩)),
    .message (.prePrepare (slotPreprepare 2 [2] ⟨"b"⟩)), .message (.prepare (slotPrepare 2 [2] ⟨"b"⟩)),
    .message (.prepare (slotPrepare 2 [3] ⟨"b"⟩)), .message (.commit (slotCommit 2 [2] ⟨"b"⟩)),
    .message (.commit (slotCommit 2 [3] ⟨"b"⟩)), .message (.prepare (slotPrepare 1 [3] ⟨"a"⟩))]

/-- The last Prepare of the first slot is rejected after the second slot has completed, and is answered
with a Commit when the messages of the second slot are removed. -/
theorem not_slotIndependent_of_interrupted :
    (∃ run, IsRun (step .transparent [1]) (PBFTProtocol.new 1 [1]) run introducedNode) ∧
      introducedNode.checkSequenceNumber 1 = some true ∧
      introducedNode.checkSequenceNumber 2 = some true ∧
      (∀ event ∈ interruptedEvents, event.slot = some (0, 1) ∨ event.slot = some (0, 2)) ∧
      (exec (step .transparent [1]) introducedNode interruptedEvents).isSome = true ∧
      ¬ SlotIndependent .transparent [1] introducedNode interruptedEvents (0, 1) := by
  refine ⟨isRun_introducedNode, by decide +kernel, by decide +kernel, by decide +kernel,
    by decide +kernel, ?_⟩
  rintro ⟨run, p', alone, q, hexec, halone, hsame⟩
  have hrun := hexec.symm.trans (exec_eq_of_isSome (by decide +kernel))
  have hfiltered := halone.symm.trans (exec_eq_of_isSome (by decide +kernel))
  obtain ⟨rfl, -⟩ := Prod.mk.inj (Option.some.inj hrun)
  obtain ⟨rfl, -⟩ := Prod.mk.inj (Option.some.inj hfiltered)
  have hlengths := congrArg (List.map fun result ↦ result.1.length) hsame
  rw [List.map_map, List.map_map] at hlengths
  revert hlengths
  decide +kernel

end TwoSlots

end BFTDiagnosis.Pbft
