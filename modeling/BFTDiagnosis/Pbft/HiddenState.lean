import BFTDiagnosis.Components.Calls
import BFTDiagnosis.Lib.Answers
import BFTDiagnosis.Pbft.Robustness

/-!
# What a PBFT node shows of its state

`PBFTProtocol` does not implement `protocol_reset`: the one of the trait does nothing, so what a node has
learned during a test item stays. Some of it shows in the answers to later calls and some does not. An
`Untouched` protocol is one in which nothing is left that shows.

What does not show is the digest of the stable checkpoint, CheckPoints for number 0 as long as no other
checkpoint is stable, and PrePrepares that a NewView has put into the log. `Alike` relates protocols that
differ in nothing else, and every call preserves it.

No handler of `PBFTProtocol` starts a view timer, and its `init_timeout_notify` does nothing.
-/

namespace BFTDiagnosis.Pbft

open Components Word PBFTProtocol

variable {X : Externals}

/-! ## Calls -/

namespace PBFTProtocol

def checkTakenRequest (p : PBFTProtocol) (request : Bytes) : Bool := decide (request ∈ p.takenRequests)

def isLeader (p : PBFTProtocol) (peerId : Bytes) : Bool := p.state.primary == peerId

/-- `ProtocolBehaviour::protocol_reset`, which PBFT inherits. -/
def protocolReset (p : PBFTProtocol) : PBFTProtocol := p

end PBFTProtocol

/-- The calls of the actuator on the protocol of the node `me`. The view timeout is left to the trait. -/
def call (X : Externals) (me : Bytes) (p : PBFTProtocol) :
    Call MessageType (Finset PeerId) → Option (PBFTProtocol × Response Payload)
  | .consensusProtocolMessageHandler msg =>
    (p.consensusProtocolMessageHandler X me msg).map (Prod.map id Response.phaseState)
  | .viewTimeoutHandler => some (p, .emptyBroadcast)
  | .checkTakenRequest request => some (p, .decision (p.checkTakenRequest request))
  | .isLeader peerId => some (p, .decision (p.isLeader peerId))
  | .extraInitialStart nodes => some (Prod.map id Response.phaseState (p.extraInitialStart X nodes me))

/-- A call takes a step of the protocol, or leaves it as it is. -/
theorem call_step {me : Bytes} {p p' : PBFTProtocol} {c : Call MessageType (Finset PeerId)}
    {response : Response Payload} (h : call X me p c = some (p', response)) :
    p' = p ∨ ∃ event out, step X me p event = some (p', out) := by
  cases c with
  | consensusProtocolMessageHandler msg =>
    obtain ⟨⟨p'', out⟩, htaken, heq⟩ := Option.map_eq_some_iff.1 h
    obtain ⟨rfl, -⟩ := Prod.mk.inj heq
    exact .inr ⟨.message msg, out, htaken⟩
  | extraInitialStart nodes =>
    obtain ⟨rfl, -⟩ := Prod.mk.inj (Option.some.inj h)
    exact .inr ⟨.initialStart nodes, _, rfl⟩
  | _ => exact .inl (Prod.mk.inj (Option.some.inj h)).1.symm

/-- Nothing that a node has learned shows: it has taken no request, knows no primary and no key, is in view 0,
has a stable checkpoint of number 0, no ViewChange, and no CheckPoint but for number 0. -/
structure Untouched (p : PBFTProtocol) : Prop where
  taken : p.takenRequests = ∅
  primary : p.state.primary = []
  view : p.state.view = 0
  keys : p.consensusNodePk = ∅
  stable : p.state.stableCheckpoint.1 = 0
  viewchanges : p.log.viewchanges = ∅
  checkpoints : ∀ number digest, number ≠ 0 → p.log.checkpoints.listAt (number, digest) = []

/-! ## Reachable states -/

/-- The keys under which the log counts votes. -/
def IsVoteKey (X : Externals) (key : String) : Prop :=
  (∃ msg, key = getMessageKey X (.prepare msg)) ∨ ∃ msg, key = getMessageKey X (.commit msg)

theorem preprepare_key_ne_voteKey (hX : X.CollisionFree) {key : String} (h : IsVoteKey X key)
    (msg : PrePrepare) : key ≠ getMessageKey X (.prePrepare msg) := by
  rintro rfl
  rcases h with ⟨prepare, hkey⟩ | ⟨commit, hkey⟩
  · exact preprepare_key_ne_prepare hX msg prepare hkey
  · exact preprepare_key_ne_commit hX msg commit hkey

/-- Recording PrePrepares touches no vote. -/
theorem listAt_recordPreprepares (hX : X.CollisionFree) {key : String} (hkey : IsVoteKey X key)
    (preprepares : List PrePrepare) (log : ConsensusLog) :
    (preprepares.foldl (fun log preprepare ↦ log.recordMessageHandler X (.prePrepare preprepare)) log).messages.listAt
      key = log.messages.listAt key := by
  induction preprepares generalizing log with
  | nil => rfl
  | cons preprepare rest ih =>
    have hne := preprepare_key_ne_voteKey hX hkey preprepare
    exact (ih _).trans (HashMap.listAt_pushAt_of_ne log.messages (.prePrepare preprepare) hne)

/-- The rest of a protocol that knows no key and has taken no request: nothing but PrePrepares is logged, and
the state is the initial one where the first call of the node as a leader has not changed it. -/
structure Quiet (X : Externals) (p : PBFTProtocol) : Prop where
  requests : p.log.requests = ∅
  votes : ∀ key, IsVoteKey X key → p.log.messages.listAt key = []
  replies : p.log.replyMessages = ∅
  phases : p.log.requestPhaseState = ∅
  commited : p.state.currentCommitedRequestCount = 0
  checkpointState : p.state.checkpointState = (State.new 1).checkpointState
  nodeCount : p.state.primary = [] → p.state.nodeCount = (State.new 1).nodeCount

/-- What holds of every state that a new protocol with this key pair reaches. -/
structure Reached (X : Externals) (keypair : Bytes) (p : PBFTProtocol) : Prop where
  operational : Operational X p
  keypair : p.keypair = keypair
  faults : p.state.faultToleranceCount = 1
  validKeys : ∀ peer pk, p.consensusNodePk.lookup peer = some pk → X.peerIdValid peer = true
  pending : ∀ view messages, p.log.viewchanges.lookup view = some messages → view ≠ 0 ∧ messages ≠ []
  quiet : p.takenRequests = ∅ → p.consensusNodePk = ∅ → Quiet X p

section Step

variable {me : Bytes} {p p' : PBFTProtocol} {event : Event} {out : Answer}

theorem step_keypair (h : step X me p event = some (p', out)) : p'.keypair = p.keypair := by
  cases step_effect h <;> rfl

/-- A stored key is of a peer whose id can be parsed. -/
theorem step_validKeys (h : step X me p event = some (p', out))
    (hvalid : ∀ peer pk, p.consensusNodePk.lookup peer = some pk → X.peerIdValid peer = true) :
    ∀ peer pk, p'.consensusNodePk.lookup peer = some pk → X.peerIdValid peer = true := by
  cases step_effect h with
  | publicKey key =>
    intro peer pk hlookup
    have hsender : X.peerIdValid key.fromPeerId = true :=
      storagePublicKeyByPeerId_isSome.1 (Option.isSome_iff_exists.2 ⟨_, h⟩)
    by_cases hpeer : peer = key.fromPeerId
    · rw [hpeer, hsender]
    · simp only at hlookup
      split at hlookup
      case isTrue => exact hvalid peer pk hlookup
      case isFalse =>
        rw [Finmap.lookup_insert_of_ne _ hpeer] at hlookup
        exact hvalid peer pk hlookup
  | rejected => exact hvalid
  | _ => exact hvalid

/-- A ViewChange is only recorded for a later view than the current one. -/
theorem handleViewchange_recorded {msg : ViewChange MessageType} (h : p.handleViewchange X me msg = some (p', out)) :
    p' = p ∨ (msg.newView ≠ 0 ∧ p' = { p with log := p.log.recordViewchange msg }) := by
  by_cases hold : msg.newView ≤ p.state.view
  · rw [handleViewchange, if_pos hold] at h
    exact .inl (Prod.mk.inj (Option.some.inj h)).1.symm
  · refine (handleViewchange_cases h).imp And.left fun hrecorded ↦ ⟨?_, hrecorded.1⟩
    rintro hzero
    rw [hzero] at hold
    exact hold (UInt64.le_iff_toNat_le.2 (Nat.zero_le _))

/-- Recorded ViewChanges are for later views, and there is no entry without one. -/
theorem step_pending (h : step X me p event = some (p', out))
    (hpending : ∀ view messages, p.log.viewchanges.lookup view = some messages → view ≠ 0 ∧ messages ≠ []) :
    ∀ view messages, p'.log.viewchanges.lookup view = some messages → view ≠ 0 ∧ messages ≠ [] := by
  have hrecord (msg : ViewChange MessageType) (hnewView : msg.newView ≠ 0) (view : UInt64)
      (messages : List (ViewChange MessageType))
      (hlookup : (p.log.recordViewchange msg).viewchanges.lookup view = some messages) :
      view ≠ 0 ∧ messages ≠ [] := by
    rw [ConsensusLog.recordViewchange, HashMap.pushAt_eq_insert] at hlookup
    by_cases hview : view = msg.newView
    · rw [hview, Finmap.lookup_insert] at hlookup
      rw [← Option.some.inj hlookup, hview]
      exact ⟨hnewView, by simp⟩
    · rw [Finmap.lookup_insert_of_ne _ hview] at hlookup
      exact hpending view messages hlookup
  have hviewchange (msg : ViewChange MessageType) (hevent : event = .message (.viewChange msg)) :
      ∀ view messages, p'.log.viewchanges.lookup view = some messages → view ≠ 0 ∧ messages ≠ [] := by
    subst hevent
    obtain rfl | ⟨hnewView, rfl⟩ := handleViewchange_recorded h
    · exact hpending
    · exact hrecord msg hnewView
  cases step_effect h with
  | request request number preprepare hnumber =>
    obtain ⟨requests, hframe⟩ := recordRequest_frame p.log number request
    rw [hframe]
    exact hpending
  | preprepare msg request hjson haccepted =>
    obtain ⟨requests, hframe⟩ := recordRequest_frame p.log msg.number request
    rw [hframe]
    exact hpending
  | viewchange msg => exact hviewchange msg rfl
  | viewchangeWeak msg viewchange => exact hviewchange msg rfl
  | viewchangeQuorum msg newview => exact hviewchange msg rfl
  | newview msg =>
    obtain ⟨messages, hframe⟩ := @recordPreprepares_frame X msg.preprepares p.log.clearCurrentRequest
    rw [handleNewview, hframe]
    exact hpending
  | commitQuorum =>
    intro view messages hlookup
    cases hlookup
  | replyQuorum =>
    intro view messages hlookup
    cases hlookup
  | _ => exact hpending

/-- A protocol that knows no key accepts no signed message. -/
theorem not_validlySigned_of_empty {msg : MessageType} (h : p.consensusNodePk = ∅) : ¬ ValidlySigned X p msg := by
  rintro ⟨pk, hlookup, -⟩
  rw [h, Finmap.lookup_empty] at hlookup
  cases hlookup

/-- As long as a node knows no key and takes no request, the rest of it stays quiet. -/
theorem step_quiet (hX : X.CollisionFree) (hme : me ≠ []) (h : step X me p event = some (p', out))
    (hidle : p.log.Idle) (hquiet : p.takenRequests = ∅ → p.consensusNodePk = ∅ → Quiet X p) :
    p'.takenRequests = ∅ → p'.consensusNodePk = ∅ → Quiet X p' := by
  intro htaken hkeys
  have hunsigned {msg : MessageType} (hsame : p.consensusNodePk = ∅) : ¬ ValidlySigned X p msg :=
    not_validlySigned_of_empty hsame
  cases step_effect h with
  | request request number preprepare hnumber => exact absurd htaken (Finset.insert_ne_empty _ _)
  | preprepareRejected msg request => exact absurd htaken (Finset.insert_ne_empty _ _)
  | preprepare msg request hjson haccepted => exact absurd htaken (Finset.insert_ne_empty _ _)
  | prepare msg haccepted => exact absurd (verifyPrepare_eq_true haccepted).1 (hunsigned hkeys)
  | prepareQuorum msg haccepted => exact absurd (verifyPrepare_eq_true haccepted).1 (hunsigned hkeys)
  | commit msg haccepted => exact absurd (verifyCommit_eq_true haccepted).1 (hunsigned hkeys)
  | commitQuorum msg m primary count haccepted => exact absurd (verifyCommit_eq_true haccepted).1 (hunsigned hkeys)
  | reply msg haccepted => exact absurd (verifyReply_eq_true haccepted) (hunsigned hkeys)
  | replyQuorum msg haccepted => exact absurd (verifyReply_eq_true haccepted) (hunsigned hkeys)
  | publicKey key =>
    simp only at hkeys
    split at hkeys
    case isTrue hmem =>
      rw [hkeys] at hmem
      exact absurd hmem (Finmap.notMem_empty)
    case isFalse =>
      have hlookup : (p.consensusNodePk.insert key.fromPeerId key.pk).lookup key.fromPeerId = some key.pk :=
        Finmap.lookup_insert _
      rw [hkeys] at hlookup
      cases hlookup
  | initialStart nodes =>
    have hbefore := hquiet htaken hkeys
    exact { hbefore with nodeCount := fun hprimary ↦ absurd hprimary hme }
  | checkpointStable msg =>
    have hbefore := hquiet htaken hkeys
    have hdiscard (key : String) := @ConsensusLog.Idle.listAt_discard X (p.log.recordCheckpoint msg)
      ⟨hidle.requestMap, hidle.currentRequests⟩ msg.currentMaxNumber key
    exact { hbefore with votes := fun key hkey ↦ (hdiscard key).trans (hbefore.votes key hkey) }
  | newview msg =>
    have hbefore := hquiet htaken hkeys
    obtain ⟨messages, hframe⟩ := @recordPreprepares_frame X msg.preprepares p.log.clearCurrentRequest
    have hvotes (key : String) (hkey : IsVoteKey X key) :=
      listAt_recordPreprepares hX hkey msg.preprepares p.log.clearCurrentRequest
    rw [hframe] at hvotes
    rw [handleNewview, hframe]
    exact { hbefore with votes := fun key hkey ↦ (hvotes key hkey).trans (hbefore.votes key hkey) }
  | _ =>
    have hbefore := hquiet htaken hkeys
    exact { hbefore with }

theorem Reached.start (keypair : Bytes) : Reached X keypair (PBFTProtocol.new 1 keypair) where
  operational := .start (by decide)
  keypair := rfl
  faults := rfl
  validKeys peer pk hlookup := by cases hlookup
  pending view messages hlookup := by cases hlookup
  quiet _ _ :=
    { requests := rfl
      votes := fun _ _ ↦ HashMap.listAt_empty _
      replies := rfl
      phases := rfl
      commited := rfl
      checkpointState := rfl
      nodeCount := fun _ ↦ rfl }

theorem Reached.step {keypair : Bytes} (hX : X.CollisionFree) (hme : me ≠ []) (hvalid : X.peerIdFromBytes me ≠ none)
    (htaken : step X me p event = some (p', out)) (h : Reached X keypair p) : Reached X keypair p' where
  operational := h.operational.step hvalid htaken
  keypair := (step_keypair htaken).trans h.keypair
  faults := (step_faultToleranceCount htaken).trans h.faults
  validKeys := step_validKeys htaken h.validKeys
  pending := step_pending htaken h.pending
  quiet := step_quiet hX hme htaken h.operational.idle h.quiet

end Step

theorem reached_of_run {keypair me : Bytes} (hX : X.CollisionFree) (hme : me ≠ [])
    (hvalid : X.peerIdFromBytes me ≠ none)
    {run : List (Transition PBFTProtocol (Call MessageType (Finset PeerId)) (Response Payload))}
    {p : PBFTProtocol} (hrun : IsRun (call X me) (PBFTProtocol.new 1 keypair) run p) : Reached X keypair p := by
  apply IsRun.invariant_of_forall (Reached X keypair) (.start keypair) ?_ hrun fun _ _ ↦ trivial
  intro t hbefore _ htaken
  rcases call_step htaken with hsame | ⟨event, out, hstep⟩
  · rwa [hsame]
  · exact hbefore.step hX hme hvalid hstep

/-! ## What does not show -/

/-- The log with other messages and CheckPoints. -/
def ConsensusLog.hide (log : ConsensusLog) (messages : HashMap String (List MessageType))
    (checkpoints : HashMap (UInt64 × String) (List CheckPoint)) : ConsensusLog :=
  { log with messages := messages, checkpoints := checkpoints }

def PBFTProtocol.hide (p : PBFTProtocol) (digest : String) (messages : HashMap String (List MessageType))
    (checkpoints : HashMap (UInt64 × String) (List CheckPoint)) : PBFTProtocol :=
  { p with
    state := { p.state with stableCheckpoint := (p.state.stableCheckpoint.1, digest) }
    log := p.log.hide messages checkpoints }

/-- The messages have the same votes as those of the log, and the CheckPoints are the same but for those of
number 0, which need not be as long as the stable number is 0. -/
structure Hides (X : Externals) (stable : UInt64) (log : ConsensusLog)
    (messages : HashMap String (List MessageType)) (checkpoints : HashMap (UInt64 × String) (List CheckPoint)) :
    Prop where
  idle : log.Idle
  votes : ∀ key, IsVoteKey X key → messages.listAt key = log.messages.listAt key
  checkpoints : ∀ key : UInt64 × String, key.1 ≠ 0 ∨ stable ≠ 0 → checkpoints.listAt key = log.checkpoints.listAt key

/-- The second protocol is the first one up to what does not show. -/
def Alike (X : Externals) (p q : PBFTProtocol) : Prop :=
  ∃ digest messages checkpoints, Hides X p.state.stableCheckpoint.1 p.log messages checkpoints ∧
    q = p.hide digest messages checkpoints

theorem hide_recordRequest (log : ConsensusLog) (messages : HashMap String (List MessageType))
    (checkpoints : HashMap (UInt64 × String) (List CheckPoint)) (number : UInt64) (request : Request) :
    (log.hide messages checkpoints).recordRequest number request =
      (log.recordRequest number request).hide messages checkpoints := by
  unfold ConsensusLog.recordRequest ConsensusLog.hide
  split <;> rfl

section Hides

variable {stable : UInt64} {log : ConsensusLog} {messages : HashMap String (List MessageType)}
  {checkpoints : HashMap (UInt64 × String) (List CheckPoint)}

theorem Hides.recordRequest (h : Hides X stable log messages checkpoints) (number : UInt64) (request : Request) :
    Hides X stable (log.recordRequest number request) messages checkpoints := by
  obtain ⟨requests, hframe⟩ := recordRequest_frame log number request
  rw [hframe]
  exact ⟨⟨h.idle.requestMap, h.idle.currentRequests⟩, h.votes, h.checkpoints⟩

theorem Hides.recordPhaseMessage (h : Hides X stable log messages checkpoints) (msg : MessageType) :
    Hides X stable (log.recordPhaseMessage X msg) (messages.pushAt (getMessageKey X msg) msg) checkpoints where
  idle := ⟨h.idle.requestMap, h.idle.currentRequests⟩
  votes key hkey := HashMap.listAt_pushAt_congr (h.votes key hkey) _ msg
  checkpoints := h.checkpoints

theorem Hides.recordPreprepares (h : Hides X stable log messages checkpoints) (preprepares : List PrePrepare) :
    ∃ messages', Hides X stable
        (preprepares.foldl (fun log preprepare ↦ log.recordMessageHandler X (.prePrepare preprepare)) log)
        messages' checkpoints ∧
      preprepares.foldl (fun log preprepare ↦ log.recordMessageHandler X (.prePrepare preprepare))
          (log.hide messages checkpoints) =
        (preprepares.foldl (fun log preprepare ↦ log.recordMessageHandler X (.prePrepare preprepare)) log).hide
          messages' checkpoints := by
  induction preprepares generalizing log messages with
  | nil => exact ⟨messages, h, rfl⟩
  | cons preprepare rest ih => exact ih (h.recordPhaseMessage (.prePrepare preprepare))

/-- A stable checkpoint of number `stable'` leaves a difference only at number 0, and only if it is 0 itself. -/
theorem Hides.discard {stable' : UInt64} (h : Hides X stable log messages checkpoints) :
    Hides X stable' (log.discardMessagesBeforeStableCheckpoint X stable')
      ((log.hide messages checkpoints).discardMessagesBeforeStableCheckpoint X stable').messages
      ((log.hide messages checkpoints).discardMessagesBeforeStableCheckpoint X stable').checkpoints where
  idle := ⟨h.idle.requestMap, h.idle.currentRequests⟩
  votes key hkey := by
    have hother : (log.hide messages checkpoints).Idle := ⟨h.idle.requestMap, h.idle.currentRequests⟩
    rw [hother.listAt_discard, h.idle.listAt_discard]
    exact h.votes key hkey
  checkpoints key hkey := by
    simp only [ConsensusLog.discardMessagesBeforeStableCheckpoint, ConsensusLog.hide, HashMap.listAt,
      HashMap.lookup_retain _ fun key : UInt64 × String ↦ !decide (key.1 < stable')]
    by_cases hbelow : key.1 < stable'
    · simp [hbelow]
    · have hnumber : key.1 ≠ 0 := by
        rcases hkey with hnumber | hstable
        · exact hnumber
        · intro hzero
          rw [hzero, UInt64.lt_iff_toNat_lt] at hbelow
          exact hstable (UInt64.toNat_inj.1 (Nat.le_zero.1 (Nat.le_of_not_lt hbelow)))
      simp only [hbelow, decide_false, Bool.not_false, if_true]
      exact h.checkpoints key (.inl hnumber)

end Hides

section Handlers

variable {me : Bytes} {p : PBFTProtocol} {digest : String} {messages : HashMap String (List MessageType)}
  {checkpoints : HashMap (UInt64 × String) (List CheckPoint)}

theorem Hides.alike (h : Hides X p.state.stableCheckpoint.1 p.log messages checkpoints) :
    Alike X p (p.hide digest messages checkpoints) :=
  ⟨digest, messages, checkpoints, h, rfl⟩

variable (h : Hides X p.state.stableCheckpoint.1 p.log messages checkpoints)
include h

theorem alike_handleRequest (request : Request) :
    AnsweredAlike (Alike X) (p.handleRequest X me request)
      ((p.hide digest messages checkpoints).handleRequest X me request) := by
  apply AnsweredAlike.bind
  intro number
  refine ⟨⟨digest, messages, checkpoints, h.recordRequest number request, ?_⟩, rfl⟩
  have hrecord := hide_recordRequest p.log messages checkpoints number request
  simp only [hide, hrecord]

theorem alike_handlePreprepare (msg : PrePrepare) :
    AnsweredAlike (Alike X) (p.handlePreprepare X me msg)
      ((p.hide digest messages checkpoints).handlePreprepare X me msg) := by
  apply AnsweredAlike.bind
  intro request
  apply AnsweredAlike.bind
  intro accepted
  cases accepted with
  | false => exact ⟨⟨digest, messages, checkpoints, h, rfl⟩, rfl⟩
  | true =>
    have hrecord := hide_recordRequest p.log messages checkpoints msg.number request
    have hrecorded := (h.recordRequest msg.number request).recordPhaseMessage (.prePrepare msg)
    refine ⟨⟨digest, _, checkpoints, hrecorded, ?_⟩, rfl⟩
    simp only [takePreprepare, hide, hrecord]
    rfl

theorem alike_handlePrepare (msg : Prepare) :
    AnsweredAlike (Alike X) (p.handlePrepare X me msg)
      ((p.hide digest messages checkpoints).handlePrepare X me msg) := by
  apply AnsweredAlike.bind
  intro accepted
  cases accepted with
  | false => exact ⟨h.alike, rfl⟩
  | true =>
    have hrecorded := h.recordPhaseMessage (.prepare msg)
    have hcount : ((p.hide digest messages checkpoints).log.recordMessageHandler X
        (.prepare msg)).getLocalMessagesCountByHash (getMessageKey X (.prepare msg)) =
        (p.log.recordMessageHandler X (.prepare msg)).getLocalMessagesCountByHash (getMessageKey X (.prepare msg)) :=
      congrArg List.length (hrecorded.votes _ (.inl ⟨msg, rfl⟩))
    simp only [if_true, acceptPrepare, hcount]
    apply AnsweredAlike.bind
    intro threshold
    split
    case isTrue =>
      refine ⟨⟨digest, _, checkpoints, ⟨⟨hrecorded.idle.requestMap, hrecorded.idle.currentRequests⟩,
        hrecorded.votes, hrecorded.checkpoints⟩, rfl⟩, rfl⟩
    case isFalse => exact ⟨⟨digest, _, checkpoints, hrecorded, rfl⟩, rfl⟩

omit h in
/-- A log that is reset has nothing left to hide. -/
theorem alike_completeCommit (msg : Commit) (m : Request) {log : ConsensusLog}
    {messages' : HashMap String (List MessageType)} :
    AnsweredAlike (Alike X) ({ p with log := log }.completeCommit X me msg m)
      (({ p with log := log }.hide digest messages' checkpoints).completeCommit X me msg m) := by
  apply AnsweredAlike.bind
  intro count
  apply AnsweredAlike.bind
  intro primary
  exact ⟨⟨digest, ∅, ∅, ⟨⟨rfl, rfl⟩, fun _ _ ↦ rfl, fun _ _ ↦ rfl⟩, rfl⟩, rfl⟩

theorem alike_handleCommit (msg : Commit) :
    AnsweredAlike (Alike X) (p.handleCommit X me msg)
      ((p.hide digest messages checkpoints).handleCommit X me msg) := by
  have hbefore : (p.hide digest messages checkpoints).log.getLocalMessagesCountByHash (getMessageKey X (.commit msg)) =
      p.log.getLocalMessagesCountByHash (getMessageKey X (.commit msg)) :=
    congrArg List.length (h.votes _ (.inr ⟨msg, rfl⟩))
  have hverify : (p.hide digest messages checkpoints).verifyCommit X msg = p.verifyCommit X msg := by
    simp only [verifyCommit, hbefore]
    rfl
  have hrecorded := h.recordPhaseMessage (.commit msg)
  have hcount : ((p.hide digest messages checkpoints).log.recordMessageHandler X
      (.commit msg)).getLocalMessagesCountByHash (getMessageKey X (.commit msg)) =
      (p.log.recordMessageHandler X (.commit msg)).getLocalMessagesCountByHash (getMessageKey X (.commit msg)) :=
    congrArg List.length (hrecorded.votes _ (.inr ⟨msg, rfl⟩))
  simp only [handleCommit, hverify]
  apply AnsweredAlike.bind
  intro accepted
  have hrequest : (p.hide digest messages checkpoints).log.getLocalRequestBySequenceNumber msg.number =
      p.log.getLocalRequestBySequenceNumber msg.number := rfl
  rw [hrequest]
  split
  case h_1 m _ =>
    simp only [acceptCommit, hcount]
    apply AnsweredAlike.bind
    intro threshold
    split
    case isTrue => exact ⟨⟨digest, _, checkpoints, hrecorded, rfl⟩, rfl⟩
    case isFalse =>
      split
      case isTrue => exact alike_completeCommit msg m
      case isFalse => exact ⟨⟨digest, _, checkpoints, hrecorded, rfl⟩, rfl⟩
  case h_2 => exact ⟨h.alike, rfl⟩

theorem alike_handleReply (msg : Reply) :
    AnsweredAlike (Alike X) (p.handleReply X msg) ((p.hide digest messages checkpoints).handleReply X msg) := by
  apply AnsweredAlike.bind
  intro accepted
  cases accepted with
  | false => exact ⟨h.alike, rfl⟩
  | true =>
    apply AnsweredAlike.bind
    intro difference
    apply AnsweredAlike.bind
    intro threshold
    have hcount : ((p.hide digest messages checkpoints).log.recordMessageHandler X
        (.reply msg)).getLocalReplyMessagesCountByHash (getMessageKey X (.reply msg)) =
        (p.log.recordMessageHandler X (.reply msg)).getLocalReplyMessagesCountByHash (getMessageKey X (.reply msg)) :=
      rfl
    rw [hcount]
    split
    case isTrue =>
      split
      case isTrue => exact ⟨⟨digest, ∅, ∅, ⟨⟨rfl, rfl⟩, fun _ _ ↦ rfl, fun _ _ ↦ rfl⟩, rfl⟩, rfl⟩
      case isFalse => trivial
    case isFalse =>
      exact ⟨⟨digest, messages, checkpoints, ⟨⟨h.idle.requestMap, h.idle.currentRequests⟩, h.votes,
        h.checkpoints⟩, rfl⟩, rfl⟩

/-- The proof of a ViewChange is empty, whatever messages are logged. -/
theorem broadcastViewchange_hide :
    (p.hide digest messages checkpoints).broadcastViewchange X me = p.broadcastViewchange X me := by
  have hidle : (p.hide digest messages checkpoints).log.Idle := ⟨h.idle.requestMap, h.idle.currentRequests⟩
  simp only [broadcastViewchange, hidle.getProofMessages, h.idle.getProofMessages]
  rfl

/-- What follows when a ViewChange has been recorded. -/
theorem alike_recordedViewchange (newView : UInt64) :
    let answerOf (p : PBFTProtocol) : Option (PBFTProtocol × Answer) :=
      if p.state.faultToleranceCount.toNat < p.log.getViewchangeMessagesCountByView newView then
        (p.broadcastViewchange X me).bind fun out ↦ some (p, out)
      else
        (p.newviewQuorum (p.log.getViewchangeMessagesCountByView newView)).bind fun quorum ↦
          if quorum = true then (p.broadcastNewview newView).bind fun out ↦ some (p, out) else some (p, silent)
    AnsweredAlike (Alike X) (answerOf p) (answerOf (p.hide digest messages checkpoints)) := by
  intro answerOf
  by_cases hweak : p.state.faultToleranceCount.toNat < p.log.getViewchangeMessagesCountByView newView
  · have hweak' : (p.hide digest messages checkpoints).state.faultToleranceCount.toNat <
      (p.hide digest messages checkpoints).log.getViewchangeMessagesCountByView newView := hweak
    simp only [answerOf, if_pos hweak, if_pos hweak', broadcastViewchange_hide h]
    exact .bind fun out ↦ ⟨h.alike, rfl⟩
  · have hweak' : ¬ (p.hide digest messages checkpoints).state.faultToleranceCount.toNat <
      (p.hide digest messages checkpoints).log.getViewchangeMessagesCountByView newView := hweak
    simp only [answerOf, if_neg hweak, if_neg hweak']
    apply AnsweredAlike.bind
    intro quorum
    cases quorum with
    | true => exact .bind fun out ↦ ⟨h.alike, rfl⟩
    | false => exact ⟨h.alike, rfl⟩

theorem alike_handleViewchange (msg : ViewChange MessageType) :
    AnsweredAlike (Alike X) (p.handleViewchange X me msg)
      ((p.hide digest messages checkpoints).handleViewchange X me msg) := by
  by_cases hold : msg.newView ≤ p.state.view
  · have hold' : msg.newView ≤ (p.hide digest messages checkpoints).state.view := hold
    rw [handleViewchange, handleViewchange, if_pos hold, if_pos hold']
    exact ⟨h.alike, rfl⟩
  · have hold' : ¬ msg.newView ≤ (p.hide digest messages checkpoints).state.view := hold
    have hrecorded : Hides X p.state.stableCheckpoint.1 (p.log.recordViewchange msg) messages checkpoints :=
      ⟨⟨h.idle.requestMap, h.idle.currentRequests⟩, h.votes, h.checkpoints⟩
    rw [handleViewchange, handleViewchange, if_neg hold, if_neg hold']
    exact @alike_recordedViewchange X me { p with log := p.log.recordViewchange msg } digest messages checkpoints
      hrecorded msg.newView

theorem alike_handleNewview (msg : NewView MessageType) :
    AnsweredAlike (Alike X) (some (p.handleNewview X me msg))
      (some ((p.hide digest messages checkpoints).handleNewview X me msg)) := by
  have hcleared : Hides X p.state.stableCheckpoint.1 p.log.clearCurrentRequest messages checkpoints :=
    ⟨⟨h.idle.requestMap, rfl⟩, h.votes, h.checkpoints⟩
  obtain ⟨messages', hhides, hfold⟩ := hcleared.recordPreprepares msg.preprepares
  refine ⟨⟨digest, messages', checkpoints, hhides, ?_⟩, rfl⟩
  have hclear : (p.hide digest messages checkpoints).log.clearCurrentRequest =
      p.log.clearCurrentRequest.hide messages checkpoints := rfl
  simp only [hclear, hfold]
  rfl

omit h in
/-- A CheckPoint for number 0 while the stable number is 0 only moves what does not show. -/
theorem handleCheckpoint_zero {msg : CheckPoint} (hidle : p.log.Idle) (hnumber : msg.currentMaxNumber = 0)
    (hstable : p.state.stableCheckpoint.1 = 0) {threshold : UInt64}
    (hthreshold : checkedMul 2 p.state.faultToleranceCount = some threshold) :
    ∃ digest messages checkpoints,
      p.handleCheckpoint X msg = some (p.hide digest messages checkpoints, silent) ∧
      (∀ key, messages.listAt key = p.log.messages.listAt key) ∧
      ∀ key : UInt64 × String, key.1 ≠ 0 → checkpoints.listAt key = p.log.checkpoints.listAt key := by
  have hother (key : UInt64 × String) (hkey : key.1 ≠ 0) :
      (p.log.recordCheckpoint msg).checkpoints.listAt key = p.log.checkpoints.listAt key := by
    refine HashMap.listAt_pushAt_of_ne _ _ fun heq ↦ hkey ?_
    rw [heq, hnumber]
  simp only [handleCheckpoint, hthreshold, bind, pure, Option.bind_some]
  split
  case isTrue =>
    refine ⟨msg.checkpointStateDigest,
      ((p.log.recordCheckpoint msg).discardMessagesBeforeStableCheckpoint X msg.currentMaxNumber).messages,
      ((p.log.recordCheckpoint msg).discardMessagesBeforeStableCheckpoint X msg.currentMaxNumber).checkpoints,
      ?_, ?_, ?_⟩
    · simp only [hide, hstable, hnumber]
      rfl
    · exact fun key ↦ ConsensusLog.Idle.listAt_discard ⟨hidle.requestMap, hidle.currentRequests⟩ _ key
    · intro key hkey
      have hkeep : (!decide (key.1 < msg.currentMaxNumber)) = true := by
        rw [hnumber]
        simp [UInt64.lt_iff_toNat_lt]
      rw [← hother key hkey]
      simp only [ConsensusLog.discardMessagesBeforeStableCheckpoint, HashMap.listAt,
        HashMap.lookup_retain _ fun key : UInt64 × String ↦ !decide (key.1 < msg.currentMaxNumber), hkeep, if_true]
  case isFalse =>
    exact ⟨p.state.stableCheckpoint.2, p.log.messages, (p.log.recordCheckpoint msg).checkpoints, rfl, fun _ ↦ rfl,
      hother⟩

theorem alike_handleCheckpoint_zero {msg : CheckPoint} (hnumber : msg.currentMaxNumber = 0)
    (hstable : p.state.stableCheckpoint.1 = 0) :
    AnsweredAlike (Alike X) (p.handleCheckpoint X msg)
      ((p.hide digest messages checkpoints).handleCheckpoint X msg) := by
  cases hthreshold : checkedMul 2 p.state.faultToleranceCount with
  | none =>
    have hthreshold' : checkedMul 2 (p.hide digest messages checkpoints).state.faultToleranceCount = none := hthreshold
    simp only [handleCheckpoint, hthreshold, hthreshold', bind, Option.bind_none]
    trivial
  | some threshold =>
    have hidle : (p.hide digest messages checkpoints).log.Idle := ⟨h.idle.requestMap, h.idle.currentRequests⟩
    obtain ⟨digest₁, messages₁, checkpoints₁, hresult₁, hmessages₁, hcheckpoints₁⟩ :=
      @handleCheckpoint_zero X p msg h.idle hnumber hstable threshold hthreshold
    obtain ⟨digest₂, messages₂, checkpoints₂, hresult₂, hmessages₂, hcheckpoints₂⟩ :=
      @handleCheckpoint_zero X (p.hide digest messages checkpoints) msg hidle hnumber hstable threshold hthreshold
    rw [hresult₁, hresult₂]
    refine ⟨⟨digest₂, messages₂, checkpoints₂, ⟨⟨h.idle.requestMap, h.idle.currentRequests⟩, ?_, ?_⟩, rfl⟩, rfl⟩
    · intro key hkey
      exact (hmessages₂ key).trans ((h.votes key hkey).trans (hmessages₁ key).symm)
    · intro key hkey
      have hnonzero : key.1 ≠ 0 := hkey.resolve_right fun hne ↦ hne hstable
      exact (hcheckpoints₂ key hnonzero).trans
        ((h.checkpoints key (.inl hnonzero)).trans (hcheckpoints₁ key hnonzero).symm)

theorem alike_handleCheckpoint (msg : CheckPoint) :
    AnsweredAlike (Alike X) (p.handleCheckpoint X msg)
      ((p.hide digest messages checkpoints).handleCheckpoint X msg) := by
  by_cases hzero : msg.currentMaxNumber = 0 ∧ p.state.stableCheckpoint.1 = 0
  · exact alike_handleCheckpoint_zero h hzero.1 hzero.2
  · have hrecorded : Hides X p.state.stableCheckpoint.1 (p.log.recordCheckpoint msg) messages
        (checkpoints.pushAt (msg.currentMaxNumber, msg.checkpointStateDigest) msg) :=
      ⟨⟨h.idle.requestMap, h.idle.currentRequests⟩, h.votes,
        fun key hkey ↦ HashMap.listAt_pushAt_congr (h.checkpoints key hkey) _ msg⟩
    have hcount : ((p.hide digest messages checkpoints).log.recordMessageHandler X
        (.checkPoint msg)).getCheckpointCount msg.currentMaxNumber msg.checkpointStateDigest =
        (p.log.recordMessageHandler X (.checkPoint msg)).getCheckpointCount msg.currentMaxNumber
          msg.checkpointStateDigest :=
      congrArg List.length (hrecorded.checkpoints (msg.currentMaxNumber, msg.checkpointStateDigest)
        (not_and_or.1 hzero))
    simp only [handleCheckpoint, hcount]
    apply AnsweredAlike.bind
    intro threshold
    split
    case isTrue =>
      exact ⟨⟨msg.checkpointStateDigest, _, _, hrecorded.discard, rfl⟩, rfl⟩
    case isFalse => exact ⟨⟨digest, messages, _, hrecorded, rfl⟩, rfl⟩

theorem alike_storagePublicKey (key : PublicKey) :
    AnsweredAlike (Alike X) (p.storagePublicKeyByPeerId X key)
      ((p.hide digest messages checkpoints).storagePublicKeyByPeerId X key) :=
  .bind fun _ ↦ ⟨⟨digest, messages, checkpoints, h, rfl⟩, rfl⟩

theorem alike_message (msg : MessageType) :
    AnsweredAlike (Alike X) (p.consensusProtocolMessageHandler X me msg)
      ((p.hide digest messages checkpoints).consensusProtocolMessageHandler X me msg) := by
  cases msg with
  | request msg => exact alike_handleRequest h msg
  | prePrepare msg => exact alike_handlePreprepare h msg
  | prepare msg => exact alike_handlePrepare h msg
  | commit msg => exact alike_handleCommit h msg
  | reply msg => exact alike_handleReply h msg
  | checkPoint msg => exact alike_handleCheckpoint h msg
  | viewChange msg => exact alike_handleViewchange h msg
  | newView msg => exact alike_handleNewview h msg
  | publicKey msg => exact alike_storagePublicKey h msg
  | distributePK => exact ⟨h.alike, rfl⟩

end Handlers

theorem alike_call {me : Bytes} {p q : PBFTProtocol} (h : Alike X p q) (c : Call MessageType (Finset PeerId)) :
    AnsweredAlike (Alike X) (call X me p c) (call X me q c) := by
  obtain ⟨digest, messages, checkpoints, hhides, rfl⟩ := h
  cases c with
  | consensusProtocolMessageHandler msg => exact (alike_message hhides msg).map Response.phaseState
  | _ => exact ⟨⟨digest, messages, checkpoints, hhides, rfl⟩, rfl⟩

/-- Protocols that differ in nothing that shows cannot be told apart. -/
theorem Alike.indistinguishable {me : Bytes} {p q : PBFTProtocol} (h : Alike X p q) :
    Indistinguishable (call X me) p q :=
  .of_simulation (Alike X) (fun _ _ c h ↦ alike_call h c) h

/-- An untouched protocol differs from a new one in nothing that shows. -/
theorem Reached.alike {keypair : Bytes} {p : PBFTProtocol} (h : Reached X keypair p) (huntouched : Untouched p) :
    Alike X (PBFTProtocol.new 1 keypair) p := by
  have hquiet := h.quiet huntouched.taken huntouched.keys
  refine ⟨p.state.stableCheckpoint.2, p.log.messages, p.log.checkpoints, ⟨⟨rfl, rfl⟩, ?_, ?_⟩, ?_⟩
  · intro key hkey
    rw [hquiet.votes key hkey]
    exact (HashMap.listAt_empty key).symm
  · intro key hkey
    have hnonzero : key.1 ≠ 0 := hkey.resolve_right fun hne ↦ hne rfl
    exact (huntouched.checkpoints key.1 key.2 hnonzero).trans (HashMap.listAt_empty key).symm
  · obtain ⟨⟨view, number, primary, isPrimary, nodeCount, faults, ⟨stable, digest⟩, commited, checkpointState⟩,
      ⟨requests, messages, replies, checkpoints, viewchanges, requestMap, phases, currentRequests⟩, taken, keypair',
      keys⟩ := p
    obtain ⟨rfl, rfl, rfl, rfl, rfl, rfl, -⟩ := huntouched
    obtain ⟨rfl, -, rfl, rfl, rfl, rfl, hnodes⟩ := hquiet
    obtain ⟨⟨-, rfl, rfl, ⟨rfl, rfl⟩, -⟩, rfl, rfl, -, -, -⟩ := h
    obtain rfl := hnodes rfl
    rfl

end BFTDiagnosis.Pbft
