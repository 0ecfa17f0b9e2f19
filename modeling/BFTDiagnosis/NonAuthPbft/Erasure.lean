import BFTDiagnosis.Lib.Simulation
import BFTDiagnosis.NonAuthPbft.Protocol
import BFTDiagnosis.Pbft.QuorumDistinct

/-!
# PBFT without authentication is PBFT with the signatures erased

On messages that PBFT verifies, and votes whose hash is that of the logged request, `NonAuthPBFTProtocol` does what
`PBFTProtocol` does: the same messages without their signatures are sent to the same peers, and the same requests
are completed. The two differ in the form under which a request is taken, which no handler reads, and in the
CheckPoints and the messages of the view change: on those only `PBFTProtocol` acts, so none is delivered here.
-/

namespace BFTDiagnosis.NonAuthPbft

open Components Word NonAuthPBFTProtocol
open Pbft (Externals LogPhaseState PBFTProtocol)

/-! ## What is erased -/

def erasePreprepare (msg : Pbft.PrePrepare) : PrePrepare :=
  { view := msg.view, number := msg.number, mHash := msg.mHash, m := msg.m, fromPeerId := msg.fromPeerId }

def erasePrepare (msg : Pbft.Prepare) : Prepare :=
  { view := msg.view, number := msg.number, mHash := msg.mHash, fromPeerId := msg.fromPeerId }

def eraseCommit (msg : Pbft.Commit) : Commit :=
  { view := msg.view, number := msg.number, mHash := msg.mHash, fromPeerId := msg.fromPeerId }

def eraseReply (msg : Pbft.Reply) : Reply :=
  { cmd := msg.cmd, view := msg.view, number := msg.number, fromPeerId := msg.fromPeerId, result := msg.result }

/-- A message without its signature; kinds that only the authenticated protocol has are dropped. -/
def eraseMessage : Pbft.MessageType → Option MessageType
  | .request request => some (.request request)
  | .prePrepare msg => some (.prePrepare (erasePreprepare msg))
  | .prepare msg => some (.prepare (erasePrepare msg))
  | .commit msg => some (.commit (eraseCommit msg))
  | .reply msg => some (.reply (eraseReply msg))
  | _ => none

def erasePayload : Pbft.Payload → Option ConsensusMessage
  | .message msg => (eraseMessage msg.msgType).map ConsensusMessage.mk
  | .bare _ => none

def eraseSend : SendType Pbft.Payload → Option (SendType ConsensusMessage)
  | .broadcast msg => (erasePayload msg).map .broadcast
  | .unicast peer msg => (erasePayload msg).map (.unicast peer)
  | .ambiguousBroadcast msg ambiguous count => do
    let erased ← erasePayload msg
    let ambiguous' ← erasePayload ambiguous
    return .ambiguousBroadcast erased ambiguous' count

def eraseAnswer : Pbft.Answer → Answer
  | .over request => .over request
  | .overMessage request queue => .overMessage request (queue.filterMap eraseSend)
  | .continueExecute queue => .continueExecute (queue.filterMap eraseSend)
  | .complete request queue => .complete request (queue.filterMap eraseSend)

def eraseEvent : Pbft.Event → Option (Call MessageType (Finset PeerId))
  | .message msg => (eraseMessage msg).map .consensusProtocolMessageHandler
  | .initialStart nodes => some (.extraInitialStart nodes)

def eraseState (s : Pbft.State) : State where
  view := s.view
  currentSequenceNumber := s.currentSequenceNumber
  primary := s.primary
  nodeCount := s.nodeCount
  faultToleranceCount := s.faultToleranceCount
  stableCheckpoint := s.stableCheckpoint
  currentCommitedRequestCount := s.currentCommitedRequestCount
  checkpointState := s.checkpointState

/-- The logs agree on what the handlers read: of the messages, how many there are under a key. -/
structure ErasedLog (log : Pbft.ConsensusLog) (log' : ConsensusLog) : Prop where
  requests : log'.requests = log.requests
  phases : log'.requestPhaseState = log.requestPhaseState
  messages : ∀ key, (log'.messages.listAt key).length = (log.messages.listAt key).length
  replies : ∀ key, (log'.replyMessages.listAt key).length = (log.replyMessages.listAt key).length

structure Erased (p : PBFTProtocol) (q : NonAuthPBFTProtocol) : Prop where
  state : q.state = eraseState p.state
  log : ErasedLog p.log q.log

variable {X : Externals} {me : Bytes} {p p' : PBFTProtocol} {q q' : NonAuthPBFTProtocol} {out : Pbft.Answer}

/-- The signature of the sender verifies. -/
def Signed (X : Externals) (p : PBFTProtocol) (msg : Pbft.MessageType) : Prop :=
  p.verifySignature X msg.sender msg.signature (Pbft.getMessageKey X msg) = some true

/-- The request that is logged for the number, if any, has the hash. -/
def HashLogged (X : Externals) (p : PBFTProtocol) (number : UInt64) (mHash : String) : Prop :=
  ∀ request ∈ p.log.requests.lookup number, Pbft.requestHash X request = mHash

/-- The message passes the checks that the protocol without authentication leaves out. CheckPoints and the messages
of the view change are not considered. -/
def Authentic (X : Externals) (t : Transition PBFTProtocol Pbft.Event Pbft.Answer) : Prop :=
  match t.event with
  | .message (.prePrepare msg) => Signed X t.pre (.prePrepare msg)
  | .message (.prepare msg) => Signed X t.pre (.prepare msg) ∧ HashLogged X t.pre msg.number msg.mHash
  | .message (.commit msg) => Signed X t.pre (.commit msg) ∧ HashLogged X t.pre msg.number msg.mHash
  | .message (.reply msg) => Signed X t.pre (.reply msg)
  | .message (.checkPoint _) | .message (.viewChange _) | .message (.newView _) => False
  | _ => True

instance Authentic.decidable (t : Transition PBFTProtocol Pbft.Event Pbft.Answer) : Decidable (Authentic X t) :=
  match t with
  | ⟨_, .message (.prePrepare _), _, _⟩ => inferInstanceAs (Decidable (_ = _))
  | ⟨_, .message (.prepare _), _, _⟩ => inferInstanceAs (Decidable (_ = _ ∧ ∀ request ∈ _, _ = _))
  | ⟨_, .message (.commit _), _, _⟩ => inferInstanceAs (Decidable (_ = _ ∧ ∀ request ∈ _, _ = _))
  | ⟨_, .message (.reply _), _, _⟩ => inferInstanceAs (Decidable (_ = _))
  | ⟨_, .message (.checkPoint _), _, _⟩ | ⟨_, .message (.viewChange _), _, _⟩
  | ⟨_, .message (.newView _), _, _⟩ => .isFalse not_false
  | ⟨_, .message (.request _), _, _⟩ | ⟨_, .message (.publicKey _), _, _⟩ | ⟨_, .message .distributePK, _, _⟩
  | ⟨_, .initialStart _, _, _⟩ => .isTrue trivial

/-! ## The log -/

theorem length_listAt_pushAt {μ ν : Type} {m : HashMap String (List μ)} {m' : HashMap String (List ν)}
    (h : ∀ key, (m.listAt key).length = (m'.listAt key).length) (key : String) (value : μ) (value' : ν)
    (other : String) : ((m.pushAt key value).listAt other).length = ((m'.pushAt key value').listAt other).length := by
  by_cases hkey : other = key
  · subst hkey
    rw [HashMap.listAt_pushAt_self, HashMap.listAt_pushAt_self, List.length_append, List.length_append, h]
    rfl
  · rw [HashMap.listAt_pushAt_of_ne _ _ hkey, HashMap.listAt_pushAt_of_ne _ _ hkey, h]

theorem exists_peer_of_verifySignature {fromPeerId signature : Bytes} {key : String}
    (h : p.verifySignature X fromPeerId signature key = some true) : ∃ peer, X.peerIdFromBytes fromPeerId = some peer := by
  obtain ⟨peer, hpeer, -⟩ := Option.bind_eq_some_iff.1 h
  exact ⟨peer, hpeer⟩

namespace ErasedLog

variable {log : Pbft.ConsensusLog} {log' : ConsensusLog} (h : ErasedLog log log')
include h

theorem recordRequest (number : UInt64) (request : Request) :
    ErasedLog (log.recordRequest number request) (log'.recordRequest number request) := by
  unfold Pbft.ConsensusLog.recordRequest ConsensusLog.recordRequest
  rw [h.requests]
  split
  · exact h
  · exact ⟨rfl, h.phases, h.messages, h.replies⟩

/-- A message of one of the three phases, which has the same key on both sides. -/
theorem record {msg : Pbft.MessageType} {msg' : MessageType} {key : String} :
    ErasedLog { log with messages := log.messages.pushAt key msg }
      { log' with messages := log'.messages.pushAt key msg' } :=
  ⟨h.requests, h.phases, length_listAt_pushAt h.messages key msg' msg, h.replies⟩

theorem recordReply (msg : Pbft.Reply) : ErasedLog (log.recordMessageHandler X (.reply msg))
    (log'.recordMessageHandler X (.reply (eraseReply msg))) :=
  ⟨h.requests, h.phases, h.messages, length_listAt_pushAt h.replies _ _ _⟩

theorem updateRequestPhaseState (requestKey : String) (state : LogPhaseState) :
    ErasedLog (log.updateRequestPhaseState requestKey state) (log'.updateRequestPhaseState requestKey state) :=
  ⟨h.requests, congrArg (·.insert requestKey state) h.phases, h.messages, h.replies⟩

theorem reset : ErasedLog log.reset log'.reset :=
  ⟨rfl, rfl, fun _ ↦ rfl, h.replies⟩

end ErasedLog

/-! ## The handlers -/

namespace Erased

variable (h : Erased p q)
include h

theorem checkSequenceNumber (number : UInt64) : q.checkSequenceNumber number = p.checkSequenceNumber number := by
  rw [NonAuthPBFTProtocol.checkSequenceNumber, PBFTProtocol.checkSequenceNumber, h.state]
  rfl

/-- When the hash is that of the logged request, it is enough that there is one. -/
theorem isSome_request {number : UInt64} {mHash : String} (hhash : HashLogged X p number mHash) :
    (q.log.getLocalRequestBySequenceNumber number).isSome = p.checkRequestHash X number mHash := by
  rw [ConsensusLog.getLocalRequestBySequenceNumber, h.log.requests, PBFTProtocol.checkRequestHash,
    Pbft.ConsensusLog.getLocalRequestBySequenceNumber]
  cases hlogged : p.log.requests.lookup number with
  | none => rfl
  | some request => exact (beq_iff_eq.2 (hhash request hlogged)).symm

theorem handleRequest {request : Request} (htaken : p.handleRequest X me request = some (p', out)) :
    ∃ q', q.handleRequest X me request = some (q', eraseAnswer out) ∧ Erased p' q' := by
  obtain ⟨number, hnumber, htaken⟩ := Option.bind_eq_some_iff.1 htaken
  obtain ⟨rfl, rfl⟩ := Prod.mk.inj (Option.some.inj htaken)
  rw [NonAuthPBFTProtocol.handleRequest, h.state]
  exact ⟨_, Option.bind_eq_some_iff.2 ⟨number, hnumber, rfl⟩, rfl, h.log.recordRequest number request⟩

theorem handlePreprepare {msg : Pbft.PrePrepare} (hsigned : Signed X p (.prePrepare msg))
    (htaken : p.handlePreprepare X me msg = some (p', out)) :
    ∃ q', q.handlePreprepare X me (erasePreprepare msg) = some (q', eraseAnswer out) ∧ Erased p' q' := by
  obtain ⟨request, hrequest, htaken⟩ := Option.bind_eq_some_iff.1 htaken
  obtain ⟨accepted, haccepted, htaken⟩ := Option.bind_eq_some_iff.1 htaken
  have hnext : Erased (p.takePreprepare X msg request) (q.takePreprepare X (erasePreprepare msg) request) := by
    refine ⟨?_, h.log⟩
    rw [takePreprepare, h.state]
    rfl
  obtain ⟨peer, hpeer⟩ := exists_peer_of_verifySignature hsigned
  have hsigned' : (p.takePreprepare X msg request).verifySignature X msg.fromPeerId msg.signature
      (Pbft.getMessageKey X (.prePrepare msg)) = some true := hsigned
  have hverify : (q.takePreprepare X (erasePreprepare msg) request).verifyPreprepare X (erasePreprepare msg) =
      some accepted := by
    rw [PBFTProtocol.verifyPreprepare, hsigned'] at haccepted
    refine Option.bind_eq_some_iff.2 ⟨peer, hpeer, ?_⟩
    rw [hnext.checkSequenceNumber, hnext.state]
    exact haccepted
  rw [NonAuthPBFTProtocol.handlePreprepare]
  cases accepted with
  | false =>
    obtain ⟨rfl, rfl⟩ := Prod.mk.inj (Option.some.inj htaken)
    refine ⟨_, Option.bind_eq_some_iff.2 ⟨request, hrequest, Option.bind_eq_some_iff.2 ⟨false, hverify, rfl⟩⟩, hnext⟩
  | true =>
    obtain ⟨rfl, rfl⟩ := Prod.mk.inj (Option.some.inj htaken)
    refine ⟨((q.takePreprepare X (erasePreprepare msg) request).acceptPreprepare X me (erasePreprepare msg) request).1,
      Option.bind_eq_some_iff.2 ⟨request, hrequest, Option.bind_eq_some_iff.2 ⟨true, hverify, ?_⟩⟩,
      hnext.state, (hnext.log.recordRequest msg.number request).record⟩
    rw [if_pos rfl, acceptPreprepare, hnext.state]
    rfl

theorem checkedMul_eq {threshold : UInt64} (hthreshold : checkedMul 2 p.state.faultToleranceCount = some threshold) :
    checkedMul 2 q.state.faultToleranceCount = some threshold := by
  rw [h.state]
  exact hthreshold

theorem acceptPrepare {msg : Pbft.Prepare} (htaken : p.acceptPrepare X me msg = some (p', out)) :
    ∃ q', q.acceptPrepare X me (erasePrepare msg) = some (q', eraseAnswer out) ∧ Erased p' q' := by
  obtain ⟨threshold, hthreshold, htaken⟩ := Option.bind_eq_some_iff.1 htaken
  have hrecorded : ErasedLog (p.log.recordMessageHandler X (.prepare msg))
      (q.log.recordMessageHandler X (.prepare (erasePrepare msg))) := h.log.record
  have hcount : (q.log.recordMessageHandler X (.prepare (erasePrepare msg))).getLocalMessagesCountByHash
      (getMessageKey X (.prepare (erasePrepare msg))) =
        (p.log.recordMessageHandler X (.prepare msg)).getLocalMessagesCountByHash
          (Pbft.getMessageKey X (.prepare msg)) := hrecorded.messages _
  let recorded := q.log.recordMessageHandler X (.prepare (erasePrepare msg))
  split at htaken
  case isTrue hquorum =>
    obtain ⟨rfl, rfl⟩ := Prod.mk.inj (Option.some.inj htaken)
    refine ⟨{ q with log := recorded.updateRequestPhaseState msg.mHash .prepared }, Option.bind_eq_some_iff.2
      ⟨threshold, h.checkedMul_eq hthreshold, (if_pos (hcount.trans hquorum)).trans ?_⟩, h.state,
      hrecorded.updateRequestPhaseState _ _⟩
    rw [h.state]
    rfl
  case isFalse hquorum =>
    obtain ⟨rfl, rfl⟩ := Prod.mk.inj (Option.some.inj htaken)
    exact ⟨{ q with log := recorded }, Option.bind_eq_some_iff.2 ⟨threshold, h.checkedMul_eq hthreshold,
      if_neg fun hreached ↦ hquorum (hcount.symm.trans hreached)⟩, h.state, hrecorded⟩

theorem handlePrepare {msg : Pbft.Prepare} (hsigned : Signed X p (.prepare msg))
    (hhash : HashLogged X p msg.number msg.mHash) (htaken : p.handlePrepare X me msg = some (p', out)) :
    ∃ q', q.handlePrepare X me (erasePrepare msg) = some (q', eraseAnswer out) ∧ Erased p' q' := by
  obtain ⟨accepted, haccepted, htaken⟩ := Option.bind_eq_some_iff.1 htaken
  obtain ⟨peer, hpeer⟩ := exists_peer_of_verifySignature hsigned
  have hverify : q.verifyPrepare X (erasePrepare msg) = some accepted := by
    have hsigned' : p.verifySignature X msg.fromPeerId msg.signature (Pbft.getMessageKey X (.prepare msg)) =
      some true := hsigned
    have hknown : (q.log.getLocalRequestBySequenceNumber (erasePrepare msg).number).isSome =
      p.checkRequestHash X msg.number msg.mHash := h.isSome_request hhash
    rw [PBFTProtocol.verifyPrepare, hsigned'] at haccepted
    refine Option.bind_eq_some_iff.2 ⟨peer, hpeer, ?_⟩
    rw [ConsensusLog.getRequestPhaseState, h.log.phases, h.checkSequenceNumber, h.state, hknown]
    exact haccepted
  cases accepted with
  | false =>
    obtain ⟨rfl, rfl⟩ := Prod.mk.inj (Option.some.inj htaken)
    exact ⟨q, Option.bind_eq_some_iff.2 ⟨false, hverify, rfl⟩, h⟩
  | true =>
    obtain ⟨q', htaken', hnext⟩ := h.acceptPrepare htaken
    exact ⟨q', Option.bind_eq_some_iff.2 ⟨true, hverify, htaken'⟩, hnext⟩

theorem completeCommit {msg : Pbft.Commit} {m : Request} (htaken : p.completeCommit X me msg m = some (p', out)) :
    ∃ q', q.completeCommit X me (eraseCommit msg) m = some (q', eraseAnswer out) ∧ Erased p' q' := by
  obtain ⟨count, hcount, htaken⟩ := Option.bind_eq_some_iff.1 htaken
  obtain ⟨primary, hprimary, htaken⟩ := Option.bind_eq_some_iff.1 htaken
  obtain ⟨rfl, rfl⟩ := Prod.mk.inj (Option.some.inj htaken)
  refine ⟨{ q with
    state := { q.state.updateCheckpointState X msg.mHash with currentCommitedRequestCount := count }
    log := (q.log.updateRequestPhaseState msg.mHash .commited).reset }, ?_, ?_, ?_⟩
  · rw [NonAuthPBFTProtocol.completeCommit, h.state]
    exact Option.bind_eq_some_iff.2 ⟨count, hcount, Option.bind_eq_some_iff.2 ⟨primary, hprimary, rfl⟩⟩
  · show { q.state.updateCheckpointState X msg.mHash with currentCommitedRequestCount := count } = _
    rw [h.state]
    rfl
  · exact ⟨rfl, rfl, fun _ ↦ rfl, h.log.replies⟩

theorem acceptCommit {msg : Pbft.Commit} {m : Request} (htaken : p.acceptCommit X me msg m = some (p', out)) :
    ∃ q', q.acceptCommit X me (eraseCommit msg) m = some (q', eraseAnswer out) ∧ Erased p' q' := by
  obtain ⟨threshold, hthreshold, htaken⟩ := Option.bind_eq_some_iff.1 htaken
  have hrecorded : ErasedLog (p.log.recordMessageHandler X (.commit msg))
      (q.log.recordMessageHandler X (.commit (eraseCommit msg))) := h.log.record
  have hcount : (q.log.recordMessageHandler X (.commit (eraseCommit msg))).getLocalMessagesCountByHash
      (getMessageKey X (.commit (eraseCommit msg))) =
        (p.log.recordMessageHandler X (.commit msg)).getLocalMessagesCountByHash
          (Pbft.getMessageKey X (.commit msg)) := hrecorded.messages _
  have hnext : Erased { p with log := p.log.recordMessageHandler X (.commit msg) }
    { q with log := q.log.recordMessageHandler X (.commit (eraseCommit msg)) } := ⟨h.state, hrecorded⟩
  dsimp only at htaken
  rw [← hcount] at htaken
  split at htaken
  case isTrue habove =>
    obtain ⟨rfl, rfl⟩ := Prod.mk.inj (Option.some.inj htaken)
    exact ⟨_, Option.bind_eq_some_iff.2 ⟨threshold, h.checkedMul_eq hthreshold, if_pos habove⟩, hnext⟩
  case isFalse hbelow =>
    split at htaken
    case isTrue hquorum =>
      obtain ⟨q', htaken', hcompleted⟩ := hnext.completeCommit htaken
      exact ⟨q', Option.bind_eq_some_iff.2 ⟨threshold, h.checkedMul_eq hthreshold,
        (if_neg hbelow).trans ((if_pos hquorum).trans htaken')⟩, hcompleted⟩
    case isFalse hquorum =>
      obtain ⟨rfl, rfl⟩ := Prod.mk.inj (Option.some.inj htaken)
      exact ⟨_, Option.bind_eq_some_iff.2 ⟨threshold, h.checkedMul_eq hthreshold,
        (if_neg hbelow).trans (if_neg hquorum)⟩, hnext⟩

/-- The checks of a Commit are the same but for the one of the request. -/
theorem verifyCommit {msg : Pbft.Commit} (hsigned : Signed X p (.commit msg)) {accepted : Bool}
    (haccepted : p.verifyCommit X msg = some accepted) : ∃ passed, q.verifyCommit X (eraseCommit msg) = some passed ∧
      (accepted = (passed && p.checkRequestHash X msg.number msg.mHash)) := by
  obtain ⟨peer, hpeer⟩ := exists_peer_of_verifySignature hsigned
  have hsigned' : p.verifySignature X msg.fromPeerId msg.signature (Pbft.getMessageKey X (.commit msg)) =
    some true := hsigned
  have hcount : q.log.getLocalMessagesCountByHash (getMessageKey X (.commit (eraseCommit msg))) =
    p.log.getLocalMessagesCountByHash (Pbft.getMessageKey X (.commit msg)) := h.log.messages _
  obtain ⟨threshold, hthreshold, haccepted⟩ := Option.bind_eq_some_iff.1 haccepted
  rw [← hcount] at haccepted
  split at haccepted
  case isTrue hreached =>
    obtain rfl := Option.some.inj haccepted
    exact ⟨false, Option.bind_eq_some_iff.2 ⟨threshold, h.checkedMul_eq hthreshold, if_pos hreached⟩, rfl⟩
  case isFalse hbelow =>
    rw [hsigned'] at haccepted
    replace haccepted : (if p.log.getRequestPhaseState msg.mHash = some .commited then some false else _) =
      some accepted := haccepted
    have hphase : q.log.getRequestPhaseState (eraseCommit msg).mHash = p.log.getRequestPhaseState msg.mHash := by
      rw [ConsensusLog.getRequestPhaseState, h.log.phases]
      rfl
    rw [← hphase] at haccepted
    split at haccepted
    case isTrue hcommited =>
      obtain rfl := Option.some.inj haccepted
      exact ⟨false, Option.bind_eq_some_iff.2 ⟨threshold, h.checkedMul_eq hthreshold, (if_neg hbelow).trans
        (Option.bind_eq_some_iff.2 ⟨peer, hpeer, if_pos hcommited⟩)⟩, rfl⟩
    case isFalse hopen =>
      obtain ⟨inWindow, hwindow, haccepted⟩ := Option.bind_eq_some_iff.1 haccepted
      obtain rfl := Option.some.inj haccepted
      refine ⟨inWindow && p.state.view == msg.view, Option.bind_eq_some_iff.2 ⟨threshold,
        h.checkedMul_eq hthreshold, (if_neg hbelow).trans (Option.bind_eq_some_iff.2 ⟨peer, hpeer,
          (if_neg hopen).trans (Option.bind_eq_some_iff.2 ⟨inWindow, ?_, ?_⟩)⟩)⟩, rfl⟩
      · rw [h.checkSequenceNumber]
        exact hwindow
      · rw [h.state]
        rfl

theorem handleCommit {msg : Pbft.Commit} (hsigned : Signed X p (.commit msg))
    (hhash : HashLogged X p msg.number msg.mHash) (htaken : p.handleCommit X me msg = some (p', out)) :
    ∃ q', q.handleCommit X me (eraseCommit msg) = some (q', eraseAnswer out) ∧ Erased p' q' := by
  obtain ⟨accepted, haccepted, htaken⟩ := Option.bind_eq_some_iff.1 htaken
  obtain ⟨passed, hpassed, hchecked⟩ := h.verifyCommit hsigned haccepted
  have hrequests : q.log.getLocalRequestBySequenceNumber (eraseCommit msg).number =
      p.log.getLocalRequestBySequenceNumber msg.number := by
    rw [ConsensusLog.getLocalRequestBySequenceNumber, h.log.requests]
    rfl
  rw [← h.isSome_request hhash, show q.log.getLocalRequestBySequenceNumber msg.number =
    p.log.getLocalRequestBySequenceNumber msg.number from hrequests] at hchecked
  have hsilent (hnone : some (p, PBFTProtocol.silent) = some (p', out)) :
      some (q, silent) = some (q, eraseAnswer out) ∧ Erased p' q := by
    obtain ⟨rfl, rfl⟩ := Prod.mk.inj (Option.some.inj hnone)
    exact ⟨rfl, h⟩
  cases hlogged : p.log.getLocalRequestBySequenceNumber msg.number with
  | none =>
    rw [hlogged] at htaken hchecked hrequests
    have hboth := hsilent (by cases accepted <;> exact htaken)
    refine ⟨q, Option.bind_eq_some_iff.2 ⟨passed, hpassed, ?_⟩, hboth.2⟩
    rw [hrequests]
    cases passed <;> exact hboth.1
  | some m =>
    rw [hlogged] at htaken hchecked hrequests
    rw [Option.isSome_some, Bool.and_true] at hchecked
    subst hchecked
    cases accepted with
    | false =>
      have hboth := hsilent htaken
      exact ⟨q, Option.bind_eq_some_iff.2 ⟨false, hpassed, hboth.1⟩, hboth.2⟩
    | true =>
      obtain ⟨q', htaken', hnext⟩ := h.acceptCommit htaken
      refine ⟨q', Option.bind_eq_some_iff.2 ⟨true, hpassed, ?_⟩, hnext⟩
      rw [hrequests]
      exact htaken'

theorem handleReply {msg : Pbft.Reply} (hsigned : Signed X p (.reply msg))
    (htaken : p.handleReply X msg = some (p', out)) :
    ∃ q', q.handleReply X (eraseReply msg) = some (q', eraseAnswer out) ∧ Erased p' q' := by
  obtain ⟨accepted, haccepted, htaken⟩ := Option.bind_eq_some_iff.1 htaken
  obtain ⟨difference, hdifference, haccepted⟩ := Option.bind_eq_some_iff.1 haccepted
  obtain rfl : accepted = true := Option.some.inj (haccepted.symm.trans hsigned)
  obtain ⟨peer, hpeer⟩ := exists_peer_of_verifySignature hsigned
  obtain ⟨difference', hdifference', htaken⟩ := Option.bind_eq_some_iff.1 htaken
  obtain rfl : difference = difference' := Option.some.inj (hdifference.symm.trans hdifference')
  obtain ⟨threshold, hthreshold, htaken⟩ := Option.bind_eq_some_iff.1 htaken
  have hrecorded := h.log.recordReply (X := X) msg
  have hcount : (q.log.recordMessageHandler X (.reply (eraseReply msg))).getLocalReplyMessagesCountByHash
      (getMessageKey X (.reply (eraseReply msg))) =
        (p.log.recordMessageHandler X (.reply msg)).getLocalReplyMessagesCountByHash
          (Pbft.getMessageKey X (.reply msg)) := hrecorded.replies _
  have hfits : checkedSub q.state.nodeCount q.state.faultToleranceCount = some difference := by
    rw [h.state]
    exact hdifference
  dsimp only at htaken
  rw [← hcount] at htaken
  split at htaken
  case isTrue hquorum =>
    split at htaken
    case isTrue hutf =>
      obtain ⟨rfl, rfl⟩ := Prod.mk.inj (Option.some.inj htaken)
      exact ⟨_, Option.bind_eq_some_iff.2 ⟨difference, hfits, Option.bind_eq_some_iff.2 ⟨peer, hpeer,
        Option.bind_eq_some_iff.2 ⟨threshold, hthreshold, (if_pos hquorum).trans (if_pos hutf)⟩⟩⟩,
        h.state, rfl, rfl, fun _ ↦ rfl, fun _ ↦ rfl⟩
    case isFalse => cases htaken
  case isFalse hquorum =>
    obtain ⟨rfl, rfl⟩ := Prod.mk.inj (Option.some.inj htaken)
    exact ⟨_, Option.bind_eq_some_iff.2 ⟨difference, hfits, Option.bind_eq_some_iff.2 ⟨peer, hpeer,
      Option.bind_eq_some_iff.2 ⟨threshold, hthreshold, if_neg hquorum⟩⟩⟩, h.state, hrecorded⟩

end Erased

/-! ## Runs -/

/-- A transition without the signatures, none when the other protocol has no such call. -/
def eraseTransition (t : Transition PBFTProtocol Pbft.Event Pbft.Answer) :
    Option (Call MessageType (Finset PeerId) × Response ConsensusMessage) :=
  (eraseEvent t.event).map fun call ↦ (call, .phaseState (eraseAnswer t.out))

/-- Nothing that is sent is lost with the calls that are dropped. -/
theorem eraseAnswer_of_dropped {event : Pbft.Event} (hauthentic : Authentic X ⟨p, event, out, p'⟩)
    (hdropped : eraseEvent event = none) (htaken : Pbft.step X me p event = some (p', out)) :
    eraseAnswer out = silent := by
  cases event with
  | initialStart nodes => cases hdropped
  | message msg =>
    cases msg with
    | publicKey key =>
      obtain ⟨peer, -, htaken⟩ := Option.bind_eq_some_iff.1 htaken
      obtain ⟨rfl, rfl⟩ := Prod.mk.inj (Option.some.inj htaken)
      rfl
    | distributePK =>
      obtain ⟨rfl, rfl⟩ := Prod.mk.inj (Option.some.inj htaken)
      rfl
    | checkPoint _ | viewChange _ | newView _ => exact hauthentic.elim
    | request _ | prePrepare _ | prepare _ | commit _ | reply _ => cases hdropped

theorem Erased.step {event : Pbft.Event} (h : Erased p q) (hauthentic : Authentic X ⟨p, event, out, p'⟩)
    (htaken : Pbft.step X me p event = some (p', out)) : ∃ steps q', IsRun (call X me) q steps q' ∧ Erased p' q' ∧
      (steps.map fun t ↦ (t.event, t.out)) = (eraseTransition ⟨p, event, out, p'⟩).toList := by
  have hsingle {msg : MessageType} (hevent : eraseEvent event = some (.consensusProtocolMessageHandler msg))
      (hcall : ∃ q', q.consensusProtocolMessageHandler X me msg = some (q', eraseAnswer out) ∧ Erased p' q') :
      ∃ steps q', IsRun (call X me) q steps q' ∧ Erased p' q' ∧
        (steps.map fun t ↦ (t.event, t.out)) = (eraseTransition ⟨p, event, out, p'⟩).toList := by
    obtain ⟨q', hcall, hnext⟩ := hcall
    have hstep : call X me q (.consensusProtocolMessageHandler msg) = some (q', .phaseState (eraseAnswer out)) := by
      rw [call, hcall]
      rfl
    refine ⟨_, q', .single hstep, hnext, ?_⟩
    rw [eraseTransition, hevent]
    rfl
  cases event with
  | initialStart nodes =>
    obtain ⟨rfl, rfl⟩ := Prod.mk.inj (Option.some.inj htaken)
    refine ⟨[⟨q, .extraInitialStart nodes, _, _⟩], _, .single rfl, ⟨?_, h.log⟩, rfl⟩
    show { q.state with primary := me, nodeCount := UInt64.ofNat nodes.card } = _
    rw [h.state]
    rfl
  | message msg =>
    cases msg with
    | request request => exact hsingle rfl (h.handleRequest htaken)
    | prePrepare msg => exact hsingle rfl (h.handlePreprepare hauthentic htaken)
    | prepare msg => exact hsingle rfl (h.handlePrepare hauthentic.1 hauthentic.2 htaken)
    | commit msg => exact hsingle rfl (h.handleCommit hauthentic.1 hauthentic.2 htaken)
    | reply msg => exact hsingle rfl (h.handleReply hauthentic htaken)
    | checkPoint _ | viewChange _ | newView _ => exact hauthentic.elim
    | publicKey key =>
      obtain ⟨peer, -, htaken⟩ := Option.bind_eq_some_iff.1 htaken
      obtain ⟨rfl, rfl⟩ := Prod.mk.inj (Option.some.inj htaken)
      exact ⟨[], q, .nil, ⟨h.state, h.log⟩, rfl⟩
    | distributePK =>
      obtain ⟨rfl, rfl⟩ := Prod.mk.inj (Option.some.inj htaken)
      exact ⟨[], q, .nil, h, rfl⟩

/-- Every run on authentic messages is matched by a run without authentication on the same messages, which sends
the same messages to the same peers, completes the same requests and ends in the same state, signatures apart. -/
theorem erased_run {p₀ : PBFTProtocol} {q₀ : NonAuthPBFTProtocol}
    {run : List (Transition PBFTProtocol Pbft.Event Pbft.Answer)} (hrun : IsRun (Pbft.step X me) p₀ run p)
    (hauthentic : ∀ t ∈ run, Authentic X t) (hstart : Erased p₀ q₀) :
    (∀ t ∈ run, eraseEvent t.event = none → eraseAnswer t.out = silent) ∧
      ∃ run' q, IsRun (call X me) q₀ run' q ∧ Erased p q ∧
        (run'.map fun t ↦ (t.event, t.out)) = run.filterMap eraseTransition := by
  constructor
  · intro t ht hdropped
    exact eraseAnswer_of_dropped (hauthentic t ht) hdropped (hrun.taken t ht)
  obtain ⟨pieces, q, hpieces, herased, hmatched⟩ := hrun.simulated Erased
    (fun t steps ↦ (steps.map fun t ↦ (t.event, t.out)) = (eraseTransition t).toList)
    (fun t _ hrelated hcondition htaken ↦ hrelated.step hcondition htaken) hstart hauthentic
  refine ⟨pieces.flatten, q, hpieces, herased, ?_⟩
  have hseen : run.flatMap (fun t ↦ (eraseTransition t).toList) =
      pieces.flatten.flatMap fun t ↦ [(t.event, t.out)] := by
    refine flatMap_eq_of_matched (fun t steps hmatch ↦ ?_) hmatched
    rw [← hmatch, List.map_eq_flatMap]
  rw [List.map_eq_flatMap, List.filterMap_eq_flatMap_toList, hseen]

/-- The two protocols start alike once the nodes are known. -/
theorem Erased.of_extraInitialStart (f : UInt64) (keypair : Bytes) (nodes : Finset PeerId) :
    Erased ((PBFTProtocol.new f keypair).extraInitialStart X nodes me).1
      ((NonAuthPBFTProtocol.new f).extraInitialStart nodes me).1 :=
  ⟨rfl, rfl, rfl, fun _ ↦ rfl, fun _ ↦ rfl⟩

def startedNode : PBFTProtocol :=
  ((PBFTProtocol.new 1 [1]).extraInitialStart .transparent {[1], [2], [3], [4]} [1]).1

/-- The round of four peers, once the nodes are known. -/
def startedRound : List (Transition PBFTProtocol Pbft.Event Pbft.Answer) :=
  transitions (Pbft.step .transparent [1]) startedNode Pbft.roundEvents.tail

theorem erased_run_round : (∀ t ∈ startedRound, eraseEvent t.event = none → eraseAnswer t.out = silent) ∧
    ∃ run' q, IsRun (call .transparent [1])
        ((NonAuthPBFTProtocol.new 1).extraInitialStart {[1], [2], [3], [4]} [1]).1 run' q ∧
      Erased (final (Pbft.step .transparent [1]) startedNode Pbft.roundEvents.tail) q ∧
        (run'.map fun t ↦ (t.event, t.out)) = startedRound.filterMap eraseTransition := by
  have hrun : IsRun (Pbft.step .transparent [1]) startedNode startedRound
      (final (Pbft.step .transparent [1]) startedNode Pbft.roundEvents.tail) := .of_isSome (by decide +kernel)
  have hauthentic : ∀ t ∈ startedRound, Authentic .transparent t := by decide +kernel
  exact erased_run hrun hauthentic (.of_extraInitialStart 1 [1] _)

end BFTDiagnosis.NonAuthPbft
