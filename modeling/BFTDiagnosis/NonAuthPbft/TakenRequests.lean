import BFTDiagnosis.Lib.Run
import BFTDiagnosis.NonAuthPbft.Protocol

/-!
# The requests that a node without authentication has taken

`handle_request` stores the bincode form of its request, `handle_preprepare` the JSON form. So `taken_requests`
holds two encodings, one for each way by which a request comes in.
-/

namespace BFTDiagnosis.NonAuthPbft

open Components NonAuthPBFTProtocol

variable {X : Pbft.Externals} {me : Bytes}

/-- The request that a call makes the node propose through `handle_request`. -/
def proposedRequest : Call MessageType (Finset PeerId) → Option Request
  | .consensusProtocolMessageHandler (.request request) => some request
  | _ => none

/-- The request of a PrePrepare, accepted or not. -/
def receivedRequest (X : Pbft.Externals) : Call MessageType (Finset PeerId) → Option Request
  | .consensusProtocolMessageHandler (.prePrepare msg) => X.requestOfJson msg.m
  | _ => none

/-- The request of a PrePrepare that passes the checks of `handle_preprepare`. -/
def acceptedProposal (X : Pbft.Externals) (p : NonAuthPBFTProtocol) :
    Call MessageType (Finset PeerId) → Option Request
  | .consensusProtocolMessageHandler (.prePrepare msg) =>
    if p.verifyPreprepare X msg = some true then X.requestOfJson msg.m else none
  | _ => none

/-- The bytes that a call adds to the taken requests. -/
def Takes (X : Pbft.Externals) (c : Call MessageType (Finset PeerId)) (taken : Bytes) : Prop :=
  (∃ request, proposedRequest c = some request ∧ X.requestBytes request = taken) ∨
    ∃ request, receivedRequest X c = some request ∧ X.requestJson request = taken

theorem not_takes {c : Call MessageType (Finset PeerId)} (hproposed : proposedRequest c = none)
    (hreceived : receivedRequest X c = none) (taken : Bytes) : ¬ Takes X c taken := by
  rintro (⟨request, hrequest, -⟩ | ⟨request, hrequest, -⟩)
  · cases hproposed.symm.trans hrequest
  · cases hreceived.symm.trans hrequest

/-! ## The handlers -/

variable {p p' : NonAuthPBFTProtocol} {out : Answer}

theorem takenRequests_of_handleRequest {request : Request} (h : p.handleRequest X me request = some (p', out)) :
    p'.takenRequests = insert (X.requestBytes request) p.takenRequests := by
  simp only [handleRequest, bind, pure, Option.bind_eq_some_iff, Option.some.injEq, Prod.mk.injEq] at h
  obtain ⟨number, -, rfl, -⟩ := h
  rfl

theorem takenRequests_of_handlePreprepare {msg : PrePrepare}
    (h : p.handlePreprepare X me msg = some (p', out)) :
    ∃ request, X.requestOfJson msg.m = some request ∧
      p'.takenRequests = insert (X.requestJson request) p.takenRequests := by
  simp only [handlePreprepare, bind, pure, Option.bind_eq_some_iff] at h
  obtain ⟨request, hjson, accepted, -, hrest⟩ := h
  refine ⟨request, hjson, ?_⟩
  cases accepted with
  | true =>
    simp only [if_true, Option.some.injEq, acceptPreprepare, Prod.mk.injEq] at hrest
    obtain ⟨rfl, -⟩ := hrest
    rfl
  | false =>
    simp only [Bool.false_eq_true, if_false, Option.some.injEq, Prod.mk.injEq] at hrest
    obtain ⟨rfl, -⟩ := hrest
    rfl

theorem takenRequests_of_handlePrepare {msg : Prepare} (h : p.handlePrepare X me msg = some (p', out)) :
    p'.takenRequests = p.takenRequests := by
  obtain ⟨accepted, -, hrest⟩ := Option.bind_eq_some_iff.1 h
  cases accepted with
  | false =>
    obtain ⟨rfl, -⟩ := Prod.mk.inj (Option.some.inj hrest)
    rfl
  | true =>
    simp only [if_true, acceptPrepare, bind, pure, Option.bind_eq_some_iff] at hrest
    obtain ⟨threshold, -, hrest⟩ := hrest
    split at hrest
    all_goals
      obtain ⟨rfl, -⟩ := Prod.mk.inj (Option.some.inj hrest)
      rfl

theorem takenRequests_of_handleCommit {msg : Commit} (h : p.handleCommit X me msg = some (p', out)) :
    p'.takenRequests = p.takenRequests := by
  obtain ⟨accepted, -, hrest⟩ := Option.bind_eq_some_iff.1 h
  split at hrest
  case h_2 =>
    obtain ⟨rfl, -⟩ := Prod.mk.inj (Option.some.inj hrest)
    rfl
  case h_1 m _ =>
    simp only [acceptCommit, bind, pure, Option.bind_eq_some_iff] at hrest
    obtain ⟨threshold, -, hrest⟩ := hrest
    split at hrest
    case isTrue =>
      obtain ⟨rfl, -⟩ := Prod.mk.inj (Option.some.inj hrest)
      rfl
    case isFalse =>
      split at hrest
      case isFalse =>
        obtain ⟨rfl, -⟩ := Prod.mk.inj (Option.some.inj hrest)
        rfl
      case isTrue =>
        simp only [completeCommit, bind, pure, Option.bind_eq_some_iff, Option.some.injEq, Prod.mk.injEq] at hrest
        obtain ⟨count, -, primary, -, rfl, -⟩ := hrest
        rfl

theorem takenRequests_of_handleReply {msg : Reply} (h : p.handleReply X msg = some (p', out)) :
    p'.takenRequests = p.takenRequests := by
  simp only [handleReply, bind, pure, Option.bind_eq_some_iff] at h
  obtain ⟨difference, -, peer, -, replyThreshold, -, hrest⟩ := h
  split at hrest
  case isFalse =>
    obtain ⟨rfl, -⟩ := Prod.mk.inj (Option.some.inj hrest)
    rfl
  case isTrue =>
    split at hrest
    case isTrue =>
      obtain ⟨rfl, -⟩ := Prod.mk.inj (Option.some.inj hrest)
      rfl
    case isFalse => cases hrest

/-! ## Runs -/

theorem mem_takenRequests_of_call {c : Call MessageType (Finset PeerId)} {response : Response ConsensusMessage}
    (h : call X me p c = some (p', response)) (taken : Bytes) :
    taken ∈ p'.takenRequests ↔ Takes X c taken ∨ taken ∈ p.takenRequests := by
  have hother (hsame : p'.takenRequests = p.takenRequests) (hproposed : proposedRequest c = none)
      (hreceived : receivedRequest X c = none) :
      taken ∈ p'.takenRequests ↔ Takes X c taken ∨ taken ∈ p.takenRequests := by
    rw [hsame]
    exact (or_iff_right (not_takes hproposed hreceived taken)).symm
  cases c with
  | consensusProtocolMessageHandler msg =>
    obtain ⟨⟨p'', out⟩, htaken, heq⟩ := Option.map_eq_some_iff.1 h
    obtain ⟨rfl, -⟩ := Prod.mk.inj heq
    cases msg with
    | request request =>
      rw [id, takenRequests_of_handleRequest htaken]
      simp [Takes, proposedRequest, receivedRequest, eq_comm]
    | prePrepare msg =>
      obtain ⟨request, hjson, hinsert⟩ := takenRequests_of_handlePreprepare htaken
      rw [id, hinsert]
      simp [Takes, proposedRequest, receivedRequest, hjson, eq_comm]
    | prepare msg => exact hother (takenRequests_of_handlePrepare htaken) rfl rfl
    | commit msg => exact hother (takenRequests_of_handleCommit htaken) rfl rfl
    | reply msg => exact hother (takenRequests_of_handleReply htaken) rfl rfl
  | extraInitialStart nodes =>
    obtain ⟨rfl, -⟩ := Prod.mk.inj (Option.some.inj h)
    exact hother rfl rfl rfl
  | _ =>
    obtain ⟨rfl, -⟩ := Prod.mk.inj (Option.some.inj h)
    exact hother rfl rfl rfl

/-- The taken requests are those of the calls so far. -/
theorem mem_takenRequests_iff {faultToleranceCount : UInt64}
    {run : List (Transition NonAuthPBFTProtocol (Call MessageType (Finset PeerId)) (Response ConsensusMessage))}
    (h : IsRun (call X me) (.new faultToleranceCount) run p) (taken : Bytes) :
    taken ∈ p.takenRequests ↔ ∃ t ∈ run, Takes X t.event taken :=
  h.holds_iff_exists (fun p taken ↦ taken ∈ p.takenRequests) (fun t ↦ Takes X t.event)
    (fun _ ↦ Finset.notMem_empty _) (fun _ htaken ↦ mem_takenRequests_of_call htaken) taken

end BFTDiagnosis.NonAuthPbft
