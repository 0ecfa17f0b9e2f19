import BFTDiagnosis.Components.RequestBuffer
import BFTDiagnosis.Pbft.HiddenState

/-!
# The requests that a PBFT node has taken

`taken_requests` holds the bincode forms of the requests that the node has proposed and of those of the
PrePrepares that it has received, accepted or not. Nothing is ever removed.
-/

namespace BFTDiagnosis.Pbft

open Components PBFTProtocol

variable {X : Externals} {me : Bytes}

/-- The request that a call makes the node propose through `handle_request`. -/
def proposedRequest : Call MessageType (Finset PeerId) → Option Request
  | .consensusProtocolMessageHandler (.request request) => some request
  | _ => none

/-- The request of a PrePrepare, accepted or not. -/
def receivedRequest (X : Externals) : Call MessageType (Finset PeerId) → Option Request
  | .consensusProtocolMessageHandler (.prePrepare msg) => X.requestOfJson msg.m
  | _ => none

/-- The request of a PrePrepare that passes the checks of `handle_preprepare`. -/
def acceptedProposal (X : Externals) (p : PBFTProtocol) : Call MessageType (Finset PeerId) → Option Request
  | .consensusProtocolMessageHandler (.prePrepare msg) =>
    if p.verifyPreprepare X msg = some true then X.requestOfJson msg.m else none
  | _ => none

theorem receivedRequest_of_acceptedProposal {p : PBFTProtocol} {c : Call MessageType (Finset PeerId)}
    {request : Request} (h : acceptedProposal X p c = some request) : receivedRequest X c = some request := by
  unfold acceptedProposal at h
  split at h
  · split at h
    · exact h
    · cases h
  · cases h

/-- The bytes that a call adds to the taken requests. -/
def Takes (X : Externals) (c : Call MessageType (Finset PeerId)) (taken : Bytes) : Prop :=
  ∃ request, (proposedRequest c = some request ∨ receivedRequest X c = some request) ∧
    X.requestBytes request = taken

/-- Requests and PrePrepares apart, no call touches the taken requests. -/
theorem takenRequests_of_step {p p' : PBFTProtocol} {event : Event} {out : Answer}
    (hrequest : ∀ request, event ≠ .message (.request request))
    (hpreprepare : ∀ msg, event ≠ .message (.prePrepare msg)) (h : step X me p event = some (p', out)) :
    p'.takenRequests = p.takenRequests := by
  cases step_effect h with
  | request request => exact absurd rfl (hrequest request)
  | preprepareRejected msg => exact absurd rfl (hpreprepare msg)
  | preprepare msg => exact absurd rfl (hpreprepare msg)
  | _ => rfl

theorem not_takes {c : Call MessageType (Finset PeerId)} (hproposed : proposedRequest c = none)
    (hreceived : receivedRequest X c = none) (taken : Bytes) : ¬ Takes X c taken := by
  rintro ⟨request, hrequest, -⟩
  simp [hproposed, hreceived] at hrequest

theorem mem_takenRequests_of_call {p p' : PBFTProtocol} {c : Call MessageType (Finset PeerId)}
    {response : Response Payload} (h : call X me p c = some (p', response)) (taken : Bytes) :
    taken ∈ p'.takenRequests ↔ Takes X c taken ∨ taken ∈ p.takenRequests := by
  have hother (hsame : p'.takenRequests = p.takenRequests) (hproposed : proposedRequest c = none)
      (hreceived : receivedRequest X c = none) :
      taken ∈ p'.takenRequests ↔ Takes X c taken ∨ taken ∈ p.takenRequests := by
    rw [hsame]
    exact (or_iff_right (not_takes hproposed hreceived taken)).symm
  cases c with
  | consensusProtocolMessageHandler msg =>
    obtain ⟨⟨p'', out⟩, htaken, heq⟩ := Option.map_eq_some_iff.1 h
    obtain ⟨rfl, -⟩ := Prod.mk.inj heq
    have hstep : step X me p (.message msg) = some (p'', out) := htaken
    cases msg with
    | request request =>
      obtain ⟨number, preprepare, -, rfl, -⟩ := handleRequest_cases htaken
      simp [Takes, proposedRequest, receivedRequest, eq_comm]
    | prePrepare msg =>
      obtain ⟨request, hjson, ⟨-, heq⟩ | ⟨-, rfl, -⟩⟩ := handlePreprepare_cases htaken
      · obtain ⟨rfl, -⟩ := Prod.mk.inj heq
        simp [Takes, proposedRequest, receivedRequest, hjson, takePreprepare, eq_comm]
      · simp [Takes, proposedRequest, receivedRequest, hjson, takePreprepare, eq_comm]
    | _ => exact hother (takenRequests_of_step (by simp) (by simp) hstep) rfl rfl
  | extraInitialStart nodes =>
    obtain ⟨rfl, -⟩ := Prod.mk.inj (Option.some.inj h)
    exact hother rfl rfl rfl
  | _ =>
    obtain ⟨rfl, -⟩ := Prod.mk.inj (Option.some.inj h)
    exact hother rfl rfl rfl

/-- The taken requests are those of the calls so far. -/
theorem mem_takenRequests_iff {faultToleranceCount : UInt64} {keypair : Bytes}
    {run : List (Transition PBFTProtocol (Call MessageType (Finset PeerId)) (Response Payload))}
    {p : PBFTProtocol} (h : IsRun (call X me) (.new faultToleranceCount keypair) run p) (taken : Bytes) :
    taken ∈ p.takenRequests ↔ ∃ t ∈ run, Takes X t.event taken :=
  h.holds_iff_exists (fun p taken ↦ taken ∈ p.takenRequests) (fun t ↦ Takes X t.event)
    (fun _ ↦ Finset.notMem_empty _) (fun _ htaken ↦ mem_takenRequests_of_call htaken) taken

end BFTDiagnosis.Pbft
