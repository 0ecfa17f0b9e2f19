import BFTDiagnosis.Components.RequestBuffer
import BFTDiagnosis.Hotstuff.Reset

/-!
# The requests that a chained HotStuff node has taken

`taken_requests` holds the bincode forms of the requests that the node has proposed and of the commands of the
blocks that it has received, whatever their view. `protocol_reset` empties it.
-/

namespace BFTDiagnosis.ChainHotstuff

open Components Hotstuff ChainHotstuffProtocol

variable {X : Externals} {me : Bytes} {p p' : ChainHotstuffProtocol} {out : Outcome}

/-- The request that comes in with a call: one to be proposed, or the command of a proposed block. -/
def enteringRequest : Components.Call (MessageType × List (Bytes × ConsensusNodePKInfo)) InitialStart →
    Option Request
  | .consensusProtocolMessageHandler (.request request, _) => some request
  | .consensusProtocolMessageHandler (.generic generic, _) => generic.block.map fun block ↦ ⟨block.cmd⟩
  | _ => none

theorem takenRequests_of_blockEffect {b1 : Block} (h : BlockEffect X me p b1 p' out) :
    p'.takenRequests = p.takenRequests := by
  cases h with
  | refused => rfl
  | accepted p₁ queue signed safe cast =>
    have hconclude : (p₁.conclude X queue signed b1).1.takenRequests = p₁.takenRequests := rfl
    rw [hconclude]
    cases cast <;> rfl

theorem takenRequests_of_handleGeneric {generic : Generic} {block : Block} (hblock : generic.block = some block)
    (h : p.handleGeneric X generic me = some (p', out)) :
    p'.takenRequests = insert (X.requestBytes ⟨block.cmd⟩) p.takenRequests := by
  simp only [handleGeneric, hblock] at h
  split at h
  case isTrue =>
    obtain ⟨rfl, -⟩ := Prod.mk.inj (Option.some.inj h)
    rfl
  case isFalse => exact takenRequests_of_blockEffect (replicaHandleGeneric_effect hblock h)

/-- A leader takes the request before it handles its own proposal, which takes it once more. -/
theorem takenRequests_of_handleRequest {request : Request} (h : p.handleRequest X request me = some (p', out)) :
    p'.takenRequests = insert (X.requestBytes request) p.takenRequests := by
  simp only [handleRequest, bind, pure, Option.bind_eq_some_iff, Option.some.injEq, Prod.mk.injEq,
    Prod.exists] at h
  obtain ⟨p₁, out₁, hhandled, rfl, -⟩ := h
  rw [takenRequests_of_handleGeneric rfl hhandled]
  exact Finset.insert_idem _ _

/-- Requests, proposals and resets apart, no call touches the taken requests. -/
theorem takenRequests_of_step {event : Event} (hrequest : ∀ request order, event ≠ .message (.request request) order)
    (hgeneric : ∀ generic order, generic.block.isSome = true → event ≠ .message (.generic generic) order)
    (hreset : ∀ peerId, event ≠ .protocolReset peerId) (h : step X me p event = some (p', out)) :
    p'.takenRequests = p.takenRequests := by
  cases step_effect h with
  | otherView generic b1 order taken hblock =>
    exact absurd rfl (hgeneric generic order (Option.isSome_iff_exists.2 ⟨b1, hblock⟩))
  | generic generic b1 order taken p' out hblock =>
    exact absurd rfl (hgeneric generic order (Option.isSome_iff_exists.2 ⟨b1, hblock⟩))
  | request request order => exact absurd rfl (hrequest request order)
  | protocolReset peerId => exact absurd rfl (hreset peerId)
  | _ => rfl

theorem mem_takenRequests_of_respond
    {c : Components.Call (MessageType × List (Bytes × ConsensusNodePKInfo)) InitialStart} {response : Response Payload}
    (h : respond X me p c = some (p', response)) (taken : Bytes) :
    taken ∈ p'.takenRequests ↔
      (∃ request, enteringRequest c = some request ∧ X.requestBytes request = taken) ∨ taken ∈ p.takenRequests := by
  have hother (hsame : p'.takenRequests = p.takenRequests) (henters : enteringRequest c = none) :
      taken ∈ p'.takenRequests ↔
        (∃ request, enteringRequest c = some request ∧ X.requestBytes request = taken) ∨
          taken ∈ p.takenRequests := by
    simp [hsame, henters]
  cases c with
  | consensusProtocolMessageHandler message =>
    obtain ⟨msg, order⟩ := message
    obtain ⟨⟨p'', out⟩, htaken, heq⟩ := Option.map_eq_some_iff.1 h
    obtain ⟨rfl, -⟩ := Prod.mk.inj heq
    have hstep : step X me p (.message msg order) = some (p'', out) := htaken
    cases msg with
    | request request =>
      obtain ⟨peer, hpeer, hhandled⟩ := Option.bind_eq_some_iff.1 htaken
      rw [id, takenRequests_of_handleRequest hhandled]
      simp [enteringRequest, eq_comm]
    | generic generic =>
      obtain ⟨peer, hpeer, hhandled⟩ := Option.bind_eq_some_iff.1 htaken
      cases hblock : generic.block with
      | none =>
        refine hother (takenRequests_of_step (by simp) ?_ (by simp) hstep) (by simp [enteringRequest, hblock])
        rintro generic' order' hsome heq
        obtain ⟨rfl, -⟩ := Event.message.inj heq |>.imp_left MessageType.generic.inj
        simp [hblock] at hsome
      | some block =>
        rw [id, takenRequests_of_handleGeneric hblock hhandled]
        simp [enteringRequest, hblock, eq_comm]
    | _ => exact hother (takenRequests_of_step (by simp) (by simp) (by simp) hstep) rfl
  | viewTimeoutHandler =>
    obtain ⟨⟨p'', out⟩, htaken, heq⟩ := Option.map_eq_some_iff.1 h
    obtain ⟨rfl, -⟩ := Prod.mk.inj heq
    have hstep : step X me p .viewTimeout = some (p'', out) := htaken
    exact hother (takenRequests_of_step (by simp) (by simp) (by simp) hstep) rfl
  | extraInitialStart start =>
    obtain ⟨⟨p'', out⟩, htaken, heq⟩ := Option.map_eq_some_iff.1 h
    obtain ⟨rfl, -⟩ := Prod.mk.inj heq
    have hstep : step X me p (.initialStart start.consensusNodes start.randomness start.order start.pkOrder) =
        some (p'', out) := htaken
    exact hother (takenRequests_of_step (by simp) (by simp) (by simp) hstep) rfl
  | checkTakenRequest request =>
    obtain ⟨rfl, -⟩ := Prod.mk.inj (Option.some.inj h)
    exact hother rfl rfl
  | isLeader peerId =>
    obtain ⟨rfl, -⟩ := Prod.mk.inj (Option.some.inj h)
    exact hother rfl rfl

end BFTDiagnosis.ChainHotstuff
