import BFTDiagnosis.ChainHotstuff.TakenRequests
import BFTDiagnosis.Components.RequestLoop
import BFTDiagnosis.Pbft.TakenRequests

/-!
# Refilling the request buffer

The actuator over chained HotStuff and over PBFT. Every node counts its own rounds and names the requests of a
round alike, so what one leader proposes in a round may be all that another leader finds when it refills its own
buffer; the node then unwraps nothing.
-/

namespace BFTDiagnosis.ChainHotstuff

open Components Hotstuff

variable {X : Externals} {me : Bytes}

/-- What the actuator of the node `me` calls on its protocol. -/
def behaviour (X : Externals) (me : Bytes) :
    Behaviour ChainHotstuffProtocol (MessageType × List (Bytes × ConsensusNodePKInfo)) InitialStart Payload where
  call := respond X me
  requestMessage request := (.request request, [])
  protocolReset p drawn := p.protocolReset drawn
  checkTakenRequest p request := p.checkTakenRequest request
  isLeader p := p.isLeader me

theorem taking : RequestLoop.Taking X.toPlatform (behaviour X me)
    (fun c request ↦ enteringRequest c = some request) true where
  call h taken := by
    simp only [behaviour, ChainHotstuffProtocol.checkTakenRequest, decide_eq_true_iff]
    exact mem_takenRequests_of_respond h taken
  request request request' := by
    rw [behaviour, enteringRequest, Option.some.injEq, eq_comm]
  reset p drawn taken := by
    simp [behaviour, ChainHotstuffProtocol.checkTakenRequest, ChainHotstuffProtocol.protocolReset,
      ChainHotstuffProtocol.new]

end BFTDiagnosis.ChainHotstuff

namespace BFTDiagnosis.Pbft

open Components

variable {X : Externals} {me : Bytes}

/-- What the actuator of the node `me` calls on its protocol. -/
def behaviour (X : Externals) (me : Bytes) : Behaviour PBFTProtocol MessageType (Finset PeerId) Payload where
  call := call X me
  requestMessage request := .request request
  protocolReset p _ := p.protocolReset
  checkTakenRequest p request := p.checkTakenRequest request
  isLeader p := p.isLeader me

/-- The request comes in with the call. -/
def EntersWith (X : Externals) (c : Call MessageType (Finset PeerId)) (request : Request) : Prop :=
  proposedRequest c = some request ∨ receivedRequest X c = some request

instance EntersWith.decidable (X : Externals) (c : Call MessageType (Finset PeerId)) (request : Request) :
    Decidable (EntersWith X c request) :=
  inferInstanceAs (Decidable (_ ∨ _))

theorem taking : RequestLoop.Taking X.toPlatform (behaviour X me) (EntersWith X) false where
  call h taken := by
    simp only [behaviour, PBFTProtocol.checkTakenRequest, decide_eq_true_iff]
    exact mem_takenRequests_of_call h taken
  request request request' := by
    simp [behaviour, EntersWith, proposedRequest, receivedRequest, eq_comm]
  reset p drawn taken := (and_iff_right rfl).symm

end BFTDiagnosis.Pbft

namespace BFTDiagnosis.Protocols

open Components Hotstuff Utils

/-- In every reachable state of an actuator over chained HotStuff or PBFT that finds no next request, the refilled
buffer has one exactly when some request of the round has neither been received nor been proposed: since the last
reset of chained HotStuff, or since PBFT was created. -/
theorem refill_yields_iff (me : Bytes) :
    (∀ (X : ChainHotstuff.Externals) (faultToleranceCount : UInt64) (peerId : String) (isLeader : Bool)
      (run : List (Transition (RequestLoop ChainHotstuff.ChainHotstuffProtocol) _ (Option Request)))
      (s : RequestLoop ChainHotstuff.ChainHotstuffProtocol) (first : List (String × Request)),
      X.CollisionFree → Function.Injective X.requestBytes →
      IsRun (RequestLoop.step X.toPlatform (ChainHotstuff.behaviour X me))
        (.new (.new faultToleranceCount peerId) isLeader) run s →
      s.requestBuffer.Listing first →
      s.nextRequest X.toPlatform (ChainHotstuff.behaviour X me) first = none →
        (s.RefillYields X.toPlatform (ChainHotstuff.behaviour X me) ↔
          RequestLoop.FreshRound (fun c request ↦ ChainHotstuff.enteringRequest c = some request) true run
            s.round)) ∧
    ∀ (X : Pbft.Externals) (faultToleranceCount : UInt64) (keypair : Bytes) (isLeader : Bool)
      (run : List (Transition (RequestLoop Pbft.PBFTProtocol) _ (Option Request)))
      (s : RequestLoop Pbft.PBFTProtocol) (first : List (String × Request)),
      X.CollisionFree → Function.Injective X.requestBytes →
      IsRun (RequestLoop.step X.toPlatform (Pbft.behaviour X me))
        (.new (.new faultToleranceCount keypair) isLeader) run s →
      s.requestBuffer.Listing first →
      s.nextRequest X.toPlatform (Pbft.behaviour X me) first = none →
        (s.RefillYields X.toPlatform (Pbft.behaviour X me) ↔
          RequestLoop.FreshRound (Pbft.EntersWith X) false run s.round) := by
  constructor
  · intro X faultToleranceCount peerId isLeader run s first hX hbytes hrun hfirst hnone
    refine RequestLoop.refillYields_iff ChainHotstuff.taking hX hbytes (fun taken ↦ ?_) hrun hfirst hnone
    exact decide_eq_false (Finset.notMem_empty taken)
  · intro X faultToleranceCount keypair isLeader run s first hX hbytes hrun hfirst hnone
    refine RequestLoop.refillYields_iff Pbft.taking hX hbytes (fun taken ↦ ?_) hrun hfirst hnone
    exact decide_eq_false (Finset.notMem_empty taken)

/-! ## A leader that has seen the first round -/

theorem requestBytes_transparent_injective : Function.Injective Platform.transparent.requestBytes := by
  intro request request' h
  cases request
  cases request'
  exact congrArg Request.mk (Word.asBytes_injective h)

/-- What a node of chained HotStuff reacts to. -/
abbrev ChainEvent := RequestLoop.Event (ChainHotstuff.MessageType × List (Bytes × ConsensusNodePKInfo)) InitialStart

/-- What a PBFT node reacts to. -/
abbrev PbftEvent := RequestLoop.Event Pbft.MessageType (Finset PeerId)

abbrev chainStep := RequestLoop.step Platform.transparent (ChainHotstuff.behaviour .transparent [1])

abbrev pbftStep := RequestLoop.step Platform.transparent (Pbft.behaviour .transparent [1])

/-- Two nodes, of which the second one leads the first view. -/
def twoNodes : List (Bytes × ConsensusNodePKInfo) := [([2], ⟨0, []⟩), ([1], ⟨1, []⟩)]

/-- A node of chained HotStuff that receives proposals of another leader for the first requests of the first round,
one for each view, before it learns that it leads. -/
def lateLeader (count : ℕ) : List ChainEvent :=
  .protocolStart "" :: ((List.range count).map fun i ↦ .call (.consensusProtocolMessageHandler
    (.generic ⟨UInt64.ofNat (i + 1), some ⟨(refillRequest 1 i).cmd, "", none⟩, none, [2]⟩, []))) ++
    [.call (.consensusProtocolMessageHandler (.consensusNodePKsInfo twoNodes, twoNodes)), .stateCheck]

/-- A PBFT node that receives PrePrepares for the first requests of the first round before it becomes the primary. -/
def latePrimary (count : ℕ) : List PbftEvent :=
  .protocolStart "" :: ((List.range count).map fun i ↦ .call (.consensusProtocolMessageHandler
    (.prePrepare ⟨0, UInt64.ofNat (i + 1), "", Pbft.Externals.transparent.requestJson (refillRequest 1 i), [],
      [2]⟩))) ++
    [.call (.extraInitialStart {[1], [2]}), .stateCheck]

/-- After one proposal, the refill of both nodes yields a request. -/
theorem refill_yields_afterOne :
    (final chainStep (.new (.new 1 "") false) (lateLeader 1)).RefillYields Platform.transparent
        (ChainHotstuff.behaviour .transparent [1]) ∧
      (final pbftStep (.new (.new 1 [1]) false) (latePrimary 1)).RefillYields Platform.transparent
        (Pbft.behaviour .transparent [1]) := by
  constructor
  · exact ((refill_yields_iff [1]).1 .transparent 1 "" false _ _ [] Platform.collisionFree_transparent
      requestBytes_transparent_injective (.of_isSome (by decide +kernel)) (by decide +kernel)
      (by decide +kernel)).2 ⟨by decide +kernel, 1, by decide, by decide +kernel⟩
  · exact ((refill_yields_iff [1]).2 .transparent 1 [1] false _ _ [] Platform.collisionFree_transparent
      requestBytes_transparent_injective (.of_isSome (by decide +kernel)) (by decide +kernel)
      (by decide +kernel)).2 ⟨by decide +kernel, 1, by decide, by decide +kernel⟩

/-- The node is about to propose, its buffer is empty, and every request of its round is taken. -/
def Exhausted {π μ ι ρ : Type} (B : Behaviour π μ ι ρ) (s : RequestLoop π) : Prop :=
  s.consensusNotify = true ∧ s.requestBuffer.Listing [] ∧
    ∀ i < 50, B.checkTakenRequest s.protocol (Platform.transparent.requestBytes (refillRequest s.round i)) = true

instance Exhausted.decidable {π μ ι ρ : Type} (B : Behaviour π μ ι ρ) (s : RequestLoop π) :
    Decidable (Exhausted B s) :=
  inferInstanceAs (Decidable (_ ∧ _ ∧ _))

theorem Exhausted.not_refillYields {π μ ι ρ : Type} {B : Behaviour π μ ι ρ} {s : RequestLoop π} (h : Exhausted B s) :
    s.nextRequest Platform.transparent B [] = none ∧ ¬ s.RefillYields Platform.transparent B := by
  refine ⟨rfl, fun hyields ↦ ?_⟩
  obtain ⟨-, i, hi, hfree⟩ := (RequestLoop.refillYields_iff_of_none Platform.collisionFree_transparent
    requestBytes_transparent_injective h.2.1 rfl).1 hyields
  rw [h.2.2 i hi] at hfree
  cases hfree

/-- Events that lead a running node there, evaluated once. -/
theorem exists_run_of_exhausted {π μ ι ρ : Type} {B : Behaviour π μ ι ρ} {initial : RequestLoop π}
    {events : List (RequestLoop.Event μ ι)}
    (h : (exec (RequestLoop.step Platform.transparent B) initial events).any
      (fun result ↦ decide (result.2.running = true ∧ Exhausted B result.2)) = true) :
    ∃ run s, IsRun (RequestLoop.step Platform.transparent B) initial run s ∧ s.running = true ∧
      s.consensusNotify = true ∧ s.requestBuffer.Listing [] ∧ s.nextRequest Platform.transparent B [] = none ∧
      ¬ s.RefillYields Platform.transparent B := by
  obtain ⟨⟨run, s⟩, hexec, htest⟩ := (Option.any_eq_true _ _).1 h
  obtain ⟨hrunning, hexhausted⟩ := of_decide_eq_true htest
  exact ⟨run, s, .of_exec hexec, hrunning, hexhausted.1, hexhausted.2.1, hexhausted.not_refillYields⟩

/-- After fifty proposals, both nodes are about to take the branch of `consensus_notify`, their buffer is empty, and
the refill yields no request. -/
theorem not_refill_yields_afterFifty :
    (∃ run s, IsRun chainStep (.new (.new 1 "") false) run s ∧ s.running = true ∧ s.consensusNotify = true ∧
      s.requestBuffer.Listing [] ∧
      s.nextRequest Platform.transparent (ChainHotstuff.behaviour .transparent [1]) [] = none ∧
      ¬ s.RefillYields Platform.transparent (ChainHotstuff.behaviour .transparent [1])) ∧
    ∃ run s, IsRun pbftStep (.new (.new 1 [1]) false) run s ∧ s.running = true ∧ s.consensusNotify = true ∧
      s.requestBuffer.Listing [] ∧ s.nextRequest Platform.transparent (Pbft.behaviour .transparent [1]) [] = none ∧
      ¬ s.RefillYields Platform.transparent (Pbft.behaviour .transparent [1]) := by
  constructor
  · have hreached : (exec chainStep (.new (.new 1 "") false) (lateLeader 50)).any
        (fun result ↦ decide (result.2.running = true ∧
          Exhausted (ChainHotstuff.behaviour .transparent [1]) result.2)) = true := by decide +kernel
    exact exists_run_of_exhausted hreached
  · have hreached : (exec pbftStep (.new (.new 1 [1]) false) (latePrimary 50)).any
        (fun result ↦ decide (result.2.running = true ∧
          Exhausted (Pbft.behaviour .transparent [1]) result.2)) = true := by decide +kernel
    exact exists_run_of_exhausted hreached

end BFTDiagnosis.Protocols
