import BFTDiagnosis.NonAuthPbft.TakenRequests
import BFTDiagnosis.Pbft.TakenRequests

/-!
# Requests that are not proposed again

An actuator proposes the next request of its buffer that the protocol has not taken. What the protocol takes it
stores under an encoding of its own choice, and the actuator asks for the bincode form. PBFT stores this form
always; without authentication, the node stores the JSON form of what it accepts in a PrePrepare, and does not
recognize it in its own buffer.
-/

namespace BFTDiagnosis.Protocols

open Components Utils Word

/-- After every call of a run, no request that has entered the node so far is the next one, whatever is buffered
and in whatever order. -/
def NeverAgain {σ ε ο : Type} (X : Platform) (checkTakenRequest : σ → Bytes → Bool)
    (entered : Transition σ ε ο → Request → Prop) (run : List (Transition σ ε ο)) : Prop :=
  ∀ before t after, run = before ++ t :: after → ∀ t' ∈ before ++ [t], ∀ request, entered t' request →
    ∀ entries, nextRequest X (checkTakenRequest t.post) entries ≠ some request

/-- The request is proposed by the node, or accepted by it in a PrePrepare. -/
def EntersPbft (X : Pbft.Externals)
    (t : Transition Pbft.PBFTProtocol (Call Pbft.MessageType (Finset PeerId)) (Response Pbft.Payload))
    (request : Request) : Prop :=
  Pbft.proposedRequest t.event = some request ∨ Pbft.acceptedProposal X t.pre t.event = some request

/-- A transition of a node without authentication. -/
abbrev NonAuthTransition :=
  Transition NonAuthPbft.NonAuthPBFTProtocol (Call NonAuthPbft.MessageType (Finset PeerId))
    (Response NonAuthPbft.ConsensusMessage)

def EntersNonAuth (X : Pbft.Externals) (t : NonAuthTransition) (request : Request) : Prop :=
  NonAuthPbft.proposedRequest t.event = some request ∨ NonAuthPbft.acceptedProposal X t.pre t.event = some request

/-- Every request that the call accepts in a PrePrepare has been proposed by the node before, or its bincode form
is the JSON form of a request that the node has received in a PrePrepare by then. -/
def ProposedBefore (X : Pbft.Externals) (before : List NonAuthTransition) (t : NonAuthTransition) : Prop :=
  ∀ request ∈ NonAuthPbft.acceptedProposal X t.pre t.event,
    (∃ t' ∈ before, NonAuthPbft.proposedRequest t'.event = some request) ∨
      ∃ t' ∈ before ++ [t], ∃ request' ∈ NonAuthPbft.receivedRequest X t'.event,
        X.requestJson request' = X.requestBytes request

variable {X : Pbft.Externals} {me : Bytes}

/-- A PBFT node takes every request that enters it. -/
theorem neverAgain_pbft {faultToleranceCount : UInt64} {keypair : Bytes}
    {run : List (Transition Pbft.PBFTProtocol (Call Pbft.MessageType (Finset PeerId)) (Response Pbft.Payload))}
    {p : Pbft.PBFTProtocol} (h : IsRun (Pbft.call X me) (.new faultToleranceCount keypair) run p) :
    NeverAgain X.toPlatform Pbft.PBFTProtocol.checkTakenRequest (EntersPbft X) run := by
  intro before t after hsplit t' ht' request henters
  have hrun : IsRun (Pbft.call X me) (.new faultToleranceCount keypair) (before ++ [t]) t.post := by
    obtain ⟨hbefore, htaken⟩ := h.before hsplit
    exact .snoc hbefore htaken
  have hmem : X.requestBytes request ∈ t.post.takenRequests := by
    refine (Pbft.mem_takenRequests_iff hrun _).2 ⟨t', ht', request, ?_, rfl⟩
    exact henters.imp_right Pbft.receivedRequest_of_acceptedProposal
  exact nextRequest_ne_some_iff.2 (decide_eq_true hmem)

section NonAuth

variable {faultToleranceCount : UInt64} {run : List NonAuthTransition} {p : NonAuthPbft.NonAuthPBFTProtocol}

theorem proposedRequest_of_acceptedProposal {c : Call NonAuthPbft.MessageType (Finset PeerId)} {request : Request}
    (h : NonAuthPbft.acceptedProposal X p c = some request) :
    NonAuthPbft.proposedRequest c = none ∧ NonAuthPbft.receivedRequest X c = some request := by
  unfold NonAuthPbft.acceptedProposal at h
  split at h
  · split at h
    · exact ⟨rfl, h⟩
    · cases h
  · cases h

/-- A request is never the next one exactly when the node has proposed it, or the bytes are those of another
encoding. -/
theorem never_next_iff (hbytes : Function.Injective X.requestBytes)
    (h : IsRun (NonAuthPbft.call X me) (.new faultToleranceCount) run p) (request : Request) :
    (∀ entries, nextRequest X.toPlatform p.checkTakenRequest entries ≠ some request) ↔
      (∃ t ∈ run, NonAuthPbft.proposedRequest t.event = some request) ∨
        ∃ t ∈ run, ∃ request' ∈ NonAuthPbft.receivedRequest X t.event,
          X.requestJson request' = X.requestBytes request := by
  rw [nextRequest_ne_some_iff, NonAuthPbft.NonAuthPBFTProtocol.checkTakenRequest, decide_eq_true_iff,
    NonAuthPbft.mem_takenRequests_iff h]
  constructor
  · rintro ⟨t, ht, ⟨request', hproposed, heq⟩ | ⟨request', hreceived, heq⟩⟩
    · exact .inl ⟨t, ht, hbytes heq ▸ hproposed⟩
    · exact .inr ⟨t, ht, request', hreceived, heq⟩
  · rintro (⟨t, ht, hproposed⟩ | ⟨t, ht, request', hreceived, heq⟩)
    · exact ⟨t, ht, .inl ⟨request, hproposed, rfl⟩⟩
    · exact ⟨t, ht, .inr ⟨request', hreceived, heq⟩⟩

/-- Without authentication, the requests that enter a node are never the next ones exactly when the node has
proposed before whatever it accepts. -/
theorem neverAgain_nonAuth_iff (hbytes : Function.Injective X.requestBytes)
    (h : IsRun (NonAuthPbft.call X me) (.new faultToleranceCount) run p) :
    NeverAgain X.toPlatform NonAuthPbft.NonAuthPBFTProtocol.checkTakenRequest (EntersNonAuth X) run ↔
      ∀ before t after, run = before ++ t :: after → ProposedBefore X before t := by
  have hrun {before after : List NonAuthTransition} {t : NonAuthTransition} (hsplit : run = before ++ t :: after) :
      IsRun (NonAuthPbft.call X me) (.new faultToleranceCount) (before ++ [t]) t.post := by
    obtain ⟨hbefore, htaken⟩ := h.before hsplit
    exact .snoc hbefore htaken
  constructor
  · intro hnever before t after hsplit request haccepted
    obtain ⟨hnot, -⟩ := proposedRequest_of_acceptedProposal haccepted
    have htaken := hnever before t after hsplit t (List.mem_append_right _ (List.mem_singleton_self t)) request
      (.inr haccepted)
    refine ((never_next_iff hbytes (hrun hsplit) request).1 htaken).imp_left ?_
    rintro ⟨t', ht', hproposed⟩
    rcases List.mem_append.1 ht' with hearlier | hlast
    · exact ⟨t', hearlier, hproposed⟩
    · -- the call that accepts the request proposes nothing
      rw [List.mem_singleton.1 hlast, hnot] at hproposed
      cases hproposed
  · intro hcondition before t after hsplit t' ht' request henters
    refine (never_next_iff hbytes (hrun hsplit) request).2 ?_
    rcases henters with hproposed | haccepted
    · exact .inl ⟨t', ht', hproposed⟩
    · obtain ⟨first, rest, hfirst⟩ := List.append_of_mem ht'
      have hwhole : run = first ++ t' :: (rest ++ after) := by
        rw [hsplit, ← List.singleton_append, ← List.append_assoc, hfirst, List.append_assoc, List.cons_append]
      rcases hcondition first t' (rest ++ after) hwhole request haccepted with
        ⟨t'', ht'', hproposed⟩ | ⟨t'', ht'', request', hreceived, heq⟩
      · refine .inl ⟨t'', ?_, hproposed⟩
        rw [hfirst]
        exact List.mem_append_left _ ht''
      · refine .inr ⟨t'', ?_, request', hreceived, heq⟩
        rw [hfirst, ← List.singleton_append, ← List.append_assoc]
        exact List.mem_append_left _ ht''

end NonAuth

/-- In every run of a PBFT node, no request that the node has proposed or accepted is the next one of its actuator;
without authentication this holds exactly of the runs in which the node has proposed before whatever it accepts. -/
theorem taken_never_next_iff (X : Pbft.Externals) (hbytes : Function.Injective X.requestBytes) (me : Bytes)
    (faultToleranceCount : UInt64) :
    (∀ (keypair : Bytes)
      (run : List (Transition Pbft.PBFTProtocol (Call Pbft.MessageType (Finset PeerId)) (Response Pbft.Payload)))
      (p : Pbft.PBFTProtocol), IsRun (Pbft.call X me) (.new faultToleranceCount keypair) run p →
        NeverAgain X.toPlatform Pbft.PBFTProtocol.checkTakenRequest (EntersPbft X) run) ∧
    ∀ (run : List NonAuthTransition) (p : NonAuthPbft.NonAuthPBFTProtocol),
      IsRun (NonAuthPbft.call X me) (.new faultToleranceCount) run p →
        (NeverAgain X.toPlatform NonAuthPbft.NonAuthPBFTProtocol.checkTakenRequest (EntersNonAuth X) run ↔
          ∀ before t after, run = before ++ t :: after → ProposedBefore X before t) :=
  ⟨fun _ _ _ h ↦ neverAgain_pbft h, fun _ _ h ↦ neverAgain_nonAuth_iff hbytes h⟩

/-! ## Two runs -/

/-- The bincode form of a request: the length of the command, least significant byte first, and the command. -/
def bincode (request : Request) : Bytes :=
  (toBeBytes (UInt64.ofNat (asBytes request.cmd).length)).reverse ++ asBytes request.cmd

theorem bincode_injective : Function.Injective bincode := by
  intro request request' h
  obtain ⟨-, hcmd⟩ := List.append_inj h (by simp)
  cases request
  cases request'
  exact congrArg Request.mk (asBytes_injective hcmd)

/-- Externals on which runs can be evaluated, with the two encodings of a request as they are. -/
def encodings : Pbft.Externals := { Pbft.Externals.transparent with requestBytes := bincode }

/-- A PrePrepare for a request with number 1 in view 0. -/
def proposal (request : Request) : Call NonAuthPbft.MessageType (Finset PeerId) :=
  .consensusProtocolMessageHandler (.prePrepare
    ⟨0, 1, encodings.getHashStr (encodings.requestJson request), encodings.requestJson request, [2]⟩)

/-- A node that proposes a request and then receives its own PrePrepare back, as a primary does. -/
def ownProposal : List (Call NonAuthPbft.MessageType (Finset PeerId)) :=
  [.consensusProtocolMessageHandler (.request ⟨"a"⟩), proposal ⟨"a"⟩]

theorem taken_never_next_ownProposal :
    (transitions (NonAuthPbft.call encodings [2]) (.new 1) ownProposal).length = 2 ∧
      NeverAgain encodings.toPlatform NonAuthPbft.NonAuthPBFTProtocol.checkTakenRequest (EntersNonAuth encodings)
        (transitions (NonAuthPbft.call encodings [2]) (.new 1) ownProposal) := by
  refine ⟨by decide +kernel, (((taken_never_next_iff encodings bincode_injective [2] 1).2 _ _
    (.of_isSome (by decide +kernel))).2 ?_)⟩
  have hproposed := @forall_split_of_forall NonAuthTransition
    (transitions (NonAuthPbft.call encodings [2]) (.new 1) ownProposal)
    (fun before t ↦ ∀ request ∈ NonAuthPbft.acceptedProposal encodings t.pre t.event,
      ∃ t' ∈ before, NonAuthPbft.proposedRequest t'.event = some request) (by decide +kernel)
  exact fun before t after hsplit request haccepted ↦ .inl (hproposed before t after hsplit request haccepted)

/-- A replica that accepts one PrePrepare still proposes its request when it becomes the primary. -/
theorem not_taken_never_next :
    ∃ t : NonAuthTransition, IsRun (NonAuthPbft.call encodings [1]) (.new 1) [t] t.post ∧
      EntersNonAuth encodings t ⟨"a"⟩ ∧
      nextRequest encodings.toPlatform t.post.checkTakenRequest
        [(getRequestHash encodings.toPlatform ⟨"a"⟩, ⟨"a"⟩)] = some ⟨"a"⟩ ∧
      ¬ NeverAgain encodings.toPlatform NonAuthPbft.NonAuthPBFTProtocol.checkTakenRequest
        (EntersNonAuth encodings) [t] := by
  have hnext : (NonAuthPbft.call encodings [1] (.new 1) (proposal ⟨"a"⟩)).map (fun result ↦
      nextRequest encodings.toPlatform result.1.checkTakenRequest
        [(getRequestHash encodings.toPlatform ⟨"a"⟩, ⟨"a"⟩)]) = some (some ⟨"a"⟩) := by decide +kernel
  obtain ⟨⟨p, out⟩, htaken, hnext⟩ := Option.map_eq_some_iff.1 hnext
  have henters : EntersNonAuth encodings ⟨.new 1, proposal ⟨"a"⟩, out, p⟩ ⟨"a"⟩ :=
    .inr (show NonAuthPbft.acceptedProposal encodings (.new 1) (proposal ⟨"a"⟩) = some ⟨"a"⟩ by decide +kernel)
  refine ⟨_, .snoc .nil htaken, henters, hnext, fun hnever ↦ ?_⟩
  exact hnever [] _ [] rfl _ (List.mem_singleton_self _) _ henters _ hnext

end BFTDiagnosis.Protocols
