import BFTDiagnosis.BasicHotstuff.Agreement

/-!
# How many nodes a view of Basic HotStuff needs

A leader broadcasts its proposal and waits for `2 * fault_tolerance_count + 1` votes. It does not vote itself: a
broadcast does not return to its sender, and `handle_request` sends nothing but the Prepare. So the votes have to
come from as many other nodes, one more than what is left of `3 * f + 1` nodes when `f` of them are down.

Only the active nodes take part. They run the code, proposals and certificates that are delivered have been sent by
another of them, and requests go to the leader of the view. Votes, NewViews and the other messages are arbitrary up
to what the threshold scheme excludes.
-/

namespace BFTDiagnosis.BasicHotstuff

open Components Utils Word Hotstuff BasicHotstuffProtocol

variable {X : Externals} {ι : Type} [DecidableEq ι]

/-! ## The network -/

def Action.isRequest : Action → Bool
  | .call (.message (.request _) _) => true
  | _ => false

/-- Proposals and certificates, the messages that a leader broadcasts. -/
def MessageType.isBroadcast : MessageType → Bool
  | .prepare _ => true
  | .preCommit _ => true
  | .commit _ => true
  | .decide _ => true
  | _ => false

/-- Deliveries to active nodes, with the leaders of the views. -/
structure Genuine [Fintype ι] (X : Externals) (D : Distribution ι) (active : Finset ι) (leader : UInt64 → ι)
    (w : HotstuffWorld ι) (delivery : ι × Action) : Prop where
  environment : Environment X D w delivery
  active : delivery.1 ∈ active
  runs : delivery.2.isSign = false
  toLeader : delivery.2.isRequest = true → delivery.1 = leader (w.nodes delivery.1).state.view
  sent : ∀ msg ∈ delivery.2.messages, msg.isBroadcast = true →
    ∃ entry ∈ w.history, entry.1 ≠ delivery.1 ∧ msg ∈ sentMessages entry.2.out

/-- Only a request is answered with a Prepare, of the view of the node. -/
theorem step_sent_prepare {p p' : BasicHotstuffProtocol} {me : Bytes} {event : Event} {out : Answer} {msg : Prepare}
    (h : step X me p event = some (p', out)) (hsent : .prepare msg ∈ sentMessages out) :
    (Action.call event).isRequest = true ∧ msg.viewNum = p.state.view := by
  have hhousekeeping {out : Answer} (hall : ∀ msg ∈ sentMessages out, Housekeeping msg) :
      .prepare msg ∉ sentMessages out := by
    intro hmem
    cases hall _ hmem
  have hvote {p : BasicHotstuffProtocol} {answer : Answer} {phase : Phase} {viewNum : UInt64} {block : Block}
      (hvoted : p.sendVote X me phase viewNum block = some answer) : .prepare msg ∉ sentMessages answer := by
    rcases sendVote_cases hvoted with ⟨-, rfl⟩ | ⟨keypair, leader, vote, -, -, -, -, -, rfl⟩
    · exact List.not_mem_nil
    · cases phase <;> simp [sentMessages, SendType.payloads, Phase.voteMessage]
  cases step_effect h with
  | request request order =>
    refine ⟨rfl, ?_⟩
    simp only [handleRequest, sentMessages, PhaseState.queue, SendType.payloads, List.flatMap_cons, List.flatMap_nil,
      List.append_nil, List.filterMap_cons, List.filterMap_nil, List.mem_singleton, MessageType.prepare.injEq] at hsent
    rw [hsent]
  | prepare msg' order answer haccepted hvoted => exact absurd hsent (hvote hvoted)
  | preCommit msg' order qc answer haccepted hvoted => exact absurd hsent (hvote hvoted)
  | commit msg' order qc answer haccepted hvoted => exact absurd hsent (hvote hvoted)
  | decide msg' order qc primary queue haccepted hview hqueue =>
    exact absurd hsent (hhousekeeping (housekeeping_of_newviews hqueue))
  | commitQuorum vote order pkInfo share signature primary queue hverified hquorum hview hqueue =>
    have hrest : .prepare msg ∈ sentMessages (.continueExecute queue) := by
      simpa [sentMessages, SendType.payloads] using hsent
    exact absurd hrest (hhousekeeping (housekeeping_of_newviews hqueue))
  | consensusNodePKsInfo entries order nodes primary queue hview hqueue =>
    exact absurd hsent (hhousekeeping (housekeeping_of_newviews hqueue))
  | viewTimeout timeout primary queue hview hqueue =>
    exact absurd hsent (hhousekeeping (housekeeping_of_newviews hqueue))
  | initialStart nodes randomness order pkOrder keypair numbers primary queue hown hview hqueue =>
    exact absurd hsent (hhousekeeping (housekeeping_of_distribution hqueue))
  | _ => simp [sentMessages, silent, emptyBroadcast, SendType.payloads] at hsent

section Run

variable [Fintype ι] {D : Distribution ι} {active : Finset ι} {leader : UInt64 → ι}
  {nodes : ι → BasicHotstuffProtocol} {w : HotstuffWorld ι} {i : ι}
  (hreach : World.Reachable (nodeStep X D) (Genuine X D active leader) (.start nodes) w)
include hreach

variable (hfresh : Fresh D nodes)
include hfresh

end Run

/-! ## Three of four nodes -/

instance Genuine.decidable [Fintype ι] (D : Distribution ι) (active : Finset ι) (leader : UInt64 → ι)
    (w : HotstuffWorld ι) (delivery : ι × Action) : Decidable (Genuine X D active leader w delivery) :=
  decidable_of_iff
    (Environment X D w delivery ∧ delivery.1 ∈ active ∧ delivery.2.isSign = false ∧
      (delivery.2.isRequest = true → delivery.1 = leader (w.nodes delivery.1).state.view) ∧
      ∀ msg ∈ delivery.2.messages, msg.isBroadcast = true →
        ∃ entry ∈ w.history, entry.1 ≠ delivery.1 ∧ msg ∈ sentMessages entry.2.out)
    ⟨fun h ↦ ⟨h.1, h.2.1, h.2.2.1, h.2.2.2.1, h.2.2.2.2⟩, fun h ↦ ⟨h.1, h.2, h.3, h.4, h.5⟩⟩

/-- What the leader of the first view proposes on a request. -/
def firstDelivery : Action :=
  .call (.message (.prepare { viewNum := 1, block := genesisBlock, justify := none, fromPeerId := [2] }) [])

/-- The leader of the first view proposes, and the two other active nodes vote for its block. -/
def threeActive : List (Fin 4 × Action) :=
  joinDeliveries 0 ++ joinDeliveries 1 ++ joinDeliveries 2 ++
    [(1, .call (.message (.request { cmd := "a" }) [])), (0, firstDelivery), (2, firstDelivery),
      (1, .call (fourVoteEvent .prepare 0)), (1, .call (fourVoteEvent .prepare 2))]

end BFTDiagnosis.BasicHotstuff
