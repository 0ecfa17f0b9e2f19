import BFTDiagnosis.BasicHotstuff.VoteCollection

/-!
# What a replica signs

A replica should vote in its own view only, and in each phase of a view for one block. Each voting
handler takes the view it signs from the message: `handle_prepare` compares it with nothing, and
`handle_precommit` and `handle_commit` check the view of the QC but sign the view of the message
around it. Nothing remembers which block was voted for. The discipline therefore holds for the runs
whose accepted messages carry the current view and do not contradict each other, and two proposals
are enough to break both halves of it.
-/

namespace BFTDiagnosis.BasicHotstuff

open Components Utils Word Hotstuff BasicHotstuffProtocol

variable {X : Externals}

/-- The phase, the view and the block of every vote that an answer carries. -/
def signedVotes (out : Answer) : List (Phase × UInt64 × Block) :=
  (sentMessages out).filterMap fun msg ↦ msg.vote.map fun entry ↦
    (entry.1, entry.2.viewNum, entry.2.block)

/-- The phase, the view and the block that an accepted message asks a vote for: the fields of a
Prepare that passes its checks, or the view of a PreCommit or Commit and the block of its QC. -/
def acceptedProposal (X : Externals) (p : BasicHotstuffProtocol) :
    Event → Option (Phase × UInt64 × Block)
  | .message (.prepare msg) _ =>
    if p.checkPrepare X msg = true ∧ p.keypair.isSome = true then
      some (.prepare, msg.viewNum, msg.block)
    else none
  | .message (.preCommit msg) _ =>
    (p.checkQC X .prepare msg.justify).join.map fun qc ↦ (.preCommit, msg.viewNum, qc.block)
  | .message (.commit msg) _ =>
    (p.checkQC X .preCommit msg.justify).join.map fun qc ↦ (.commit, msg.viewNum, qc.block)
  | _ => none

theorem notMem_signedVotes_of_housekeeping {out : Answer} {entry : Phase × UInt64 × Block}
    (h : ∀ msg ∈ sentMessages out, Housekeeping msg) : entry ∉ signedVotes out := by
  have hnone : signedVotes out = [] := by
    apply filterMap_sentMessages_eq_nil _ h
    intro msg hmsg
    cases hmsg <;> rfl
  rw [hnone]
  exact List.not_mem_nil

/-- The vote that a voting handler sends, if the replica has a key. -/
theorem mem_signedVotes_of_sendVote {p : BasicHotstuffProtocol} {me : Bytes} {phase : Phase}
    {viewNum : UInt64} {block : Block} {out : Answer}
    (h : p.sendVote X me phase viewNum block = some out) {entry : Phase × UInt64 × Block} :
    entry ∈ signedVotes out ↔ p.keypair.isSome = true ∧ entry = (phase, viewNum, block) := by
  rcases sendVote_cases h with ⟨hnone, rfl⟩ | ⟨keypair, leader, vote, hsome, rfl, rfl, -, -, rfl⟩
  · rw [hnone]
    exact iff_of_false List.not_mem_nil fun hboth ↦ Bool.noConfusion hboth.1
  · have hvote : signedVotes (.continueExecute [.unicast leader (.message ⟨phase.voteMessage vote⟩)]) =
        [(phase, vote.viewNum, vote.block)] := by
      cases phase <;> rfl
    rw [hvote, List.mem_singleton, hsome, Option.isSome_some, and_iff_right rfl]

/-- A replica signs what the accepted message asks for, and nothing else. -/
theorem step_signedVotes {p p' : BasicHotstuffProtocol} {me : Bytes} {event : Event} {out : Answer}
    (h : step X me p event = some (p', out)) {entry : Phase × UInt64 × Block}
    (hentry : entry ∈ signedVotes out) : acceptedProposal X p event = some entry := by
  cases step_effect h with
  | prepare msg order answer haccepted hvoted =>
    obtain ⟨hkey, rfl⟩ := (mem_signedVotes_of_sendVote hvoted).1 hentry
    exact if_pos ⟨haccepted, hkey⟩
  | preCommit msg order qc answer haccepted hvoted =>
    obtain ⟨-, rfl⟩ := (mem_signedVotes_of_sendVote hvoted).1 hentry
    rw [acceptedProposal, haccepted]
    rfl
  | commit msg order qc answer haccepted hvoted =>
    obtain ⟨-, rfl⟩ := (mem_signedVotes_of_sendVote hvoted).1 hentry
    rw [acceptedProposal, haccepted]
    rfl
  | decide msg order qc primary queue haccepted hview hqueue =>
    have hnone := @notMem_signedVotes_of_housekeeping _ entry (housekeeping_of_newviews hqueue)
    exact absurd hentry hnone
  | commitQuorum vote order pkInfo share signature primary queue hverified hquorum hview hqueue =>
    have hnone := @notMem_signedVotes_of_housekeeping _ entry (housekeeping_of_newviews hqueue)
    exact absurd hentry hnone
  | consensusNodePKsInfo entries order nodes primary queue hview hqueue =>
    exact absurd hentry (notMem_signedVotes_of_housekeeping (housekeeping_of_newviews hqueue))
  | viewTimeout timeout primary queue hview hqueue =>
    exact absurd hentry (notMem_signedVotes_of_housekeeping (housekeeping_of_newviews hqueue))
  | initialStart nodes randomness order pkOrder keypair numbers primary queue hown hview hqueue =>
    exact absurd hentry (notMem_signedVotes_of_housekeeping (housekeeping_of_distribution hqueue))
  | _ => cases hentry

/-- A replica signs every vote that an accepted message asks for. -/
theorem mem_signedVotes_of_acceptedProposal {p p' : BasicHotstuffProtocol} {me : Bytes} {event : Event}
    {out : Answer} (h : step X me p event = some (p', out)) {entry : Phase × UInt64 × Block}
    (hentry : acceptedProposal X p event = some entry) : entry ∈ signedVotes out := by
  unfold acceptedProposal at hentry
  split at hentry
  case h_1 msg order =>
    split at hentry
    case isFalse => cases hentry
    case isTrue hchecked =>
      obtain rfl := Option.some.inj hentry
      have hhandled : p.handlePrepare X msg me = some (p', out) := h
      rw [handlePrepare, if_pos hchecked.1] at hhandled
      obtain ⟨answer, hvoted, hrest⟩ := Option.bind_eq_some_iff.1 hhandled
      obtain ⟨-, rfl⟩ := Prod.mk.inj (Option.some.inj hrest)
      exact (mem_signedVotes_of_sendVote hvoted).2 ⟨hchecked.2, rfl⟩
  case h_2 msg order =>
    obtain ⟨qc, hjoin, rfl⟩ := Option.map_eq_some_iff.1 hentry
    have hchecked := Option.join_eq_some_iff.1 hjoin
    have hhandled : p.handlePrecommit X msg me = some (p', out) := h
    simp only [handlePrecommit, hchecked, bind, pure, Option.bind_some, Option.bind_eq_some_iff,
      Option.some.injEq, Prod.mk.injEq] at hhandled
    obtain ⟨answer, hvoted, -, rfl⟩ := hhandled
    obtain ⟨keypair, signature, hkey, -⟩ := (checkQC_eq_some hchecked).2.signed
    exact (mem_signedVotes_of_sendVote hvoted).2 ⟨Option.isSome_of_eq_some hkey, rfl⟩
  case h_3 msg order =>
    obtain ⟨qc, hjoin, rfl⟩ := Option.map_eq_some_iff.1 hentry
    have hchecked := Option.join_eq_some_iff.1 hjoin
    have hhandled : p.handleCommit X msg me = some (p', out) := h
    simp only [handleCommit, hchecked, bind, pure, Option.bind_some, Option.bind_eq_some_iff,
      Option.some.injEq, Prod.mk.injEq] at hhandled
    obtain ⟨answer, hvoted, -, rfl⟩ := hhandled
    obtain ⟨keypair, signature, hkey, -⟩ := (checkQC_eq_some hchecked).2.signed
    exact (mem_signedVotes_of_sendVote hvoted).2 ⟨Option.isSome_of_eq_some hkey, rfl⟩
  case h_4 => cases hentry

/-! ## The discipline and its condition -/

/-- Every vote is for the view the replica is in, and for each phase and view for one block. -/
structure VoteDiscipline (run : HotstuffRun) : Prop where
  inView : ∀ t ∈ run, ∀ vote ∈ signedVotes t.out, vote.2.1 = t.pre.state.view
  oneBlock : ∀ t ∈ run, ∀ vote ∈ signedVotes t.out, ∀ t' ∈ run, ∀ vote' ∈ signedVotes t'.out,
    vote.1 = vote'.1 → vote.2.1 = vote'.2.1 → vote.2.2 = vote'.2.2

/-- The `view_num` of an accepted Prepare, PreCommit or Commit is the view of the replica. -/
def CarriesView (X : Externals) (t : Transition BasicHotstuffProtocol Event Answer) : Prop :=
  ∀ proposal ∈ acceptedProposal X t.pre t.event, proposal.2.1 = t.pre.state.view

/-- Two accepted messages of one kind and view are about one block. -/
def Consistent (X : Externals) (t t' : Transition BasicHotstuffProtocol Event Answer) : Prop :=
  ∀ proposal ∈ acceptedProposal X t.pre t.event, ∀ proposal' ∈ acceptedProposal X t'.pre t'.event,
    proposal.1 = proposal'.1 → proposal.2.1 = proposal'.2.1 → proposal.2.2 = proposal'.2.2

/-- A replica votes with discipline exactly in the runs whose accepted messages carry its view and
do not contradict each other. -/
theorem voteDiscipline_iff_consistent {me : Bytes} {f : UInt64} {peerId : String} {run : HotstuffRun}
    {p : BasicHotstuffProtocol} (hrun : IsRun (step X me) (BasicHotstuffProtocol.new f peerId) run p) :
    VoteDiscipline run ↔
      (∀ t ∈ run, CarriesView X t) ∧ ∀ t ∈ run, ∀ t' ∈ run, Consistent X t t' := by
  have hsigned (t : Transition BasicHotstuffProtocol Event Answer) (ht : t ∈ run)
      (vote : Phase × UInt64 × Block) :
      vote ∈ signedVotes t.out ↔ vote ∈ acceptedProposal X t.pre t.event :=
    ⟨step_signedVotes (hrun.taken t ht), mem_signedVotes_of_acceptedProposal (hrun.taken t ht)⟩
  constructor
  · intro h
    refine ⟨?_, ?_⟩
    · intro t ht vote hvote
      exact h.inView t ht vote ((hsigned t ht vote).2 hvote)
    · intro t ht t' ht' vote hvote vote' hvote'
      exact h.oneBlock t ht vote ((hsigned t ht vote).2 hvote) t' ht' vote'
        ((hsigned t' ht' vote').2 hvote')
  · rintro ⟨hview, hconsistent⟩
    refine ⟨?_, ?_⟩
    · intro t ht vote hvote
      exact hview t ht vote ((hsigned t ht vote).1 hvote)
    · intro t ht vote hvote t' ht' vote' hvote'
      exact hconsistent t ht t' ht' vote ((hsigned t ht vote).1 hvote) vote'
        ((hsigned t' ht' vote').1 hvote')

instance CarriesView.decidable (X : Externals) (t : Transition BasicHotstuffProtocol Event Answer) :
    Decidable (CarriesView X t) :=
  inferInstanceAs (Decidable (∀ proposal ∈ acceptedProposal X t.pre t.event, _ = _))

instance Consistent.decidable (X : Externals) (t t' : Transition BasicHotstuffProtocol Event Answer) :
    Decidable (Consistent X t t') :=
  inferInstanceAs (Decidable (∀ proposal ∈ acceptedProposal X t.pre t.event,
    ∀ proposal' ∈ acceptedProposal X t'.pre t'.event, _ → _ → _ = _))

/-- The key of one of the four nodes, as it receives it. -/
def fourKeyEvents (node : Fin 4) : List Event :=
  (fourKeys[node.val]?.map fun key ↦ Event.message (.tblsKey key.tblsKey) []).toList

/-- The QC of a phase, combined from the shares of the given nodes. -/
def fourQC (phase : Phase) (viewNum : UInt64) (block : Block) (nodes : List (Fin 4)) : QC :=
  { msgType := phase.code
    viewNum := viewNum
    block := block
    signature := Externals.transparent.combineSignatures [1, 7]
      (HashMap.ofEntries (nodes.filterMap fun node ↦
        (fourVote phase viewNum block node).partialSignature.map (UInt64.ofNat node, ·))) }

def proposal (viewNum : UInt64) (cmd : String) : Event :=
  .message (.prepare
    { viewNum := viewNum, block := { cmd := cmd, parentHash := "" }, justify := none,
      fromPeerId := [1] }) []

/-- One view of a replica: a proposal and the two certificates that follow it. -/
def disciplinedEvents : List Event :=
  fourKeyEvents 1 ++
    [.message (.consensusNodePKsInfo (fourKeys.map pkInfoOf)) (fourKeys.map pkInfoOf), proposal 1 "a",
      .message (.preCommit
        { viewNum := 1, justify := some (fourQC .prepare 1 genesisBlock [0, 1, 2]) }) [],
      .message (.commit
        { viewNum := 1, justify := some (fourQC .preCommit 1 genesisBlock [0, 1, 2]) }) []]

theorem voteDiscipline_iff_consistent_four :
    ∃ run p, IsRun (step .transparent [2]) (BasicHotstuffProtocol.new 1 "") run p ∧
      run.flatMap (signedVotes ·.out) = [(.prepare, 1, genesisBlock), (.preCommit, 1, genesisBlock),
        (.commit, 1, genesisBlock)] ∧
      (∀ t ∈ run, CarriesView .transparent t) ∧
      (∀ t ∈ run, ∀ t' ∈ run, Consistent .transparent t t') ∧ VoteDiscipline run := by
  have hrun : IsRun (step .transparent [2]) (BasicHotstuffProtocol.new 1 "")
      (transitions (step .transparent [2]) (BasicHotstuffProtocol.new 1 "") disciplinedEvents) _ :=
    .of_isSome (by decide +kernel)
  have hview : ∀ t ∈ transitions (step .transparent [2]) (BasicHotstuffProtocol.new 1 "")
      disciplinedEvents, CarriesView .transparent t := by decide +kernel
  have hconsistent : ∀ t ∈ transitions (step .transparent [2]) (BasicHotstuffProtocol.new 1 "")
      disciplinedEvents, ∀ t' ∈ transitions (step .transparent [2]) (BasicHotstuffProtocol.new 1 "")
      disciplinedEvents, Consistent .transparent t t' := by decide +kernel
  exact ⟨_, _, hrun, by decide +kernel, hview, hconsistent,
    (voteDiscipline_iff_consistent hrun).2 ⟨hview, hconsistent⟩⟩

/-- Two proposals of a view the replica is not in. -/
def undisciplinedEvents : List Event := fourKeyEvents 1 ++ [proposal 5 "a", proposal 5 "b"]

/-- The replica signs votes of a view it is not in, and for two blocks. -/
theorem not_voteDiscipline_of_two_proposals :
    ∃ run p, IsRun (step .transparent [2]) (BasicHotstuffProtocol.new 1 "") run p ∧
      (¬ ∀ t ∈ run, ∀ vote ∈ signedVotes t.out, vote.2.1 = t.pre.state.view) ∧
      (¬ ∀ t ∈ run, ∀ vote ∈ signedVotes t.out, ∀ t' ∈ run, ∀ vote' ∈ signedVotes t'.out,
        vote.1 = vote'.1 → vote.2.1 = vote'.2.1 → vote.2.2 = vote'.2.2) ∧ ¬ VoteDiscipline run := by
  have hrun : IsRun (step .transparent [2]) (BasicHotstuffProtocol.new 1 "")
      (transitions (step .transparent [2]) (BasicHotstuffProtocol.new 1 "") undisciplinedEvents) _ :=
    .of_isSome (by decide +kernel)
  have hotherView : ¬ ∀ t ∈ transitions (step .transparent [2]) (BasicHotstuffProtocol.new 1 "")
      undisciplinedEvents, ∀ vote ∈ signedVotes t.out, vote.2.1 = t.pre.state.view := by
    decide +kernel
  exact ⟨_, _, hrun, hotherView, by decide +kernel, fun h ↦ hotherView h.inView⟩

end BFTDiagnosis.BasicHotstuff
