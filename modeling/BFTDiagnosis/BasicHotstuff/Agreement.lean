import BFTDiagnosis.BasicHotstuff.Certificates

/-!
# Agreement between Basic HotStuff replicas

No two correct replicas should decide different blocks in one view. The argument of the protocol goes
from a Decide down to the votes for a proposal: a commit QC has a correct signer, which accepted a
pre-commit QC, which has a correct signer, which accepted a prepare QC, and two prepare QCs of one
view share a correct signer. Three gaps in the handlers break it: a QC may stand for `f + 1` nodes
only, a PreCommit or Commit is signed for another view than the one of its QC, and a replica votes
for every proposal of a view. `Guarded` names them as a condition on what correct replicas accept.
-/

namespace BFTDiagnosis.BasicHotstuff

open Components Utils Word Hotstuff BasicHotstuffProtocol

variable {X : Externals} {ι : Type}

/-- The view and the block that a Decide completes. -/
def decided (t : Transition BasicHotstuffProtocol Action Answer) : Option (UInt64 × Block) :=
  match t.event, t.out with
  | .call (.message (.decide msg) _), .complete _ _ =>
    msg.justify.map fun qc ↦ (t.pre.state.view, qc.block)
  | _, _ => none

/-- Two correct replicas that decide in one view decide one block. -/
def Agreement (byzantine : Finset ι) (history : HotstuffHistory ι) : Prop :=
  ∀ entry ∈ history, entry.1 ∉ byzantine → ∀ entry' ∈ history, entry'.1 ∉ byzantine →
    ∀ view block block', decided entry.2 = some (view, block) →
      decided entry'.2 = some (view, block') → block = block'

/-- What a call asks a vote for. -/
def Action.proposal (X : Externals) (p : BasicHotstuffProtocol) : Action → Option (Phase × UInt64 × Block)
  | .call event => acceptedProposal X p event
  | .sign _ => none

/-- The votes that the replicas were asked for and cast. -/
def votes (X : Externals) (history : HotstuffHistory ι) : List (ι × Phase × UInt64 × Block) :=
  history.flatMap fun entry ↦ (entry.2.event.proposal X entry.2.pre).toList.map (entry.1, ·)

def Action.isSign : Action → Bool
  | .call _ => false
  | .sign _ => true

/-! ## The condition -/

section Conditions

variable [Fintype ι] [DecidableEq ι] (X : Externals) (D : Distribution ι) (byzantine : Finset ι)
  (w : HotstuffWorld ι) (delivery : ι × Action)

/-- The condition on what a correct replica accepts. -/
structure Guarded : Prop where
  /-- An accepted QC stands for `2 * f + 1` nodes. -/
  quorum : ∀ accepted ∈ acceptedQC X (w.nodes delivery.1) delivery.2, 2 * D.faultCount.toNat + 1 ≤
    (signers X w.history (voteHash X accepted.1 accepted.2.viewNum accepted.2.block)).card
  /-- An accepted PreCommit or Commit is of the view of its QC. -/
  sameView : ∀ accepted ∈ acceptedQC X (w.nodes delivery.1) delivery.2,
    ∀ proposal ∈ delivery.2.proposal X (w.nodes delivery.1), proposal.2.1 = accepted.2.viewNum
  /-- Two accepted Prepares of one view propose one block. -/
  onePrepare : ∀ proposal ∈ delivery.2.proposal X (w.nodes delivery.1),
    ∀ vote ∈ votes X w.history, vote.1 = delivery.1 → vote.2.1 = .prepare → proposal.1 = .prepare →
      vote.2.2.1 = proposal.2.1 → vote.2.2.2 = proposal.2.2

/-- Correct nodes run the code and nothing else. -/
def Honest : Prop := delivery.2.isSign = true → delivery.1 ∈ byzantine

/-- Deliveries of the theorem: ideal keys, honest correct nodes, and correct replicas are guarded. -/
structure GuardedDelivery : Prop where
  environment : Environment X D w delivery
  honest : Honest byzantine delivery
  guarded : delivery.1 ∉ byzantine → Guarded X D w delivery

end Conditions

/-! ## Votes and what they certify -/

/-- The phase whose QC a vote of a phase answers. -/
def Phase.previous : Phase → Option Phase
  | .prepare => none
  | .preCommit => some .prepare
  | .commit => some .preCommit

theorem exists_acceptedQC {p : BasicHotstuffProtocol} {event : Event} {phase previous : Phase}
    {viewNum : UInt64} {block : Block} (h : acceptedProposal X p event = some (phase, viewNum, block))
    (hprevious : phase.previous = some previous) :
    ∃ qc, acceptedQC X p (.call event) = some (previous, qc) ∧ qc.block = block := by
  unfold acceptedProposal at h
  split at h
  case h_1 =>
    split at h
    case isTrue =>
      obtain ⟨rfl, -⟩ := Prod.mk.inj (Option.some.inj h)
      cases hprevious
    case isFalse => cases h
  case h_2 msg order =>
    obtain ⟨qc, hchecked, hfields⟩ := Option.map_eq_some_iff.1 h
    simp only [Prod.mk.injEq] at hfields
    obtain ⟨rfl, -, rfl⟩ := hfields
    obtain rfl := Option.some.inj hprevious
    exact ⟨qc, by rw [acceptedQC, hchecked, Option.map_some], rfl⟩
  case h_3 msg order =>
    obtain ⟨qc, hchecked, hfields⟩ := Option.map_eq_some_iff.1 h
    simp only [Prod.mk.injEq] at hfields
    obtain ⟨rfl, -, rfl⟩ := hfields
    obtain rfl := Option.some.inj hprevious
    exact ⟨qc, by rw [acceptedQC, hchecked, Option.map_some], rfl⟩
  case h_4 => cases h

/-- A Decide completes its block after the checks of its QC. -/
theorem acceptedQC_of_complete {p p' : BasicHotstuffProtocol} {me : Bytes} {msg : Decide}
    {order : List (Bytes × ConsensusNodePKInfo)} {request : Request} {queue : List (SendType Payload)}
    (h : step X me p (.message (.decide msg) order) = some (p', .complete request queue)) :
    ∃ qc, acceptedQC X p (.call (.message (.decide msg) order)) = some (.commit, qc) ∧
      p.checkQC X .commit msg.justify = some (some qc) := by
  obtain ⟨checked, hchecked, hrest⟩ := Option.bind_eq_some_iff.1 h
  cases checked with
  | none => cases hrest
  | some qc => exact ⟨qc, by rw [acceptedQC, hchecked, Option.join_some, Option.map_some], hchecked⟩

theorem mem_votes {history : HotstuffHistory ι} {i : ι} {vote : Phase × UInt64 × Block} :
    (i, vote) ∈ votes X history ↔ ∃ t, (i, t) ∈ history ∧ t.event.proposal X t.pre = some vote := by
  simp only [votes, List.mem_flatMap, List.mem_map, Option.mem_toList, Prod.mk.injEq, Prod.exists]
  constructor
  · rintro ⟨j, t, ht, phase, view, block, hproposal, rfl, rfl⟩
    exact ⟨t, ht, hproposal⟩
  · rintro ⟨t, ht, hproposal⟩
    exact ⟨i, t, ht, vote.1, vote.2.1, vote.2.2, hproposal, rfl, rfl⟩

section Run

variable [Fintype ι] [DecidableEq ι] {D : Distribution ι} {byzantine : Finset ι}
  {nodes : ι → BasicHotstuffProtocol} {w : HotstuffWorld ι} {i : ι}
  (hreach : World.Reachable (nodeStep X D) (GuardedDelivery X D byzantine) (.start nodes) w)
include hreach

/-- A hash that a correct replica has signed is the hash of a vote it was asked for. -/
theorem exists_vote_of_signed (hi : i ∉ byzantine) {msgHash : String}
    (hsigned : (i, msgHash) ∈ signed X w.history) :
    ∃ t vote, (i, t) ∈ w.history ∧ t.event.proposal X t.pre = some vote ∧
      msgHash = voteHash X vote.1 vote.2.1 vote.2.2 := by
  obtain ⟨t, hentry, hhash⟩ := mem_signed.1 hsigned
  obtain ⟨before, after, hsplit⟩ := List.append_of_mem hentry
  obtain ⟨w₀, -, -, -, hmet, hstep⟩ := hreach.before rfl hsplit
  cases hevent : t.event with
  | sign msgHash' =>
    rw [hevent] at hmet
    exact absurd (hmet.honest rfl) hi
  | call event =>
    rw [signedHashes, hevent] at hhash
    obtain ⟨vote, hvote, rfl⟩ := List.mem_map.1 hhash
    rw [hevent] at hstep
    refine ⟨t, vote, hentry, ?_, rfl⟩
    rw [hevent]
    exact step_signedVotes hstep hvote

/-- A QC that a correct replica accepts stands for `2 * f + 1` nodes. -/
theorem card_signers_of_accepted (hi : i ∉ byzantine)
    {t : Transition BasicHotstuffProtocol Action Answer} (hentry : (i, t) ∈ w.history) {phase : Phase}
    {qc : QC} (haccepted : acceptedQC X t.pre t.event = some (phase, qc)) :
    2 * D.faultCount.toNat + 1 ≤ (signers X w.history (voteHash X phase qc.viewNum qc.block)).card := by
  obtain ⟨before, after, hsplit⟩ := List.append_of_mem hentry
  obtain ⟨w₀, -, rfl, hnode, hmet, -⟩ := hreach.before rfl hsplit
  have hquorum := (hmet.guarded hi).quorum
  rw [hnode] at hquorum
  rw [hsplit]
  exact (hquorum (phase, qc) haccepted).trans (card_signers_grow _)

/-- A vote of a correct replica certifies a quorum of the phase before. -/
theorem card_signers_previous (hX : X.CollisionFree) (hblock : Function.Injective X.blockBytes)
    (hi : i ∉ byzantine) {phase previous : Phase} (hprevious : phase.previous = some previous)
    {viewNum : UInt64} {block : Block} (hsigned : (i, voteHash X phase viewNum block) ∈ signed X w.history) :
    2 * D.faultCount.toNat + 1 ≤ (signers X w.history (voteHash X previous viewNum block)).card := by
  obtain ⟨t, vote, hentry, hproposal, hhash⟩ := exists_vote_of_signed hreach hi hsigned
  obtain ⟨rfl, rfl, rfl⟩ := voteHash_inj hX hblock hhash
  cases hevent : t.event with
  | sign msgHash =>
    rw [hevent] at hproposal
    cases hproposal
  | call event =>
    rw [hevent] at hproposal
    obtain ⟨qc, haccepted, hsame⟩ := exists_acceptedQC hproposal hprevious
    rw [← hevent] at haccepted hproposal
    have hview : vote.2.1 = qc.viewNum := by
      obtain ⟨before, after, hsplit⟩ := List.append_of_mem hentry
      obtain ⟨w₀, -, -, hnode, hmet, -⟩ := hreach.before rfl hsplit
      have hsameView := (hmet.guarded hi).sameView
      rw [hnode] at hsameView
      exact hsameView (previous, qc) haccepted vote hproposal
    have hquorum := card_signers_of_accepted hreach hi hentry haccepted
    rwa [hsame, ← hview] at hquorum

/-- One step down: a quorum of a phase has a correct member, which answered a quorum of the phase
before. -/
theorem card_signers_of_quorum (hX : X.CollisionFree) (hblock : Function.Injective X.blockBytes)
    (hbyzantine : byzantine.card ≤ D.faultCount.toNat) {phase previous : Phase}
    (hprevious : phase.previous = some previous) {viewNum : UInt64} {block : Block}
    (hquorum : 2 * D.faultCount.toNat + 1 ≤
      (signers X w.history (voteHash X phase viewNum block)).card) :
    2 * D.faultCount.toNat + 1 ≤ (signers X w.history (voteHash X previous viewNum block)).card := by
  have hlarge : D.faultCount.toNat < (signers X w.history (voteHash X phase viewNum block)).card := by
    omega
  obtain ⟨k, hk, hcorrect⟩ := Quorum.exists_correct hbyzantine hlarge
  exact card_signers_previous hreach hX hblock hcorrect hprevious (mem_signers.1 hk)

/-- A decision stands on a quorum of votes for the proposal. -/
theorem card_signers_of_decided (hX : X.CollisionFree) (hblock : Function.Injective X.blockBytes)
    (hbyzantine : byzantine.card ≤ D.faultCount.toNat) (hi : i ∉ byzantine)
    {t : Transition BasicHotstuffProtocol Action Answer} (hentry : (i, t) ∈ w.history)
    {view : UInt64} {block : Block} (hdecided : decided t = some (view, block)) :
    2 * D.faultCount.toNat + 1 ≤ (signers X w.history (voteHash X .prepare view block)).card := by
  obtain ⟨before, after, hsplit⟩ := List.append_of_mem hentry
  obtain ⟨w₀, -, -, -, -, hstep⟩ := hreach.before rfl hsplit
  unfold decided at hdecided
  split at hdecided
  case h_2 => cases hdecided
  case h_1 msg order request queue hevent hout =>
    obtain ⟨qc, hjustify, hfields⟩ := Option.map_eq_some_iff.1 hdecided
    obtain ⟨rfl, rfl⟩ := Prod.mk.inj hfields
    rw [hevent, hout] at hstep
    obtain ⟨qc', haccepted, hsame⟩ := acceptedQC_of_complete hstep
    obtain rfl := Option.some.inj (hjustify.symm.trans (checkQC_eq_some hsame).1)
    rw [← hevent] at haccepted
    have hview := (checkQC_eq_some hsame).2.viewNum
    have hcommit := card_signers_of_accepted hreach hi hentry haccepted
    rw [hview] at hcommit
    have hpreCommit := card_signers_of_quorum hreach hX hblock hbyzantine
      (show Phase.commit.previous = some .preCommit from rfl) hcommit
    exact card_signers_of_quorum hreach hX hblock hbyzantine
      (show Phase.preCommit.previous = some .prepare from rfl) hpreCommit

/-- A correct replica votes for one proposal of a view. -/
theorem votes_functional (hi : i ∉ byzantine) {view : UInt64} {block block' : Block}
    (h : (i, .prepare, view, block) ∈ votes X w.history)
    (h' : (i, .prepare, view, block') ∈ votes X w.history) : block = block' := by
  induction hreach with
  | start => cases h
  | @deliver w w' delivery previous met taken ih =>
    obtain ⟨p, out, hstep, -, hhistory⟩ := World.deliver_cases taken
    have hsplit {block : Block} (h : (i, .prepare, view, block) ∈ votes X w'.history) :
        (i, .prepare, view, block) ∈ votes X w.history ∨
          (i = delivery.1 ∧
            delivery.2.proposal X (w.nodes delivery.1) = some (.prepare, view, block)) := by
      obtain ⟨t, hentry, hproposal⟩ := mem_votes.1 h
      rw [hhistory] at hentry
      rcases List.mem_append.1 hentry with hold | hnew
      · exact .inl (mem_votes.2 ⟨t, hold, hproposal⟩)
      · obtain ⟨rfl, rfl⟩ := Prod.mk.inj (List.mem_singleton.1 hnew)
        exact .inr ⟨rfl, hproposal⟩
    rcases hsplit h with hold | ⟨rfl, hnew⟩
    · rcases hsplit h' with hold' | ⟨rfl, hnew'⟩
      · exact ih hold hold'
      · exact (met.guarded hi).onePrepare _ hnew' _ hold rfl rfl rfl rfl
    · rcases hsplit h' with hold' | ⟨-, hnew'⟩
      · exact ((met.guarded hi).onePrepare _ hnew _ hold' rfl rfl rfl rfl).symm
      · have hsame := Option.some.inj (hnew.symm.trans hnew')
        simpa using hsame

omit hreach in
/-- Among `3 * f + 1` nodes, at most `f` of them Byzantine, guarded deliveries reach agreement. -/
theorem agreement_of_guarded (hX : X.CollisionFree) (hblock : Function.Injective X.blockBytes)
    (hcard : Fintype.card ι = 3 * D.faultCount.toNat + 1)
    (hbyzantine : byzantine.card ≤ D.faultCount.toNat)
    (hreach : World.Reachable (nodeStep X D) (GuardedDelivery X D byzantine) (.start nodes) w) :
    Agreement byzantine w.history := by
  rintro ⟨i, t⟩ hentry hi ⟨j, t'⟩ hentry' hj view block block' hdecided hdecided'
  have hleft := card_signers_of_decided hreach hX hblock hbyzantine hi hentry hdecided
  have hright := card_signers_of_decided hreach hX hblock hbyzantine hj hentry' hdecided'
  obtain ⟨k, hkleft, hkright, hkcorrect⟩ :=
    Quorum.exists_correct_of_two_quorums hcard hbyzantine hleft hright
  have hvote {block : Block} (h : k ∈ signers X w.history (voteHash X .prepare view block)) :
      (k, .prepare, view, block) ∈ votes X w.history := by
    obtain ⟨t, vote, hentry, hproposal, hhash⟩ :=
      exists_vote_of_signed hreach hkcorrect (mem_signers.1 h)
    obtain ⟨hphase, hview, hsame⟩ := voteHash_inj hX hblock hhash
    refine mem_votes.2 ⟨t, hentry, ?_⟩
    rw [hproposal, hphase, hview, hsame]
  exact votes_functional hreach hkcorrect (hvote hkleft) (hvote hkright)

end Run

/-! ## Four nodes -/

section Decidable

variable [Fintype ι] [DecidableEq ι] (X : Externals) (D : Distribution ι) (byzantine : Finset ι)
  (w : HotstuffWorld ι) (delivery : ι × Action)

instance Guarded.decidable : Decidable (Guarded X D w delivery) :=
  decidable_of_iff
    ((∀ accepted ∈ acceptedQC X (w.nodes delivery.1) delivery.2, 2 * D.faultCount.toNat + 1 ≤
        (signers X w.history (voteHash X accepted.1 accepted.2.viewNum accepted.2.block)).card) ∧
      (∀ accepted ∈ acceptedQC X (w.nodes delivery.1) delivery.2,
        ∀ proposal ∈ delivery.2.proposal X (w.nodes delivery.1), proposal.2.1 = accepted.2.viewNum) ∧
      ∀ proposal ∈ delivery.2.proposal X (w.nodes delivery.1), ∀ vote ∈ votes X w.history,
        vote.1 = delivery.1 → vote.2.1 = .prepare → proposal.1 = .prepare →
          vote.2.2.1 = proposal.2.1 → vote.2.2.2 = proposal.2.2)
    ⟨fun h ↦ ⟨h.1, h.2.1, h.2.2⟩, fun h ↦ ⟨h.1, h.2, h.3⟩⟩

instance Honest.decidable : Decidable (Honest byzantine delivery) :=
  inferInstanceAs (Decidable (_ = _ → _ ∈ _))

instance GuardedDelivery.decidable : Decidable (GuardedDelivery X D byzantine w delivery) :=
  decidable_of_iff
    (Environment X D w delivery ∧ Honest byzantine delivery ∧
      (delivery.1 ∉ byzantine → Guarded X D w delivery))
    ⟨fun h ↦ ⟨h.1, h.2.1, h.2.2⟩, fun h ↦ ⟨h.1, h.2, h.3⟩⟩

end Decidable

/-- The message that carries the QC of a phase in the first view. -/
def certificateOf (phase : Phase) (cmd : String) (nodes : List (Fin 4)) : Action :=
  let qc := fourQC phase 1 { cmd := cmd, parentHash := "" } nodes
  match phase with
  | .prepare => .call (.message (.preCommit { viewNum := 1, justify := some qc }) [])
  | .preCommit => .call (.message (.commit { viewNum := 1, justify := some qc }) [])
  | .commit => .call (.message (.decide { viewNum := 1, justify := some qc }) [])

def toThree (action : Action) : List (Fin 4 × Action) := [(0, action), (1, action), (2, action)]

/-- Three nodes vote in every phase, and two of them decide. -/
def decisionDeliveries : List (Fin 4 × Action) :=
  joinDeliveries 0 ++ joinDeliveries 1 ++ joinDeliveries 2 ++ toThree (.call (proposal 1 "a")) ++
    toThree (certificateOf .prepare "a" [0, 1, 2]) ++ toThree (certificateOf .preCommit "a" [0, 1, 2]) ++
    [(0, certificateOf .commit "a" [0, 1, 2]), (1, certificateOf .commit "a" [0, 1, 2])]

theorem agreement_of_guarded_four :
    ∃ w, World.Reachable (nodeStep .transparent fourNodes) (GuardedDelivery .transparent fourNodes {3})
        (.start fourFresh) w ∧
      (w.history.filterMap fun entry ↦ (decided entry.2).map (entry.1, ·)) =
        [(0, 1, genesisBlock), (1, 1, genesisBlock)] ∧
      Agreement {3} w.history := by
  have hreach : World.Reachable (nodeStep .transparent fourNodes)
      (GuardedDelivery .transparent fourNodes {3}) (.start fourFresh)
      (World.final (nodeStep .transparent fourNodes) (GuardedDelivery .transparent fourNodes {3})
        (.start fourFresh) decisionDeliveries) := .of_isSome (by decide +kernel)
  exact ⟨_, hreach, by decide +kernel,
    agreement_of_guarded Platform.collisionFree_transparent blockBytes_transparent_injective (by decide)
      (by decide) hreach⟩

/-- One correct node is asked for every vote of a block, and the Byzantine node signs them too. -/
def courtDeliveries (cmd : String) : List (Fin 4 × Action) :=
  let block : Block := { cmd := cmd, parentHash := "" }
  [(3, .sign (voteHash .transparent .prepare 1 block)), (3, .sign (voteHash .transparent .preCommit 1 block)),
    (3, .sign (voteHash .transparent .commit 1 block)), (2, .call (proposal 1 cmd)),
    (2, certificateOf .prepare cmd [2, 3]), (2, certificateOf .preCommit cmd [2, 3])]

/-- This happens for two blocks, and each is decided by another node. -/
def splitDeliveries : List (Fin 4 × Action) :=
  joinDeliveries 0 ++ joinDeliveries 1 ++ joinDeliveries 2 ++ courtDeliveries "a" ++ courtDeliveries "b" ++
    [(0, certificateOf .commit "a" [2, 3]), (1, certificateOf .commit "b" [2, 3])]

/-- Two correct replicas decide different blocks in the first view. -/
theorem not_agreement_of_split :
    Externals.transparent.CollisionFree ∧ Function.Injective Externals.transparent.blockBytes ∧
      Fintype.card (Fin 4) = 3 * fourNodes.faultCount.toNat + 1 ∧
      ({3} : Finset (Fin 4)).card ≤ fourNodes.faultCount.toNat ∧ Fresh fourNodes fourFresh ∧
      ∃ w, World.Reachable (nodeStep .transparent fourNodes)
          (fun w delivery ↦ Environment .transparent fourNodes w delivery ∧ Honest {3} delivery)
          (.start fourFresh) w ∧
        ¬ Agreement {3} w.history := by
  refine ⟨Platform.collisionFree_transparent, blockBytes_transparent_injective, by decide, by decide,
    fresh_fourFresh,
    World.final (nodeStep .transparent fourNodes)
      (fun w delivery ↦ Environment .transparent fourNodes w delivery ∧ Honest {3} delivery)
      (.start fourFresh) splitDeliveries, .of_isSome (by decide +kernel), ?_⟩
  intro hagreement
  have hzero : ∃ entry ∈ (World.final (nodeStep .transparent fourNodes)
      (fun w delivery ↦ Environment .transparent fourNodes w delivery ∧ Honest {3} delivery)
      (.start fourFresh) splitDeliveries).history,
      entry.1 = 0 ∧ decided entry.2 = some (1, { cmd := "a", parentHash := "" }) := by decide +kernel
  have hone : ∃ entry ∈ (World.final (nodeStep .transparent fourNodes)
      (fun w delivery ↦ Environment .transparent fourNodes w delivery ∧ Honest {3} delivery)
      (.start fourFresh) splitDeliveries).history,
      entry.1 = 1 ∧ decided entry.2 = some (1, { cmd := "b", parentHash := "" }) := by decide +kernel
  obtain ⟨entry, hentry, hnode, hdecided⟩ := hzero
  obtain ⟨entry', hentry', hnode', hdecided'⟩ := hone
  have hsame := hagreement entry hentry (by rw [hnode]; decide) entry' hentry' (by rw [hnode']; decide)
    1 _ _ hdecided hdecided'
  exact absurd hsame (by decide)

end BFTDiagnosis.BasicHotstuff
