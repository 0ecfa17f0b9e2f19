import BFTDiagnosis.BasicHotstuff.Committee

/-!
# How many nodes stand behind a QC

A QC that a node accepts should stand for `2 * f + 1` nodes that signed its hash. The signature alone
stands for `f + 1` of them, because `distribute_keys` generates the key set with the threshold `f`;
the larger number is only what the vote handlers wait for. So the QCs that vote handlers have formed
are sound, in every run, and a QC put together from fewer shares is accepted as well.
-/

namespace BFTDiagnosis.BasicHotstuff

open Components Utils Word Hotstuff BasicHotstuffProtocol

variable {X : Externals} {ι : Type} [DecidableEq ι]

/-- Whenever a node accepts a QC, `2 * f + 1` nodes have signed its hash. -/
def QCSoundness [Fintype ι] (X : Externals) (D : Distribution ι) (history : HotstuffHistory ι) : Prop :=
  ∀ before i t after, history = before ++ (i, t) :: after →
    ∀ phase qc, acceptedQC X t.pre t.event = some (phase, qc) →
      2 * D.faultCount.toNat + 1 ≤ (signers X before (voteHash X phase qc.viewNum qc.block)).card

/-- An accepted QC has been formed by the vote handlers of some node. -/
def FormedByVotes (X : Externals) (w : HotstuffWorld ι) (delivery : ι × Action) : Prop :=
  ∀ accepted ∈ acceptedQC X (w.nodes delivery.1) delivery.2,
    ∃ entry ∈ w.history, accepted ∈ announcedQCs entry.2.out

/-! ## The invariant -/

/-- What holds of one node: every recorded voter has signed what it is recorded for. -/
structure NodeInv (X : Externals) (D : Distribution ι) (history : HotstuffHistory ι)
    (p : BasicHotstuffProtocol) : Prop where
  registry : p.consensusNodePks = ∅ ∨ p.consensusNodePks = D.registry X.toExternals
  faults : p.state.faultToleranceCount = D.faultCount
  voters : ∀ msgHash number, number ∈ p.log.sharesAt msgHash →
    ∃ i, D.number i = number ∧ (i, msgHash) ∈ signed X history

variable {D : Distribution ι} {history : HotstuffHistory ι} {p p' : BasicHotstuffProtocol} {out : Answer}

theorem NodeInv.grow (h : NodeInv X D history p) (later : HotstuffHistory ι) :
    NodeInv X D (history ++ later) p where
  registry := h.registry
  faults := h.faults
  voters := by
    intro msgHash number hmem
    obtain ⟨i, hi, hsigned⟩ := h.voters msgHash number hmem
    exact ⟨i, hi, signed_grow later hsigned⟩

theorem NodeInv.start (X : Externals) (D : Distribution ι) (peerId : String) :
    NodeInv X D [] (BasicHotstuffProtocol.new D.faultCount peerId) where
  registry := .inl rfl
  faults := rfl
  voters := by
    intro msgHash number hmem
    have hempty : (BasicHotstuffProtocol.new D.faultCount peerId).log.sharesAt msgHash = ∅ :=
      Log.sharesAt_new msgHash
    rw [hempty] at hmem
    exact absurd hmem Finmap.notMem_empty

section Step

variable {w : HotstuffWorld ι} {i : ι} {event : Event}

theorem registry_of_step (h : NodeInv X D w.history (w.nodes i))
    (htaken : step X (D.peerId i) (w.nodes i) event = some (p', out))
    (hsupplies : Supplies X D (i, .call event)) :
    p'.consensusNodePks = ∅ ∨ p'.consensusNodePks = D.registry X.toExternals := by
  cases step_effect htaken with
  | consensusNodePKsInfo entries order nodes primary queue hview hqueue => exact .inr hsupplies
  | initialStart nodes randomness order pkOrder keypair numbers primary queue hown hview hqueue =>
    obtain ⟨rfl, rfl⟩ := hsupplies
    refine .inr ?_
    change HashMap.ofEntries _ = _
    rw [h.faults]
    rfl
  | protocolReset peerId => exact .inl rfl
  | _ => exact h.registry

theorem faults_of_step (h : NodeInv X D w.history (w.nodes i))
    (htaken : step X (D.peerId i) (w.nodes i) event = some (p', out))
    (hsupplies : Supplies X D (i, .call event)) : p'.state.faultToleranceCount = D.faultCount := by
  cases event with
  | protocolReset peerId =>
    obtain ⟨rfl, -⟩ := Prod.mk.inj (Option.some.inj htaken)
    exact Eq.symm hsupplies
  | _ => exact (step_faultToleranceCount htaken rfl).trans h.faults

/-- A verified share names a node by its number, and this node has signed. -/
theorem signed_of_verifiedShare {phase : Phase} {vote : Vote} {pkInfo : ConsensusNodePKInfo}
    {share : Bytes} {order : List (Bytes × ConsensusNodePKInfo)}
    (h : NodeInv X D w.history (w.nodes i))
    (hshares : SharesUnforgeable X D w (i, .call (.message (phase.voteMessage vote) order)))
    (hverified : VerifiedShare X (w.nodes i) phase vote pkInfo share) :
    ∃ k, D.number k = pkInfo.number ∧
      (k, voteHash X phase vote.viewNum vote.block) ∈ signed X w.history := by
  have hregistered := hverified.registered
  rcases h.registry with hempty | hregistry
  · rw [hempty, Finmap.lookup_empty] at hregistered
    cases hregistered
  · rw [hregistry] at hregistered
    obtain ⟨k, -, hnumber, hpublic⟩ := D.of_lookup_registry X.toExternals hregistered
    refine ⟨k, hnumber.symm, ?_⟩
    exact hshares _ (List.mem_singleton.2 rfl) _ (vote_voteMessage phase vote) share hverified.attached k
      (hpublic ▸ hverified.verified)

theorem NodeInv.call [Fintype ι] (h : NodeInv X D w.history (w.nodes i))
    (htaken : step X (D.peerId i) (w.nodes i) event = some (p', out))
    (henv : Environment X D w (i, .call event)) : NodeInv X D w.history p' where
  registry := registry_of_step h htaken henv.supplies
  faults := faults_of_step h htaken henv.supplies
  voters := by
    intro msgHash number hmem
    rcases step_sharesAt htaken msgHash with hsame | ⟨peerId, rfl⟩ |
      ⟨phase, vote, order, pkInfo, share, rfl, hverified, rfl, hinserted⟩
    · rw [hsame] at hmem
      exact h.voters msgHash number hmem
    · obtain ⟨rfl, -⟩ := Prod.mk.inj (Option.some.inj htaken)
      have hempty : ((w.nodes i).protocolReset peerId).log.sharesAt msgHash = ∅ :=
        Log.sharesAt_new msgHash
      rw [hempty] at hmem
      exact absurd hmem Finmap.notMem_empty
    · rw [hinserted] at hmem
      rcases (Finmap.mem_insert).1 hmem with rfl | hold
      · exact signed_of_verifiedShare h henv.shares hverified
      · exact h.voters _ number hold

variable [Fintype ι]

/-- The voters recorded under a hash are as many nodes that have signed it. -/
theorem NodeInv.len_le_card_signers (h : NodeInv X D history p) (msgHash : String) :
    (p.log.sharesAt msgHash).len ≤ (signers X history msgHash).card := by
  have hvoter : ∀ number ∈ (p.log.sharesAt msgHash).keys,
      ∃ i, D.number i = number ∧ (i, msgHash) ∈ signed X history :=
    fun number hnumber ↦ h.voters msgHash number (Finmap.mem_keys.1 hnumber)
  obtain ⟨members, hcard, hmembers⟩ := Quorum.exists_members D.number _ hvoter
  have hsigners : members ⊆ signers X history msgHash := fun i hi ↦ mem_signers.2 (hmembers i hi)
  calc (p.log.sharesAt msgHash).len
      = (p.log.sharesAt msgHash).keys.card := rfl
    _ ≤ members.card := hcard
    _ ≤ (signers X history msgHash).card := Finset.card_le_card hsigners

/-- A QC is announced on the signatures of `2 * f + 1` nodes. -/
theorem card_signers_of_announced (h : NodeInv X D w.history (w.nodes i))
    (htaken : step X (D.peerId i) (w.nodes i) event = some (p', out))
    (henv : Environment X D w (i, .call event)) {phase : Phase} {qc : QC}
    (hannounced : (phase, qc) ∈ announcedQCs out) :
    2 * D.faultCount.toNat + 1 ≤
      (signers X w.history (voteHash X phase qc.viewNum qc.block)).card := by
  rcases step_announcedQCs htaken with hnone | ⟨phase', qc', hone, hannouncement⟩
  · rw [hnone] at hannounced
    cases hannounced
  · rw [hone] at hannounced
    obtain ⟨rfl, rfl⟩ := Prod.mk.inj (List.mem_singleton.1 hannounced)
    obtain ⟨vote, order, pkInfo, share, signature, -, -, rfl, hquorum, hlog⟩ := hannouncement
    have hcount := hquorum.count
    rw [← hlog] at hcount
    have hfaults : ((w.nodes i).record X phase vote pkInfo share).state.faultToleranceCount =
        D.faultCount := h.faults
    calc 2 * D.faultCount.toNat + 1
        = (p'.log.sharesAt (voteHash X phase vote.viewNum vote.block)).len := by rw [hcount, hfaults]
      _ ≤ _ := (h.call htaken henv).len_le_card_signers _

end Step

/-! ## Every run -/

section Run

variable [Fintype ι]

/-- What holds of a world: its nodes, and the QCs that were announced in it. -/
structure WorldInv (X : Externals) (D : Distribution ι) (w : HotstuffWorld ι) : Prop where
  nodes : ∀ i, NodeInv X D w.history (w.nodes i)
  announced : ∀ entry ∈ w.history, ∀ phase qc, (phase, qc) ∈ announcedQCs entry.2.out →
    2 * D.faultCount.toNat + 1 ≤
      (signers X w.history (voteHash X phase qc.viewNum qc.block)).card

theorem WorldInv.deliver {w w' : HotstuffWorld ι} {delivery : ι × Action} (h : WorldInv X D w)
    (henv : Environment X D w delivery) (htaken : w.deliver (nodeStep X D) delivery = some w') :
    WorldInv X D w' := by
  obtain ⟨i, action⟩ := delivery
  refine ⟨?_, ?_⟩
  · apply World.forall_nodes_of_deliver (fun history _ p ↦ NodeInv X D history p) _ _ htaken h.nodes
    · intro entry j p hinv
      exact hinv.grow [entry]
    · intro p' out hstep hinv
      cases action with
      | call event => exact (hinv.call hstep henv).grow _
      | sign msgHash =>
        obtain ⟨rfl, -⟩ := Prod.mk.inj (Option.some.inj hstep)
        exact hinv.grow _
  · obtain ⟨p', out, hstep, -, hhistory⟩ := World.deliver_cases htaken
    rw [hhistory]
    intro entry hentry phase qc hannounced
    refine le_trans ?_ (card_signers_grow _)
    rcases List.mem_append.1 hentry with hold | hnew
    · exact h.announced entry hold phase qc hannounced
    · rw [List.mem_singleton.1 hnew] at hannounced
      cases action with
      | call event => exact card_signers_of_announced (h.nodes i) hstep henv hannounced
      | sign msgHash =>
        obtain ⟨-, rfl⟩ := Prod.mk.inj (Option.some.inj hstep)
        cases hannounced

theorem worldInv_of_reachable {condition : HotstuffWorld ι → ι × Action → Prop}
    (hcondition : ∀ w delivery, condition w delivery → Environment X D w delivery)
    {nodes : ι → BasicHotstuffProtocol} (hfresh : Fresh D nodes) {w : HotstuffWorld ι}
    (hreach : World.Reachable (nodeStep X D) condition (.start nodes) w) : WorldInv X D w := by
  induction hreach with
  | start =>
    refine ⟨?_, ?_⟩
    · intro i
      obtain ⟨peerId, hnode⟩ := hfresh i
      have hstart : (World.start nodes : HotstuffWorld ι).nodes i = nodes i := rfl
      rw [hstart, hnode]
      exact NodeInv.start X D peerId
    · intro entry hentry
      cases hentry
  | deliver previous met taken ih => exact ih.deliver (hcondition _ _ met) taken

/-- In every run in which the nodes accept no other QCs than those that vote handlers have formed,
every accepted QC stands for `2 * f + 1` nodes. -/
theorem qcSoundness_of_formedByVotes {nodes : ι → BasicHotstuffProtocol} (hfresh : Fresh D nodes)
    {w : HotstuffWorld ι}
    (hreach : World.Reachable (nodeStep X D)
      (fun w delivery ↦ Environment X D w delivery ∧ FormedByVotes X w delivery) (.start nodes) w) :
    QCSoundness X D w.history := by
  intro before i t after hsplit phase qc haccepted
  obtain ⟨w₀, hreach₀, rfl, hnode, hmet, -⟩ := hreach.before rfl hsplit
  have hinv : WorldInv X D w₀ := worldInv_of_reachable (fun _ _ h ↦ h.1) hfresh hreach₀
  have hformed := hmet.2
  unfold FormedByVotes at hformed
  rw [hnode] at hformed
  obtain ⟨entry, hentry, hannounced⟩ := hformed (phase, qc) haccepted
  exact hinv.announced entry hentry phase qc hannounced

end Run

/-! ## Four nodes -/

instance FormedByVotes.decidable (X : Externals) (w : HotstuffWorld ι) (delivery : ι × Action) :
    Decidable (FormedByVotes X w delivery) :=
  inferInstanceAs (Decidable (∀ accepted ∈ acceptedQC X (w.nodes delivery.1) delivery.2,
    ∃ entry ∈ w.history, accepted ∈ announcedQCs entry.2.out))

def preCommitOf (qc : QC) : Action := .call (.message (.preCommit { viewNum := 1, justify := some qc }) [])

/-- The first node proposes, collects three votes and announces a QC, which the second accepts. -/
def certifiedDeliveries : List (Fin 4 × Action) :=
  (0, .call fourStart) :: (joinDeliveries 1 ++ joinDeliveries 2 ++ joinDeliveries 3 ++
    [(1, .call (proposal 1 "a")), (2, .call (proposal 1 "a")), (3, .call (proposal 1 "a")),
      (0, .call (fourVoteEvent .prepare 1)), (0, .call (fourVoteEvent .prepare 2)),
      (0, .call (fourVoteEvent .prepare 3)),
      (1, preCommitOf (fourQC .prepare 1 genesisBlock [1, 2, 3]))])

theorem qcSoundness_of_formedByVotes_four :
    Fresh fourNodes fourFresh ∧
      ∃ w, World.Reachable (nodeStep .transparent fourNodes)
          (fun w delivery ↦ Environment .transparent fourNodes w delivery ∧
            FormedByVotes .transparent w delivery) (.start fourFresh) w ∧
        (∃ entry ∈ w.history, (acceptedQC .transparent entry.2.pre entry.2.event).isSome = true) ∧
        QCSoundness .transparent fourNodes w.history := by
  have hreach : World.Reachable (nodeStep .transparent fourNodes)
      (fun w delivery ↦ Environment .transparent fourNodes w delivery ∧
        FormedByVotes .transparent w delivery) (.start fourFresh)
      (World.final (nodeStep .transparent fourNodes)
        (fun w delivery ↦ Environment .transparent fourNodes w delivery ∧
          FormedByVotes .transparent w delivery) (.start fourFresh) certifiedDeliveries) :=
    .of_isSome (by decide +kernel)
  exact ⟨fresh_fourFresh, _, hreach, by decide +kernel,
    qcSoundness_of_formedByVotes fresh_fourFresh hreach⟩

/-- One node votes for a proposal, another signs it as well, and their two shares make a QC. -/
def underSignedDeliveries : List (Fin 4 × Action) :=
  joinDeliveries 1 ++ joinDeliveries 2 ++
    [(2, .call (proposal 1 "a")), (3, .sign (voteHash .transparent .prepare 1 genesisBlock)),
      (1, preCommitOf (fourQC .prepare 1 genesisBlock [2, 3]))]

/-- A node accepts a QC that two of four nodes have signed. -/
theorem not_qcSoundness_of_two_shares :
    Fintype.card (Fin 4) = 3 * fourNodes.faultCount.toNat + 1 ∧ Fresh fourNodes fourFresh ∧
      ∃ w, World.Reachable (nodeStep .transparent fourNodes) (Environment .transparent fourNodes)
          (.start fourFresh) w ∧
        ¬ QCSoundness .transparent fourNodes w.history := by
  refine ⟨by decide, fresh_fourFresh,
    World.final (nodeStep .transparent fourNodes) (Environment .transparent fourNodes)
      (.start fourFresh) underSignedDeliveries, .of_isSome (by decide +kernel), ?_⟩
  intro hsound
  have haccepted : ∃ entry ∈ (World.final (nodeStep .transparent fourNodes)
      (Environment .transparent fourNodes) (.start fourFresh) underSignedDeliveries).history,
      acceptedQC .transparent entry.2.pre entry.2.event =
        some (.prepare, fourQC .prepare 1 genesisBlock [2, 3]) := by decide +kernel
  obtain ⟨⟨i, t⟩, hentry, haccepted⟩ := haccepted
  obtain ⟨before, after, hsplit⟩ := List.append_of_mem hentry
  have hthree := hsound before i t after hsplit _ _ haccepted
  have hgrow : (signers .transparent before (voteHash .transparent .prepare 1 genesisBlock)).card ≤ 2 :=
    calc (signers .transparent before (voteHash .transparent .prepare 1 genesisBlock)).card
        ≤ (signers .transparent (before ++ (i, t) :: after)
            (voteHash .transparent .prepare 1 genesisBlock)).card := card_signers_grow _
      _ = 2 := by
        rw [← hsplit]
        decide +kernel
  have hone : fourNodes.faultCount.toNat = 1 := rfl
  rw [hone] at hthree
  exact absurd (hthree.trans hgrow) (by decide)

end BFTDiagnosis.BasicHotstuff
