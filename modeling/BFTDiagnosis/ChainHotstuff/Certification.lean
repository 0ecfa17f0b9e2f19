import BFTDiagnosis.ChainHotstuff.Steps

/-!
# What stands behind a chained HotStuff commit

A replica that stores a QC of a proposal, or executes the command of its great-grandparent, should
have looked at the threshold signatures of the QCs on the way. `replica_handle_generic` looks at the
hash links only, so a commit is certified exactly when every QC that the proposal reaches through
matching links happens to verify.
-/

namespace BFTDiagnosis.ChainHotstuff

open Components Utils Word Hotstuff ChainHotstuffProtocol

variable {X : Externals}

/-- The QC carries a signature that verifies under the common public key of the replica. -/
def certified (X : Externals) (p : ChainHotstuffProtocol) (qc : QC) : Bool :=
  match p.keypair, qc.signature with
  | some keypair, some signature => keypair.thresholdVerify X.toBlsttc signature
      (asBytes (getGenericHash X GENERIC qc.viewNum qc.block))
  | _, _ => false

/-- The QCs nested in a block, from the outside in. -/
def Block.justifies : Block → List QC
  | ⟨_, _, none⟩ => []
  | ⟨_, _, some ⟨viewNum, block, signature⟩⟩ => ⟨viewNum, block, signature⟩ :: block.justifies

/-- The QCs that a block reaches through at most so many matching parent hashes. -/
def Block.linked (X : Externals) : ℕ → Block → List QC
  | 0, _ => []
  | n + 1, block => (block.link X).elim [] fun qc ↦ qc :: qc.block.linked X n

/-- How many of the nested QCs an outcome relies on: one for `generic_qc`, two for `locked_qc`, three
for an executed command. -/
def Outcome.reliesOn (out : Outcome) : ℕ :=
  match out.answer with
  | .complete _ _ => 3
  | _ => out.stored.length

abbrev ChainTransition := Transition ChainHotstuffProtocol Event Outcome

/-- The view and the block of a Generic with a block. -/
def Event.proposal : Event → Option (UInt64 × Block)
  | .message (.generic generic) _ => generic.block.map (generic.viewNum, ·)
  | _ => none

/-- Every QC that the handling of a proposal relies on is certified. -/
def CommitsCertified (X : Externals) (t : ChainTransition) : Prop :=
  ∀ proposal ∈ t.event.proposal,
    ∀ qc ∈ proposal.2.justifies.take t.out.reliesOn, certified X t.pre qc = true

/-- Every QC that an accepted proposal reaches through three matching parent hashes is certified. -/
def LinksCertified (X : Externals) (t : ChainTransition) : Prop :=
  ∀ proposal ∈ t.event.proposal, t.pre.state.view = proposal.1 →
    t.pre.safeNode X proposal.2 proposal.2.justify = true →
      ∀ qc ∈ proposal.2.linked X 3, certified X t.pre qc = true

theorem Event.proposal_eq_some {event : Event} {viewNum : UInt64} {b1 : Block}
    (h : event.proposal = some (viewNum, b1)) :
    ∃ generic order, event = .message (.generic generic) order ∧ generic.block = some b1 ∧
      generic.viewNum = viewNum := by
  unfold proposal at h
  split at h
  case h_1 generic order =>
    obtain ⟨block, hblock, hfields⟩ := Option.map_eq_some_iff.1 h
    obtain ⟨rfl, rfl⟩ := Prod.mk.inj hfields
    exact ⟨generic, order, rfl, hblock, rfl⟩
  case h_2 => cases h

theorem Block.justifies_of_link {block : Block} {qc : QC} (h : block.link X = some qc) :
    block.justifies = qc :: qc.block.justifies := by
  obtain ⟨cmd, parentHash, justify⟩ := block
  obtain ⟨hjustify, -⟩ := link_eq_some.1 h
  obtain ⟨viewNum, block, signature⟩ := qc
  obtain rfl : justify = some ⟨viewNum, block, signature⟩ := hjustify
  rw [justifies]

/-- What a proposal is concluded on are the QCs it reaches. -/
theorem take_reliesOn_conclude (p : ChainHotstuffProtocol) (queue : List (SendType Payload))
    (signed : Option Vote) (b1 : Block) :
    b1.justifies.take (p.conclude X queue signed b1).2.reliesOn = b1.linked X 3 := by
  rw [conclude, formChain_eq]
  cases h1 : b1.link X with
  | none => simp [Outcome.reliesOn, Block.linked, h1]
  | some qc1 =>
    cases h2 : qc1.block.link X with
    | none => simp [Outcome.reliesOn, Block.linked, h1, h2, Block.justifies_of_link h1]
    | some qc2 =>
      cases h3 : qc2.block.link X with
      | none =>
        simp [Outcome.reliesOn, Block.linked, h1, h2, h3, Block.justifies_of_link h1,
          Block.justifies_of_link h2]
      | some qc3 =>
        simp [Outcome.reliesOn, Block.linked, h1, h2, h3, Block.justifies_of_link h1,
          Block.justifies_of_link h2, Block.justifies_of_link h3]

/-- The stored QCs are what `generic_qc` and `locked_qc` hold afterwards. -/
theorem conclude_stored (p : ChainHotstuffProtocol) (queue : List (SendType Payload))
    (signed : Option Vote) (b1 : Block) :
    let result := p.conclude X queue signed b1
    result.1.state.genericQC = result.2.stored[0]?.or p.state.genericQC ∧
      result.1.state.lockedQC = result.2.stored[1]?.or p.state.lockedQC := by
  simp only [conclude, formChain_eq]
  cases h1 : b1.link X with
  | none => exact ⟨rfl, rfl⟩
  | some qc1 =>
    cases h2 : qc1.block.link X with
    | none => simp [h2, viewTimeoutStop]
    | some qc2 => simp [h2]

theorem reliesOn_silent : (Outcome.of silent).reliesOn = 0 := rfl

/-- What a call relies on: nothing, or the links of an accepted proposal. -/
theorem step_reliesOn {p p' : ChainHotstuffProtocol} {me : Bytes} {generic : Generic}
    {order : List (Bytes × ConsensusNodePKInfo)} {out : Outcome} {b1 : Block}
    (h : step X me p (.message (.generic generic) order) = some (p', out))
    (hblock : generic.block = some b1) :
    b1.justifies.take out.reliesOn =
      if p.state.view = generic.viewNum ∧ p.safeNode X b1 b1.justify = true then b1.linked X 3 else [] := by
  rcases step_proposal_cases hblock h with ⟨hview, rfl⟩ | ⟨hview, taken, hhandled⟩
  · rw [if_neg fun hboth ↦ hview hboth.1, reliesOn_silent, List.take_zero]
  · cases hhandled with
    | refused hrejected =>
      have hfalse : p.safeNode X b1 b1.justify = false := hrejected
      rw [if_neg fun hboth ↦ absurd (hfalse.symm.trans hboth.2) (by simp), reliesOn_silent, List.take_zero]
    | accepted p₁ queue signed hsafe hcast =>
      rw [if_pos ⟨hview, hsafe⟩, take_reliesOn_conclude]

/-- In every run, a commit is certified exactly when the links of the proposal are. -/
theorem commitsCertified_iff_links {me : Bytes} {f : UInt64} {peerId : String}
    {run : List ChainTransition} {p : ChainHotstuffProtocol}
    (hrun : IsRun (step X me) (ChainHotstuffProtocol.new f peerId) run p) {t : ChainTransition}
    (ht : t ∈ run) : CommitsCertified X t ↔ LinksCertified X t := by
  have hstep := hrun.taken t ht
  constructor
  · rintro h ⟨viewNum, b1⟩ hproposal hview hsafe qc hqc
    obtain ⟨generic, order, hevent, hblock, rfl⟩ := Event.proposal_eq_some hproposal
    rw [hevent] at hstep
    apply h _ hproposal qc
    rw [step_reliesOn hstep hblock, if_pos ⟨hview, hsafe⟩]
    exact hqc
  · rintro h ⟨viewNum, b1⟩ hproposal qc hqc
    obtain ⟨generic, order, hevent, hblock, rfl⟩ := Event.proposal_eq_some hproposal
    rw [hevent] at hstep
    rw [step_reliesOn hstep hblock] at hqc
    split at hqc
    case isTrue haccepted => exact h _ hproposal haccepted.1 haccepted.2 qc hqc
    case isFalse => cases hqc

/-! ## A replica of four nodes -/

instance CommitsCertified.decidable (X : Externals) (t : ChainTransition) :
    Decidable (CommitsCertified X t) :=
  inferInstanceAs (Decidable (∀ proposal ∈ t.event.proposal, ∀ qc ∈ _, _ = true))

instance LinksCertified.decidable (X : Externals) (t : ChainTransition) :
    Decidable (LinksCertified X t) :=
  inferInstanceAs (Decidable (∀ proposal ∈ t.event.proposal, _ → _ → ∀ qc ∈ _, _ = true))

/-- A node receives its key and the public keys, and enters the first view. -/
def joinEvents (node : Fin 4) : List Event :=
  [.message (.tblsKey (fourNodes.key .transparent node)) [],
    .message (.consensusNodePKsInfo (fourKeys.map pkInfoOf)) (fourKeys.map pkInfoOf)]

/-- The signature of the given nodes on a block in a view. -/
def fourSignature (viewNum : UInt64) (block : Block) (nodes : List (Fin 4)) : Option Bytes :=
  Externals.transparent.combineSignatures (fourNodes.key .transparent 0).pkSet
    (HashMap.ofEntries (nodes.map fun node ↦ (fourNodes.number node,
      (fourNodes.key .transparent node).sign Externals.transparent.toBlsttc
        (asBytes (getGenericHash .transparent GENERIC viewNum block)))))

/-- Blocks on top of each other, each under a QC of the given nodes. -/
def chainOf (nodes : List (Fin 4)) : List String → Block
  | [] => { cmd := "", parentHash := "", justify := none }
  | [cmd] => { cmd := cmd, parentHash := "", justify := none }
  | cmd :: rest =>
    let parent := chainOf nodes rest
    let viewNum := UInt64.ofNat rest.length
    { cmd := cmd
      parentHash := getBlockHash .transparent parent
      justify := some
        { viewNum := viewNum, block := parent, signature := fourSignature viewNum parent nodes } }

/-- The second node receives a chain of four blocks in the first view. -/
def chainEvents (nodes : List (Fin 4)) : List Event :=
  joinEvents 1 ++ [.message (.generic
    { viewNum := 1, block := some (chainOf nodes ["d", "c", "b", "a"]), justify := none,
      fromPeerId := [1] }) []]

theorem commitsCertified_iff_links_four :
    ∃ run p t, IsRun (step .transparent [2]) (ChainHotstuffProtocol.new 1 "") run p ∧ t ∈ run ∧
      t.out.reliesOn = 3 ∧ LinksCertified .transparent t ∧ CommitsCertified .transparent t := by
  have hrun : IsRun (step .transparent [2]) (ChainHotstuffProtocol.new 1 "")
      (transitions (step .transparent [2]) (ChainHotstuffProtocol.new 1 "") (chainEvents [0, 1, 2])) _ :=
    .of_isSome (by decide +kernel)
  let t := (transitions (step .transparent [2]) (ChainHotstuffProtocol.new 1 "")
    (chainEvents [0, 1, 2])).get ⟨2, by decide +kernel⟩
  have hlinks : LinksCertified .transparent t := by decide +kernel
  exact ⟨_, _, t, hrun, List.get_mem _ _, by decide +kernel, hlinks,
    (commitsCertified_iff_links hrun (List.get_mem _ _)).2 hlinks⟩

/-- A chain whose QCs carry no signature makes the replica store two of them and execute a command. -/
theorem not_commitsCertified_of_unsigned :
    ∃ run p t, IsRun (step .transparent [2]) (ChainHotstuffProtocol.new 1 "") run p ∧ t ∈ run ∧
      t.out.stored.map QC.signature = [none, none] ∧
      t.post.state.genericQC.isSome = true ∧ t.post.state.lockedQC.isSome = true ∧
      t.out.reliesOn = 3 ∧ ¬ CommitsCertified .transparent t := by
  have hrun : IsRun (step .transparent [2]) (ChainHotstuffProtocol.new 1 "")
      (transitions (step .transparent [2]) (ChainHotstuffProtocol.new 1 "") (chainEvents [])) _ :=
    .of_isSome (by decide +kernel)
  exact ⟨_, _, (transitions (step .transparent [2]) (ChainHotstuffProtocol.new 1 "")
    (chainEvents [])).get ⟨2, by decide +kernel⟩, hrun, List.get_mem _ _, by decide +kernel,
    by decide +kernel, by decide +kernel, by decide +kernel, by decide +kernel⟩

end BFTDiagnosis.ChainHotstuff
