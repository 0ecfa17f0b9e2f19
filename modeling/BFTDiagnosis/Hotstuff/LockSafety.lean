import BFTDiagnosis.BasicHotstuff.VoteDiscipline
import BFTDiagnosis.ChainHotstuff.Certification

/-!
# Votes of a locked replica

A replica that is locked on a QC should vote only for a child of the locked block, or for a proposal
whose own QC is of a later view. Both protocols check this in `safe_node`, but a proposal without a QC
goes around the check: Basic HotStuff then asks for an empty parent hash instead, and chained HotStuff
for nothing. A locked replica therefore keeps to the lock exactly on the proposals that have a QC,
extend the locked block anyway, or get no vote for another reason.
-/

namespace BFTDiagnosis

open Components Utils Word Hotstuff

namespace BasicHotstuff

variable {X : Externals}

def Event.prepareMsg : Event → Option Prepare
  | .message (.prepare msg) _ => some msg
  | _ => none

/-- A locked replica votes for a proposal only if it extends the locked block, or has a QC of a later
view. -/
def KeepsLock (X : Externals) (t : Transition BasicHotstuffProtocol Event Answer) : Prop :=
  ∀ q ∈ t.pre.state.lockedQC, ∀ msg ∈ t.event.prepareMsg,
    (∃ vote ∈ signedVotes t.out, vote.2.2 = msg.block) →
      msg.block.parentHash = getBlockHash X q.block ∨ ∃ qc ∈ msg.justify, q.viewNum < qc.viewNum

/-- The proposal has a QC, extends the locked block, or gets no vote. -/
def Justified (X : Externals) (t : Transition BasicHotstuffProtocol Event Answer) : Prop :=
  ∀ q ∈ t.pre.state.lockedQC, ∀ msg ∈ t.event.prepareMsg,
    msg.justify.isSome = true ∨ msg.block.parentHash = getBlockHash X q.block ∨
      msg.block.parentHash ≠ "" ∨ t.pre.keypair.isNone = true

theorem Event.prepareMsg_eq_some {event : Event} {msg : Prepare} (h : event.prepareMsg = some msg) :
    ∃ order, event = .message (.prepare msg) order := by
  unfold prepareMsg at h
  split at h
  case h_1 msg' order => exact ⟨order, congrArg (Event.message · order) (congrArg _ (Option.some.inj h))⟩
  case h_2 => cases h

/-- The proposed block gets a vote exactly when the checks pass and there is a key. -/
theorem signed_prepare_iff {p p' : BasicHotstuffProtocol} {me : Bytes} {msg : Prepare}
    {order : List (Bytes × ConsensusNodePKInfo)} {out : Answer}
    (h : step X me p (.message (.prepare msg) order) = some (p', out)) :
    (∃ vote ∈ signedVotes out, vote.2.2 = msg.block) ↔
      p.checkPrepare X msg = true ∧ p.keypair.isSome = true := by
  constructor
  · rintro ⟨vote, hvote, -⟩
    have hproposal := step_signedVotes h hvote
    rw [acceptedProposal] at hproposal
    split at hproposal
    case isTrue hboth => exact hboth
    case isFalse => cases hproposal
  · intro hboth
    have hproposal : acceptedProposal X p (.message (.prepare msg) order) =
        some (.prepare, msg.viewNum, msg.block) := if_pos hboth
    exact ⟨_, mem_signedVotes_of_acceptedProposal h hproposal, rfl⟩

theorem keepsLock_iff {me : Bytes} {t : Transition BasicHotstuffProtocol Event Answer}
    (h : step X me t.pre t.event = some (t.post, t.out)) : KeepsLock X t ↔ Justified X t := by
  refine forall₄_congr fun q hq msg hmsg ↦ ?_
  obtain ⟨order, hevent⟩ := Event.prepareMsg_eq_some hmsg
  rw [hevent] at h
  rw [signed_prepare_iff h, BasicHotstuffProtocol.checkPrepare]
  have hlock : t.pre.state.lockedQC = some q := hq
  cases hjustify : msg.justify with
  | none =>
    cases hkey : t.pre.keypair with
    | none => simp
    | some keypair =>
      simp only [beq_iff_eq, Option.isSome_some, and_true, Option.mem_def, reduceCtorEq, false_and,
        exists_false, or_false, Option.isSome_none, Bool.false_eq_true, ne_eq, Option.isNone_some, false_or]
      tauto
  | some qc =>
    have hsafe : t.pre.safeNode X msg.block qc = true →
        msg.block.parentHash = getBlockHash X q.block ∨ q.viewNum < qc.viewNum := by
      simp only [BasicHotstuffProtocol.safeNode, hlock, Bool.or_eq_true, decide_eq_true_eq, beq_iff_eq]
      exact Or.symm
    simp only [Option.isSome_some, true_or, iff_true, Bool.and_eq_true, Option.mem_def,
      Option.some.injEq, exists_eq_left']
    exact fun hchecked ↦ hsafe hchecked.1.2

end BasicHotstuff

namespace ChainHotstuff

open ChainHotstuffProtocol

variable {X : Externals}

/-- A locked replica votes for a proposal only if it extends the locked block, or has a QC of a later
view. -/
def KeepsLock (X : Externals) (t : ChainTransition) : Prop :=
  ∀ q ∈ t.pre.state.lockedQC, ∀ proposal ∈ t.event.proposal,
    (∃ vote ∈ t.out.signed, vote.block = proposal.2) →
      proposal.2.parentHash = getBlockHash X q.block ∨ ∃ qc ∈ proposal.2.justify, q.viewNum < qc.viewNum

/-- The proposal has a QC, extends the locked block, or gets no vote. -/
def Justified (X : Externals) (t : ChainTransition) : Prop :=
  ∀ q ∈ t.pre.state.lockedQC, ∀ proposal ∈ t.event.proposal,
    proposal.2.justify.isSome = true ∨ proposal.2.parentHash = getBlockHash X q.block ∨
      t.pre.state.view ≠ proposal.1 ∨ t.pre.keypair.isNone = true

theorem signed_conclude (p : ChainHotstuffProtocol) (queue : List (SendType Payload))
    (signed : Option Vote) (b1 : Block) : (p.conclude X queue signed b1).2.signed = signed := rfl

/-- The proposed block gets a vote exactly when it is of the view, passes `safe_node` and there is a
key. -/
theorem signed_generic_iff {p p' : ChainHotstuffProtocol} {me : Bytes} {generic : Generic}
    {order : List (Bytes × ConsensusNodePKInfo)} {out : Outcome} {b1 : Block}
    (hblock : generic.block = some b1)
    (h : step X me p (.message (.generic generic) order) = some (p', out)) :
    (∃ vote ∈ out.signed, vote.block = b1) ↔
      p.state.view = generic.viewNum ∧ p.safeNode X b1 b1.justify = true ∧ p.keypair.isSome = true := by
  rcases step_proposal_cases hblock h with ⟨hview, rfl⟩ | ⟨hview, taken, hhandled⟩
  · simp [Outcome.of, hview]
  · cases hhandled with
    | refused hrejected =>
      have hfalse : p.safeNode X b1 b1.justify = false := hrejected
      simp [Outcome.of, hfalse]
    | accepted p₁ queue signed hsafe hcast =>
      have htrue : p.safeNode X b1 b1.justify = true := hsafe
      rw [signed_conclude]
      cases hcast with
      | keyless hnone =>
        have hkey : p.keypair = none := hnone
        simp [hkey]
      | own keypair pkInfo hkey hregistered =>
        have hsome : p.keypair = some keypair := hkey
        simp [hview, htrue, hsome, ballot]
      | sent keypair currentLeader nextLeader leader queue hkey hqueue =>
        have hsome : p.keypair = some keypair := hkey
        simp [hview, htrue, hsome, ballot]

theorem keepsLock_iff {me : Bytes} {t : ChainTransition}
    (h : step X me t.pre t.event = some (t.post, t.out)) : KeepsLock X t ↔ Justified X t := by
  refine forall₄_congr fun q hq proposal hproposal ↦ ?_
  obtain ⟨viewNum, b1⟩ := proposal
  obtain ⟨generic, order, hevent, hblock, rfl⟩ := Event.proposal_eq_some hproposal
  rw [hevent] at h
  rw [signed_generic_iff hblock h]
  have hlock : t.pre.state.lockedQC = some q := hq
  cases hjustify : b1.justify with
  | none =>
    cases hkey : t.pre.keypair with
    | none => simp
    | some keypair =>
      simp only [safeNode, Option.isSome_some, and_self, and_true, Option.mem_def, reduceCtorEq, false_and,
        exists_false, or_false, Option.isSome_none, Bool.false_eq_true, ne_eq, Option.isNone_some, false_or]
      tauto
  | some qc =>
    have hsafe : t.pre.safeNode X b1 (some qc) = true →
        b1.parentHash = getBlockHash X q.block ∨ q.viewNum < qc.viewNum := by
      simp only [safeNode, hlock, Bool.or_eq_true, decide_eq_true_eq, beq_iff_eq]
      exact Or.symm
    simp only [Option.isSome_some, true_or, iff_true, Option.mem_def, Option.some.injEq,
      exists_eq_left']
    exact fun hall ↦ hsafe hall.2.1

end ChainHotstuff

namespace Hotstuff

/-- In every run of both protocols, a locked replica keeps to its lock on a proposal exactly when the
proposal has a QC, extends the locked block, or gets no vote. -/
theorem keepsLock_iff_justified (me : Bytes) (f : UInt64) (peerId : String) :
    (∀ (X : BasicHotstuff.Externals) run p,
      IsRun (BasicHotstuff.step X me) (BasicHotstuff.BasicHotstuffProtocol.new f peerId) run p →
        ∀ t ∈ run, BasicHotstuff.KeepsLock X t ↔ BasicHotstuff.Justified X t) ∧
    (∀ (X : ChainHotstuff.Externals) run p,
      IsRun (ChainHotstuff.step X me) (ChainHotstuff.ChainHotstuffProtocol.new f peerId) run p →
        ∀ t ∈ run, ChainHotstuff.KeepsLock X t ↔ ChainHotstuff.Justified X t) := by
  constructor
  · intro X run p hrun t ht
    exact BasicHotstuff.keepsLock_iff (hrun.taken t ht)
  · intro X run p hrun t ht
    exact ChainHotstuff.keepsLock_iff (hrun.taken t ht)

end Hotstuff

/-! ## A locked replica of each protocol -/

namespace BasicHotstuff

instance KeepsLock.decidable (X : Externals) (t : Transition BasicHotstuffProtocol Event Answer) :
    Decidable (KeepsLock X t) :=
  inferInstanceAs (Decidable (∀ q ∈ t.pre.state.lockedQC, ∀ msg ∈ t.event.prepareMsg,
    (∃ vote ∈ signedVotes t.out, _ = _) → _ = _ ∨ ∃ qc ∈ msg.justify, _ < _))

instance Justified.decidable (X : Externals) (t : Transition BasicHotstuffProtocol Event Answer) :
    Decidable (Justified X t) :=
  inferInstanceAs (Decidable (∀ q ∈ t.pre.state.lockedQC, ∀ msg ∈ t.event.prepareMsg,
    _ = true ∨ _ = _ ∨ _ ≠ _ ∨ _ = true))

/-- A replica locks the first block and receives a child of it. -/
def lockedChildEvents : List Event :=
  disciplinedEvents ++ [.message (.prepare
    { viewNum := 1, block := { cmd := "b", parentHash := getBlockHash .transparent genesisBlock },
      justify := some (fourQC .prepare 1 genesisBlock [0, 1, 2]), fromPeerId := [1] }) []]

/-- A replica locks the first block and receives a proposal without a QC. -/
def lockedOrphanEvents : List Event := disciplinedEvents ++ [proposal 1 "c"]

end BasicHotstuff

namespace ChainHotstuff

instance KeepsLock.decidable (X : Externals) (t : ChainTransition) : Decidable (KeepsLock X t) :=
  inferInstanceAs (Decidable (∀ q ∈ t.pre.state.lockedQC, ∀ proposal ∈ t.event.proposal,
    (∃ vote ∈ t.out.signed, _ = _) → _ = _ ∨ ∃ qc ∈ proposal.2.justify, _ < _))

instance Justified.decidable (X : Externals) (t : ChainTransition) : Decidable (Justified X t) :=
  inferInstanceAs (Decidable (∀ q ∈ t.pre.state.lockedQC, ∀ proposal ∈ t.event.proposal,
    _ = true ∨ _ = _ ∨ _ ≠ _ ∨ _ = true))

/-- A replica locks a block of a chain and receives another block in the next view. -/
def lockedEvents (block : Block) : List Event :=
  chainEvents [0, 1, 2] ++ [.message (.generic
    { viewNum := 2, block := some block, justify := none, fromPeerId := [3] }) []]

end ChainHotstuff

namespace Hotstuff

open BasicHotstuff in
theorem keepsLock_iff_justified_four :
    (∃ run p t, IsRun (BasicHotstuff.step .transparent [2]) (BasicHotstuffProtocol.new 1 "") run p ∧
      t ∈ run ∧ t.pre.state.lockedQC.isSome = true ∧ (signedVotes t.out).length = 1 ∧
      BasicHotstuff.Justified .transparent t ∧ BasicHotstuff.KeepsLock .transparent t) ∧
    (∃ run p t, IsRun (ChainHotstuff.step .transparent [2]) (ChainHotstuff.ChainHotstuffProtocol.new 1 "")
        run p ∧
      t ∈ run ∧ t.pre.state.lockedQC.isSome = true ∧ t.out.signed.isSome = true ∧
      ChainHotstuff.Justified .transparent t ∧ ChainHotstuff.KeepsLock .transparent t) := by
  constructor
  · have hrun : IsRun (BasicHotstuff.step .transparent [2]) (BasicHotstuffProtocol.new 1 "")
        (transitions (BasicHotstuff.step .transparent [2]) (BasicHotstuffProtocol.new 1 "")
          lockedChildEvents) _ := .of_isSome (by decide +kernel)
    let t := (transitions (BasicHotstuff.step .transparent [2]) (BasicHotstuffProtocol.new 1 "")
      lockedChildEvents).get ⟨5, by decide +kernel⟩
    have hjustified : BasicHotstuff.Justified .transparent t := by decide +kernel
    exact ⟨_, _, t, hrun, List.get_mem _ _, by decide +kernel, by decide +kernel, hjustified,
      ((keepsLock_iff_justified _ _ _).1 _ _ _ hrun t (List.get_mem _ _)).2 hjustified⟩
  · have hrun : IsRun (ChainHotstuff.step .transparent [2])
        (ChainHotstuff.ChainHotstuffProtocol.new 1 "")
        (transitions (ChainHotstuff.step .transparent [2]) (ChainHotstuff.ChainHotstuffProtocol.new 1 "")
          (ChainHotstuff.lockedEvents (ChainHotstuff.chainOf [0, 1, 2] ["e", "d", "c", "b", "a"]))) _ :=
      .of_isSome (by decide +kernel)
    let t := (transitions (ChainHotstuff.step .transparent [2])
      (ChainHotstuff.ChainHotstuffProtocol.new 1 "")
      (ChainHotstuff.lockedEvents (ChainHotstuff.chainOf [0, 1, 2] ["e", "d", "c", "b", "a"]))).get
        ⟨3, by decide +kernel⟩
    have hjustified : ChainHotstuff.Justified .transparent t := by decide +kernel
    exact ⟨_, _, t, hrun, List.get_mem _ _, by decide +kernel, by decide +kernel, hjustified,
      ((keepsLock_iff_justified _ _ _).2 _ _ _ hrun t (List.get_mem _ _)).2 hjustified⟩

open BasicHotstuff in
/-- In both protocols a locked replica votes for a block without a QC that does not extend the
locked one. -/
theorem not_keepsLock_of_orphan :
    (∃ run p t, IsRun (BasicHotstuff.step .transparent [2]) (BasicHotstuffProtocol.new 1 "") run p ∧
      t ∈ run ∧ ¬ BasicHotstuff.KeepsLock .transparent t) ∧
    (∃ run p t, IsRun (ChainHotstuff.step .transparent [2]) (ChainHotstuff.ChainHotstuffProtocol.new 1 "")
        run p ∧
      t ∈ run ∧ ¬ ChainHotstuff.KeepsLock .transparent t) := by
  constructor
  · have hrun : IsRun (BasicHotstuff.step .transparent [2]) (BasicHotstuffProtocol.new 1 "")
        (transitions (BasicHotstuff.step .transparent [2]) (BasicHotstuffProtocol.new 1 "")
          lockedOrphanEvents) _ := .of_isSome (by decide +kernel)
    exact ⟨_, _, (transitions (BasicHotstuff.step .transparent [2]) (BasicHotstuffProtocol.new 1 "")
      lockedOrphanEvents).get ⟨5, by decide +kernel⟩, hrun, List.get_mem _ _, by decide +kernel⟩
  · have hrun : IsRun (ChainHotstuff.step .transparent [2])
        (ChainHotstuff.ChainHotstuffProtocol.new 1 "")
        (transitions (ChainHotstuff.step .transparent [2]) (ChainHotstuff.ChainHotstuffProtocol.new 1 "")
          (ChainHotstuff.lockedEvents { cmd := "z", parentHash := "", justify := none })) _ :=
      .of_isSome (by decide +kernel)
    exact ⟨_, _, (transitions (ChainHotstuff.step .transparent [2])
      (ChainHotstuff.ChainHotstuffProtocol.new 1 "")
      (ChainHotstuff.lockedEvents { cmd := "z", parentHash := "", justify := none })).get
        ⟨3, by decide +kernel⟩, hrun, List.get_mem _ _, by decide +kernel⟩

end Hotstuff

end BFTDiagnosis
