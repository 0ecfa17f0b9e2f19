import BFTDiagnosis.ChainHotstuff.Execution
import BFTDiagnosis.ChainHotstuff.VoteUniqueness

/-!
# The order of the certificates that a replica keeps

A replica should never go back to an older `generic_qc` or `locked_qc`. A quorum of new views keeps the newest of
the certificates that it has seen, but an accepted proposal and a quorum of votes overwrite what is there. So the
certificates move forward exactly as long as what arrives is not older.
-/

namespace BFTDiagnosis.ChainHotstuff

open Components Utils Word Hotstuff ChainHotstuffProtocol

variable {X : Externals} {p p' : ChainHotstuffProtocol} {me : Bytes} {event : Event} {out : Outcome}

/-! ## Certificates that are not older -/

/-- Once there is a certificate, there is one, and of no earlier view. -/
def NotOlder (old new : Option QC) : Prop := ∀ qc ∈ old, ∃ qc' ∈ new, qc.viewNum ≤ qc'.viewNum

theorem NotOlder.refl (qc : Option QC) : NotOlder qc qc := fun q hq ↦ ⟨q, hq, UInt64.le_refl _⟩

theorem NotOlder.trans {first second third : Option QC} (h : NotOlder first second) (h' : NotOlder second third) :
    NotOlder first third := by
  intro qc hqc
  obtain ⟨qc', hqc', hle⟩ := h qc hqc
  obtain ⟨qc'', hqc'', hle'⟩ := h' qc' hqc'
  exact ⟨qc'', hqc'', UInt64.le_trans hle hle'⟩

theorem notOlder_some_iff {old : Option QC} {new : QC} :
    NotOlder old (some new) ↔ ∀ qc ∈ old, qc.viewNum ≤ new.viewNum := by
  refine forall₂_congr fun qc _ ↦ ⟨?_, fun hle ↦ ⟨new, rfl, hle⟩⟩
  rintro ⟨qc', hqc', hle⟩
  rwa [Option.some.inj hqc']

/-- A certificate that is only replaced when there is a new one. -/
theorem notOlder_or_iff {old new : Option QC} :
    NotOlder old (new.or old) ↔ ∀ qc' ∈ new, ∀ qc ∈ old, qc.viewNum ≤ qc'.viewNum := by
  cases new with
  | none => exact ⟨fun _ qc' hqc' ↦ absurd hqc' (Option.not_mem_none qc'), fun _ ↦ .refl old⟩
  | some new =>
    rw [Option.some_or, notOlder_some_iff]
    exact ⟨fun h qc' hqc' ↦ Option.some.inj hqc' ▸ h, fun h ↦ h new rfl⟩

/-- The certificate that a quorum of new views picks is not older than the own one. -/
theorem notOlder_of_getHighQCByView {log : Log} {viewNum : UInt64} {genericQC highQC : Option QC}
    (h : log.getHighQCByView viewNum genericQC = some highQC) : NotOlder genericQC highQC := by
  have hfirst := Log.firstHighest_of_getHighQCByView h
  rintro qc rfl
  cases highQC with
  | none => cases hfirst.eq_none_iff.1 rfl (some qc) List.mem_cons_self
  | some highQC => exact ⟨highQC, rfl, hfirst.le List.mem_cons_self⟩

/-! ## What a call does to the certificates -/

def Event.vote : Event → Option Vote
  | .message (.vote vote) _ => some vote
  | _ => none

/-- The vote has a valid share of a registered voter, which completes a quorum of recorded shares. -/
def CompletesQuorum (X : Externals) (p : ChainHotstuffProtocol) (vote : Vote) : Prop :=
  ∃ pkInfo ∈ p.consensusNodePks.lookup vote.fromPeerId,
    X.verifyShare pkInfo.publicKey vote.partialSignature
      (asBytes (getGenericHash X GENERIC vote.viewNum vote.block)) = true ∧
    ((p.log.sharesAt (getGenericHash X GENERIC vote.viewNum vote.block)).insert pkInfo.number
      vote.partialSignature).len = 2 * p.state.faultToleranceCount.toNat + 1

/-- What becomes of the two certificates in a call. -/
inductive Certifies (X : Externals) (p : ChainHotstuffProtocol) (event : Event) (p' : ChainHotstuffProtocol) : Prop
  | kept (noBlock : acceptedBlock X p event = none)
      (noQuorum : ∀ vote ∈ event.vote, ¬ CompletesQuorum X p vote)
      (generic : NotOlder p.state.genericQC p'.state.genericQC) (locked : p'.state.lockedQC = p.state.lockedQC) :
      Certifies X p event p'
  | accepted (block : Block) (voteless : event.vote = none) (accepted : acceptedBlock X p event = some block)
      (generic : p'.state.genericQC = (block.link X).or p.state.genericQC)
      (locked : p'.state.lockedQC = ((block.link X).bind fun qc ↦ qc.block.link X).or p.state.lockedQC) :
      Certifies X p event p'
  | completed (vote : Vote) (signature : Bytes) (vote_eq : event.vote = some vote)
      (noBlock : acceptedBlock X p event = none) (quorum : CompletesQuorum X p vote)
      (generic : p'.state.genericQC =
        some { viewNum := vote.viewNum, block := vote.block, signature := some signature })
      (locked : p'.state.lockedQC = p.state.lockedQC) : Certifies X p event p'

theorem conclude_certificates (p : ChainHotstuffProtocol) (queue : List (SendType Payload)) (signed : Option Vote)
    (b1 : Block) :
    (p.conclude X queue signed b1).1.state.genericQC = (b1.link X).or p.state.genericQC ∧
      (p.conclude X queue signed b1).1.state.lockedQC =
        ((b1.link X).bind fun qc ↦ qc.block.link X).or p.state.lockedQC := by
  rw [conclude, formChain_eq]
  exact ⟨rfl, rfl⟩

/-- A block of the view of the replica is refused, or its chain sets the certificates. -/
theorem ChainHotstuffProtocol.BlockEffect.certificates {b1 : Block} (h : BlockEffect X me p b1 p' out) :
    (p.safeNode X b1 b1.justify = false ∧ p' = p) ∨ (p.safeNode X b1 b1.justify = true ∧
      p'.state.genericQC = (b1.link X).or p.state.genericQC ∧
      p'.state.lockedQC = ((b1.link X).bind fun qc ↦ qc.block.link X).or p.state.lockedQC) := by
  cases h with
  | refused hrejected => exact .inl ⟨hrejected, rfl⟩
  | accepted p₁ queue signed hsafe hcast =>
    obtain ⟨hgeneric, hlocked⟩ := conclude_certificates (X := X) p₁ queue signed b1
    rw [hgeneric, hlocked]
    cases hcast <;> exact .inr ⟨hsafe, rfl, rfl⟩

theorem handleVote_certifies {vote : Vote} {order : List (Bytes × ConsensusNodePKInfo)}
    (h : p.handleVote X vote = some (p', out)) : Certifies X p (.message (.vote vote) order) p' := by
  simp only [handleVote, bind, pure, Option.bind_eq_some_iff] at h
  obtain ⟨pkInfo, hregistered, hrest⟩ := h
  split at hrest
  case isTrue hinvalid =>
    obtain ⟨rfl, -⟩ := Prod.mk.inj (Option.some.inj hrest)
    refine .kept rfl ?_ (.refl _) rfl
    rintro other hother ⟨pkInfo', hregistered', hvalid, -⟩
    obtain rfl := Option.some.inj hother
    obtain rfl := Option.some.inj (hregistered.symm.trans hregistered')
    simp [hvalid] at hinvalid
  case isFalse hvalid =>
    simp only [Option.bind_eq_some_iff] at hrest
    obtain ⟨threshold, hthreshold, hrest⟩ := hrest
    rw [Log.getPartialSignaturesCountByMessageHash, countSignatures_eq_len, toNat_of_quorumSize hthreshold,
      Log.recordMessgaePartialSignature, HashMap.mapAt_insertAt_self] at hrest
    split at hrest
    case isTrue hcount =>
      obtain ⟨rfl, -⟩ := Prod.mk.inj (Option.some.inj hrest)
      refine .kept rfl ?_ (.refl _) rfl
      rintro other hother ⟨pkInfo', hregistered', -, hquorum⟩
      obtain rfl := Option.some.inj hother
      obtain rfl := Option.some.inj (hregistered.symm.trans hregistered')
      exact hcount hquorum
    case isFalse hcount =>
      simp only [Option.bind_eq_some_iff, Option.some.injEq, Prod.mk.injEq] at hrest
      obtain ⟨shares, -, keypair, -, signature, -, rfl, -⟩ := hrest
      exact .completed vote signature rfl rfl
        ⟨pkInfo, hregistered, by simpa using hvalid, not_not.1 hcount⟩ rfl rfl

theorem step_vote_certifies {vote : Vote} {order : List (Bytes × ConsensusNodePKInfo)}
    (h : step X me p (.message (.vote vote) order) = some (p', out)) :
    Certifies X p (.message (.vote vote) order) p' := by
  obtain ⟨peer, -, hhandled⟩ := Option.bind_eq_some_iff.1 h
  exact handleVote_certifies hhandled

/-- A proposal of the view of the replica. -/
theorem generic_certifies {generic : Generic} {b1 : Block} {order : List (Bytes × ConsensusNodePKInfo)}
    {taken : Finset Bytes} (hblock : generic.block = some b1) (hview : p.state.view = generic.viewNum)
    (hhandled : BlockEffect X me (p.take taken) b1 p' out) :
    Certifies X p (.message (.generic generic) order) p' := by
  rcases hhandled.certificates with ⟨hrefused, rfl⟩ | ⟨hsafe, hgeneric, hlocked⟩
  · refine .kept ?_ (fun _ hvote ↦ by cases hvote) (.refl _) rfl
    rw [acceptedBlock_generic hblock, if_neg fun hboth ↦ Bool.false_ne_true (hrefused.symm.trans hboth.2)]
  · exact .accepted b1 rfl (by rw [acceptedBlock_generic hblock, if_pos ⟨hview, hsafe⟩]) hgeneric hlocked

/-- What every call but a reset does. -/
theorem step_certifies (hreset : event.isReset = false) (h : step X me p event = some (p', out)) :
    Certifies X p event p' := by
  cases step_effect h with
  | rejected vote order => exact step_vote_certifies h
  | vote vote order pkInfo hregistered => exact step_vote_certifies h
  | voteQuorum vote order pkInfo signature hregistered hcount => exact step_vote_certifies h
  | generic generic b1 order taken p' out hblock hview hhandled => exact generic_certifies hblock hview hhandled
  | otherView generic b1 order taken hblock hview =>
    refine .kept ?_ (fun _ hvote ↦ by cases hvote) (.refl _) rfl
    rw [acceptedBlock_generic hblock, if_neg fun hboth ↦ hview hboth.1]
  | newView generic order hblock =>
    refine .kept ?_ (fun _ hvote ↦ by cases hvote) (.refl _) rfl
    simp only [acceptedBlock, hblock, bind, Option.bind_none]
  | newViewQuorum generic order highQC currentLeader nextLeader hblock hpicked =>
    refine .kept ?_ (fun _ hvote ↦ by cases hvote) (notOlder_of_getHighQCByView hpicked) rfl
    simp only [acceptedBlock, hblock, bind, Option.bind_none]
  | request request order taken p' out hhandled =>
    rcases hhandled.certificates with ⟨hrefused, rfl⟩ | ⟨hsafe, hgeneric, hlocked⟩
    · exact .kept (if_neg fun hsafe ↦ Bool.false_ne_true (hrefused.symm.trans hsafe))
        (fun _ hvote ↦ by cases hvote) (.refl _) rfl
    · exact .accepted _ rfl (if_pos hsafe) hgeneric hlocked
  | ignored msg order hmsg =>
    rcases hmsg with rfl | ⟨text, rfl⟩
    · exact .kept rfl (fun _ hvote ↦ by cases hvote) (.refl _) rfl
    · exact .kept rfl (fun _ hvote ↦ by cases hvote) (.refl _) rfl
  | tblsKey key order => exact .kept rfl (fun _ hvote ↦ by cases hvote) (.refl _) rfl
  | consensusNodePKsInfo entries order nodes currentLeader nextLeader =>
    exact .kept rfl (fun _ hvote ↦ by cases hvote) (.refl _) rfl
  | initialStart nodes randomness order pkOrder keypair numbers currentLeader nextLeader =>
    exact .kept rfl (fun _ hvote ↦ by cases hvote) (.refl _) rfl
  | viewTimeout timeout currentLeader nextLeader queue hqueue =>
    exact .kept rfl (fun _ hvote ↦ by cases hvote) (.refl _) rfl
  | protocolReset peerId => cases hreset

/-! ## Calls in order -/

/-- No certificate that a call stores is older than the one that it replaces: the QC of an accepted block, the QC
below it, and the QC of a quorum of votes. -/
structure InOrder (X : Externals) (p : ChainHotstuffProtocol) (event : Event) : Prop where
  generic : ∀ block ∈ acceptedBlock X p event, ∀ qc' ∈ block.link X,
    ∀ qc ∈ p.state.genericQC, qc.viewNum ≤ qc'.viewNum
  locked : ∀ block ∈ acceptedBlock X p event, ∀ qc' ∈ (block.link X).bind fun qc ↦ qc.block.link X,
    ∀ qc ∈ p.state.lockedQC, qc.viewNum ≤ qc'.viewNum
  votes : ∀ vote ∈ event.vote, CompletesQuorum X p vote →
    ∀ qc ∈ p.state.genericQC, qc.viewNum ≤ vote.viewNum

/-- Neither certificate of the second state is older. -/
def CertificatesForward (p p' : ChainHotstuffProtocol) : Prop :=
  NotOlder p.state.genericQC p'.state.genericQC ∧ NotOlder p.state.lockedQC p'.state.lockedQC

theorem Certifies.forward_iff (h : Certifies X p event p') : CertificatesForward p p' ↔ InOrder X p event := by
  unfold CertificatesForward
  cases h with
  | kept hblock hquorum hgeneric hlocked =>
    rw [hlocked]
    refine ⟨fun _ ↦ ⟨?_, ?_, ?_⟩, fun _ ↦ ⟨hgeneric, .refl _⟩⟩
    · rw [hblock]
      exact fun block hnone ↦ absurd hnone (Option.not_mem_none block)
    · rw [hblock]
      exact fun block hnone ↦ absurd hnone (Option.not_mem_none block)
    · exact fun vote hvote hcompletes ↦ absurd hcompletes (hquorum vote hvote)
  | accepted block hvoteless haccepted hgeneric hlocked =>
    rw [hgeneric, hlocked, notOlder_or_iff, notOlder_or_iff]
    constructor
    · rintro ⟨hgeneric', hlocked'⟩
      refine ⟨?_, ?_, ?_⟩
      · rw [haccepted]
        exact fun block' hblock' ↦ Option.some.inj hblock' ▸ hgeneric'
      · rw [haccepted]
        exact fun block' hblock' ↦ Option.some.inj hblock' ▸ hlocked'
      · intro vote hvote
        rw [hvoteless] at hvote
        cases hvote
    · exact fun horder ↦ ⟨horder.generic block haccepted, horder.locked block haccepted⟩
  | completed vote signature hvote hblock hquorum hgeneric hlocked =>
    rw [hgeneric, hlocked, notOlder_some_iff]
    constructor
    · rintro ⟨hvotes, -⟩
      refine ⟨?_, ?_, ?_⟩
      · rw [hblock]
        exact fun block hnone ↦ absurd hnone (Option.not_mem_none block)
      · rw [hblock]
        exact fun block hnone ↦ absurd hnone (Option.not_mem_none block)
      · rw [hvote]
        exact fun vote' hvote' _ ↦ Option.some.inj hvote' ▸ hvotes
    · exact fun horder ↦ ⟨horder.votes vote hvote hquorum, .refl _⟩

/-- Neither certificate goes back to an older one, from any call of a run to any later one. -/
def CertificatesOnlyForward (run : List ChainTransition) : Prop :=
  ∀ before t after, run = before ++ t :: after → ∀ t' ∈ t :: after, CertificatesForward t.pre t'.post

/-- In every run without a reset, from any state, the certificates only move forward if and only if every call is
in order. -/
theorem certificatesOnlyForward_iff {initial : ChainHotstuffProtocol} {run : List ChainTransition}
    (hrun : IsRun (step X me) initial run p) (hreset : ∀ t ∈ run, t.event.isReset = false) :
    CertificatesOnlyForward run ↔ ∀ t ∈ run, InOrder X t.pre t.event := by
  have hcertifies : ∀ t ∈ run, Certifies X t.pre t.event t.post := fun t ht ↦
    step_certifies (hreset t ht) (hrun.taken t ht)
  constructor
  · intro hforward t ht
    obtain ⟨before, after, hsplit⟩ := List.mem_iff_append.1 ht
    exact (hcertifies t ht).forward_iff.1 (hforward before t after hsplit t List.mem_cons_self)
  · intro horder before t after hsplit t' ht'
    have hstep : ∀ u ∈ t :: after, CertificatesForward u.pre u.post := by
      intro u hu
      have hmem : u ∈ run := hsplit ▸ List.mem_append_right before hu
      exact (hcertifies u hmem).forward_iff.2 (horder u hmem)
    have hrest : IsRun (step X me) t.pre (t :: after) p := (hrun.after hsplit).cons (hrun.before hsplit).2
    exact (hrest.related_of_forall CertificatesForward (fun q ↦ ⟨.refl _, .refl _⟩)
      (fun _ _ _ h h' ↦ ⟨h.1.trans h'.1, h.2.trans h'.2⟩) hstep).2 t' ht'

/-! ## Votes that come after the quorum of new views -/

instance CompletesQuorum.decidable (X : Externals) (p : ChainHotstuffProtocol) (vote : Vote) :
    Decidable (CompletesQuorum X p vote) :=
  inferInstanceAs (Decidable (∃ pkInfo ∈ p.consensusNodePks.lookup vote.fromPeerId, _ ∧ _))

instance InOrder.decidable (X : Externals) (p : ChainHotstuffProtocol) (event : Event) :
    Decidable (InOrder X p event) :=
  decidable_of_iff
    ((∀ block ∈ acceptedBlock X p event, ∀ qc' ∈ block.link X, ∀ qc ∈ p.state.genericQC,
        qc.viewNum ≤ qc'.viewNum) ∧
      (∀ block ∈ acceptedBlock X p event, ∀ qc' ∈ (block.link X).bind fun qc ↦ qc.block.link X,
        ∀ qc ∈ p.state.lockedQC, qc.viewNum ≤ qc'.viewNum) ∧
      ∀ vote ∈ event.vote, CompletesQuorum X p vote → ∀ qc ∈ p.state.genericQC, qc.viewNum ≤ vote.viewNum)
    ⟨fun h ↦ ⟨h.1, h.2.1, h.2.2⟩, fun h ↦ ⟨h.1, h.2, h.3⟩⟩

/-- Two views of four nodes. In the second one the fourth node, which leads the third view, has its quorum of new
views before the votes. -/
def lateVotes : List (Fin 4 × Event) :=
  let second := viewDeliveries ["b", "a"] (proposalOf ["b", "a"])
  ((List.finRange 4).flatMap fun node ↦ (joinEvents node).map (node, ·)) ++
    viewDeliveries ["a"] (proposalOf ["a"]) ++ second.take 4 ++ second.drop 6 ++ (second.drop 4).take 2

/-- What the fourth node is given. -/
def lateVotesOfFourth : List Event := (lateVotes.filter fun delivery ↦ delivery.1 == 3).map Prod.snd

/-- Up to here the certificates of the fourth node move forward, to the second view. -/
theorem certificatesOnlyForward_lateVotes :
    (final (step .transparent [4]) (.new 1 "") lateVotesOfFourth).state.genericQC.map QC.viewNum = some 2 ∧
    CertificatesOnlyForward (transitions (step .transparent [4]) (.new 1 "") lateVotesOfFourth) :=
  ⟨by decide +kernel, (certificatesOnlyForward_iff (IsRun.of_isSome (by decide +kernel)) (by decide +kernel)).2
    (by decide +kernel)⟩

/-- The proposal of the fourth node has the certificate of its new views, and with its own proposal the node goes
back from the certificate of the second view to that of the first. -/
theorem not_certificatesOnlyForward_lateVotes :
    Fresh fourNodes freshReplicas ∧ ∃ w, World.Reachable (nodeStep .transparent fourNodes)
        (Delivered .transparent fourNodes) (.start freshReplicas) w ∧
      IsRun (step .transparent (fourNodes.peerId 3)) (freshReplicas 3) (History.perNode some w.history 3)
        (w.nodes 3) ∧
      (∀ t ∈ History.perNode some w.history 3, t.event.isReset = false) ∧
      ¬ CertificatesOnlyForward (History.perNode some w.history 3) := by
  have hrun : (World.exec (nodeStep .transparent fourNodes) (Delivered .transparent fourNodes)
      (.start freshReplicas) (lateVotes ++ [(3, .message (.request ⟨"c"⟩) [])])).map (fun w ↦
        ((History.perNode some w.history 3).map fun t ↦ t.event.isReset,
          ((History.perNode some w.history 3).map fun t ↦
            (t.pre.state.genericQC.map QC.viewNum, t.post.state.genericQC.map QC.viewNum)).getLast?)) =
      some (List.replicate 10 false, some (some 2, some 1)) := by
    decide +kernel
  obtain ⟨w, hexec, hread⟩ := Option.map_eq_some_iff.1 hrun
  obtain ⟨hresets, hlast⟩ := Prod.mk.inj hread
  have hreach := World.Reachable.of_exec hexec
  refine ⟨fresh_freshReplicas, w, hreach, hreach.isRun rfl 3, ?_, ?_⟩
  · intro t ht
    have hmem := List.mem_map_of_mem (f := fun t : ChainTransition ↦ t.event.isReset) ht
    rw [hresets] at hmem
    exact List.eq_of_mem_replicate hmem
  · intro hforward
    obtain ⟨t, ht, hviews⟩ := List.mem_map.1 (List.mem_of_getLast? hlast)
    obtain ⟨hpre, hpost⟩ := Prod.mk.inj hviews
    obtain ⟨before, after, hsplit⟩ := List.mem_iff_append.1 ht
    obtain ⟨old, hold, hview⟩ := Option.map_eq_some_iff.1 hpre
    obtain ⟨new, hnew, hle⟩ := (hforward before t after hsplit t List.mem_cons_self).1 old hold
    have hview' := Option.map_eq_some_iff.1 hpost
    obtain ⟨new', hnew', hone⟩ := hview'
    obtain rfl := Option.some.inj (hnew.symm.trans hnew')
    rw [hview, hone] at hle
    exact absurd hle (by decide)

end BFTDiagnosis.ChainHotstuff
