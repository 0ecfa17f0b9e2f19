import BFTDiagnosis.ChainHotstuff.Certification
import BFTDiagnosis.ChainHotstuff.Network

/-!
# One vote for each view of chained HotStuff

A replica votes only in its own view, and leaves the view when it has sent its vote. A replica that is the
next leader keeps its vote to itself and stays in the view until it has a quorum of new views, so that it
accepts, and signs, further blocks of the view. Between two resets the votes of a view are for one block
exactly when a replica with a key accepts at most one block in a view whose next leader it is.
-/

namespace BFTDiagnosis.ChainHotstuff

open Components Utils Word Hotstuff ChainHotstuffProtocol

variable {X : Externals} {p p' : ChainHotstuffProtocol} {me : Bytes}

def Event.isReset : Event → Bool
  | .protocolReset _ => true
  | _ => false

/-- The view has moved on, or neither the view nor its next leader has changed. -/
def Forward (p p' : ChainHotstuffProtocol) : Prop :=
  p.state.view.toNat < p'.state.view.toNat ∨
    (p'.state.view = p.state.view ∧ p'.state.nextLeader = p.state.nextLeader)

theorem Forward.refl (p : ChainHotstuffProtocol) : Forward p p := .inr ⟨rfl, rfl⟩

theorem nextView_forward {queue : List (SendType Payload)} (h : p.nextView X me = some (p', queue)) :
    p.state.view.toNat < p'.state.view.toNat := by
  simp only [nextView, bind, pure, Option.bind_eq_some_iff] at h
  obtain ⟨nextView, hnext, p₁, -, hrest⟩ := h
  have hview : nextView.toNat = p.state.view.toNat + 1 := toNat_of_checkedAdd hnext
  have hpost : p'.state.view = nextView := by
    split at hrest
    case isTrue =>
      obtain ⟨rfl, -⟩ := Prod.mk.inj (Option.some.inj hrest)
      rfl
    case isFalse =>
      simp only [Option.bind_eq_some_iff, Option.some.injEq, Prod.mk.injEq] at hrest
      obtain ⟨leader, -, rfl, -⟩ := hrest
      rfl
  rw [hpost, hview]
  exact Nat.lt_succ_self _

theorem storageConsensusNodePk_forward {order : List (Bytes × ConsensusNodePKInfo)}
    {pksInfo : HashMap Bytes ConsensusNodePKInfo} {answer : Answer}
    (h : p.storageConsensusNodePk X order pksInfo me = some (p', answer)) :
    p.state.view.toNat < p'.state.view.toNat := by
  obtain ⟨-, -, -, queue, hnext⟩ := storageConsensusNodePk_cases h
  have hforward := nextView_forward hnext
  exact hforward

theorem extraInitialStart_forward {nodes : List PeerId} {randomness : Bytes} {order : List (String × PeerId)}
    {pkOrder : List (Bytes × ConsensusNodePKInfo)} {out : Outcome}
    (h : p.extraInitialStart X nodes me randomness order pkOrder = some (p', out)) :
    p.state.view.toNat < p'.state.view.toNat ∧ out.signed = none := by
  simp only [extraInitialStart, bind, pure, Option.bind_eq_some_iff, Option.some.injEq, Prod.mk.injEq,
    Prod.exists] at h
  obtain ⟨peer, -, p₁, answer, hdistribute, rfl, rfl⟩ := h
  obtain ⟨keys, stored, -, hstored, -⟩ := distributeKeys_cases hdistribute
  have hforward := storageConsensusNodePk_forward hstored
  exact ⟨hforward, rfl⟩

/-! ## Casting a vote -/

/-- A vote in the view of the replica: it moves on, or it is the next leader and stays. -/
structure Cast (me : Bytes) (p p' : ChainHotstuffProtocol) (block : Block) (vote : Vote) : Prop where
  key : p.keypair.isSome = true
  viewNum : vote.viewNum = p.state.view
  block : vote.block = block
  moved : p.state.view.toNat < p'.state.view.toNat ∨
    (p'.state.view = p.state.view ∧ p'.state.nextLeader = p.state.nextLeader ∧ p.state.nextLeader = me)

theorem castVote_cases {block : Block} {queue : List (SendType Payload)} {signed : Option Vote}
    (h : p.castVote X block me = some (p', queue, signed)) :
    (p.keypair = none ∧ p' = p ∧ signed = none) ∨ ∃ vote, signed = some vote ∧ Cast me p p' block vote := by
  unfold castVote at h
  split at h
  case h_1 hnone =>
    simp only [Option.some.injEq, Prod.mk.injEq] at h
    obtain ⟨rfl, -, rfl⟩ := h
    exact .inl ⟨hnone, rfl, rfl⟩
  case h_2 keypair hkey =>
    simp only [bind, pure, Option.bind_eq_some_iff] at h
    obtain ⟨pkInfo, -, leader, hleader, current, -, hrest⟩ := h
    have hisSome : p.keypair.isSome = true := by rw [hkey]; rfl
    split at hrest
    case isTrue hown =>
      simp only [Option.some.injEq, Prod.mk.injEq] at hrest
      obtain ⟨rfl, -, rfl⟩ := hrest
      have hnext : p.state.nextLeader = me := by rw [hown, Platform.eq_of_peerIdFromBytes hleader]
      exact .inr ⟨_, rfl, hisSome, rfl, rfl, .inr ⟨rfl, rfl, hnext⟩⟩
    case isFalse =>
      simp only [Option.bind_eq_some_iff, Option.some.injEq, Prod.mk.injEq, Prod.exists] at hrest
      obtain ⟨p₁, queue₁, hview, rfl, -, rfl⟩ := hrest
      exact .inr ⟨_, rfl, hisSome, rfl, rfl, .inl (nextView_forward hview)⟩

/-- The chain below a block changes neither the view nor the leaders. -/
theorem conclude_frame (p : ChainHotstuffProtocol) (queue : List (SendType Payload)) (signed : Option Vote)
    (b1 : Block) :
    (p.conclude X queue signed b1).1.state.view = p.state.view ∧
      (p.conclude X queue signed b1).1.state.nextLeader = p.state.nextLeader ∧
      (p.conclude X queue signed b1).2.signed = signed := by
  rw [conclude, formChain_eq]
  exact ⟨rfl, rfl, rfl⟩

/-- Handling a block of the view of the replica: it is refused, there is no key, or it is voted for. -/
theorem replicaHandleGeneric_cases {generic : Generic} {b1 : Block} {out : Outcome}
    (hblock : generic.block = some b1) (h : p.replicaHandleGeneric X generic me = some (p', out)) :
    (out.signed = none ∧ Forward p p' ∧ (p.safeNode X b1 b1.justify = false ∨ p.keypair = none)) ∨
      (p.safeNode X b1 b1.justify = true ∧ ∃ vote, out.signed = some vote ∧ Cast me p p' b1 vote) := by
  rw [replicaHandleGeneric, hblock] at h
  simp only at h
  split at h
  case isFalse hrejected =>
    obtain ⟨rfl, rfl⟩ := Prod.mk.inj (Option.some.inj h)
    exact .inl ⟨rfl, .refl _, .inl (Bool.eq_false_of_not_eq_true hrejected)⟩
  case isTrue hsafe =>
    simp only [bind, pure, Option.bind_eq_some_iff, Prod.exists] at h
    obtain ⟨p₁, queue, signed, hcast, hconclude⟩ := h
    have hp := congrArg Prod.fst (Option.some.inj hconclude)
    have hout := congrArg Prod.snd (Option.some.inj hconclude)
    obtain ⟨hview, hnext, hsigned⟩ := conclude_frame (X := X) p₁ queue signed b1
    rw [hp] at hview hnext
    rw [hout] at hsigned
    rcases castVote_cases hcast with ⟨hkey, rfl, rfl⟩ | ⟨vote, rfl, hvote⟩
    · exact .inl ⟨hsigned, .inr ⟨hview, hnext⟩, .inr hkey⟩
    · refine .inr ⟨hsafe, vote, hsigned, hvote.key, hvote.viewNum, hvote.block, ?_⟩
      rw [hview, hnext]
      exact hvote.moved

/-- What a call signs: nothing, and then it has accepted no block or has no key, or a vote for the block that
it has accepted. -/
inductive Signs (X : Externals) (me : Bytes) (p : ChainHotstuffProtocol) (event : Event)
    (p' : ChainHotstuffProtocol) (out : Outcome) : Prop
  | nothing (signed : out.signed = none) (forward : Forward p p')
      (unable : acceptedBlock X p event = none ∨ p.keypair = none) : Signs X me p event p' out
  | vote (block : Block) (vote : Vote) (signed : out.signed = some vote)
      (accepted : acceptedBlock X p event = some block) (cast : Cast me p p' block vote) : Signs X me p event p' out

theorem acceptedBlock_generic {generic : Generic} {block : Block} {order : List (Bytes × ConsensusNodePKInfo)}
    (hblock : generic.block = some block) :
    acceptedBlock X p (.message (.generic generic) order) =
      if p.state.view = generic.viewNum ∧ p.safeNode X block block.justify = true then some block else none := by
  rw [acceptedBlock, hblock]
  rfl

theorem handleGeneric_signs {generic : Generic} {order : List (Bytes × ConsensusNodePKInfo)} {out : Outcome}
    (h : p.handleGeneric X generic me = some (p', out)) :
    Signs X me p (.message (.generic generic) order) p' out := by
  unfold handleGeneric at h
  split at h
  case h_1 hblock =>
    have hnone : acceptedBlock X p (.message (.generic generic) order) = none := by
      simp only [acceptedBlock, hblock, bind, Option.bind_none]
    simp only [handleNewviewGeneric, bind, pure, Option.bind_eq_some_iff] at h
    obtain ⟨threshold, -, hrest⟩ := h
    split at hrest
    case isTrue =>
      simp only [Option.bind_eq_some_iff, Option.some.injEq, Prod.mk.injEq, Prod.exists] at hrest
      obtain ⟨highQC, -, p₁, queue, hnext, rfl, rfl⟩ := hrest
      have hforward := nextView_forward hnext
      exact .nothing rfl (.inl hforward) (.inl hnone)
    case isFalse =>
      obtain ⟨rfl, rfl⟩ := Prod.mk.inj (Option.some.inj hrest)
      exact .nothing rfl (.inr ⟨rfl, rfl⟩) (.inl hnone)
  case h_2 block hblock =>
    simp only at h
    split at h
    case isTrue hview =>
      obtain ⟨rfl, rfl⟩ := Prod.mk.inj (Option.some.inj h)
      refine .nothing rfl (.inr ⟨rfl, rfl⟩) (.inl ?_)
      rw [acceptedBlock_generic hblock, if_neg fun hboth ↦ hview hboth.1]
    case isFalse hview =>
      rcases replicaHandleGeneric_cases hblock h with ⟨hsigned, hforward, hunable⟩ | ⟨hsafe, vote, hsigned, hcast⟩
      · refine .nothing hsigned hforward (hunable.imp_left fun hrefused ↦ ?_)
        rw [acceptedBlock_generic hblock,
          if_neg fun hboth ↦ Bool.false_ne_true (hrefused.symm.trans hboth.2)]
      · refine .vote block vote hsigned ?_ ⟨hcast.key, hcast.viewNum, hcast.block, hcast.moved⟩
        rw [acceptedBlock_generic hblock, if_pos ⟨not_not.1 hview, hsafe⟩]

theorem handleRequest_signs {request : Request} {order : List (Bytes × ConsensusNodePKInfo)} {out : Outcome}
    (h : p.handleRequest X request me = some (p', out)) :
    Signs X me p (.message (.request request) order) p' out := by
  simp only [handleRequest, bind, pure, Option.bind_eq_some_iff, Option.some.injEq, Prod.mk.injEq,
    Prod.exists] at h
  obtain ⟨p₁, out₁, hhandled, rfl, rfl⟩ := h
  simp only [handleGeneric, ne_eq, not_true_eq_false, if_false] at hhandled
  rcases replicaHandleGeneric_cases rfl hhandled with ⟨hsigned, hforward, hunable⟩ | ⟨hsafe, vote, hsigned, hcast⟩
  · refine .nothing hsigned hforward (hunable.imp_left fun hrefused ↦ ?_)
    exact if_neg fun hsafe ↦ Bool.false_ne_true (hrefused.symm.trans hsafe)
  · exact .vote _ vote hsigned (if_pos hsafe) ⟨hcast.key, hcast.viewNum, hcast.block, hcast.moved⟩

theorem handleVote_frame {vote : Vote} {out : Outcome} (h : p.handleVote X vote = some (p', out)) :
    Forward p p' ∧ out.signed = none := by
  have heffect : StepEffect X [] p (.message (.vote vote) []) p' out := handleVote_effect h
  cases heffect with
  | rejected => exact ⟨.refl _, rfl⟩
  | ignored => exact ⟨.refl _, rfl⟩
  | vote => exact ⟨.inr ⟨rfl, rfl⟩, rfl⟩
  | voteQuorum => exact ⟨.inr ⟨rfl, rfl⟩, rfl⟩

/-- What any call but a reset signs. -/
theorem step_signs {event : Event} {out : Outcome} (hreset : event.isReset = false)
    (h : step X me p event = some (p', out)) : Signs X me p event p' out := by
  cases event with
  | initialStart nodes randomness order pkOrder =>
    obtain ⟨hforward, hsigned⟩ := extraInitialStart_forward h
    exact .nothing hsigned (.inl hforward) (.inl rfl)
  | viewTimeout =>
    simp only [step, viewTimeoutHandler, bind, pure, Option.bind_eq_some_iff, Option.some.injEq,
      Prod.mk.injEq, Prod.exists] at h
    obtain ⟨timeout, -, p₁, queue, hnext, rfl, rfl⟩ := h
    have hforward := nextView_forward hnext
    exact .nothing rfl (.inl hforward) (.inl rfl)
  | protocolReset peerId => cases hreset
  | message msg order =>
    cases msg with
    | init =>
      obtain ⟨rfl, rfl⟩ := Prod.mk.inj (Option.some.inj h)
      exact .nothing rfl (.refl _) (.inl rfl)
    | «end» msg =>
      obtain ⟨rfl, rfl⟩ := Prod.mk.inj (Option.some.inj h)
      exact .nothing rfl (.refl _) (.inl rfl)
    | request request =>
      obtain ⟨peer, hpeer, hhandled⟩ := Option.bind_eq_some_iff.1 h
      obtain rfl := Platform.eq_of_peerIdFromBytes hpeer
      exact handleRequest_signs hhandled
    | generic generic =>
      obtain ⟨peer, hpeer, hhandled⟩ := Option.bind_eq_some_iff.1 h
      obtain rfl := Platform.eq_of_peerIdFromBytes hpeer
      exact handleGeneric_signs hhandled
    | vote vote =>
      obtain ⟨peer, -, hhandled⟩ := Option.bind_eq_some_iff.1 h
      obtain ⟨hforward, hsigned⟩ := handleVote_frame hhandled
      exact .nothing hsigned hforward (.inl rfl)
    | tblsKey key =>
      obtain ⟨peer, -, hrest⟩ := Option.bind_eq_some_iff.1 h
      obtain ⟨rfl, rfl⟩ := Prod.mk.inj (Option.some.inj hrest)
      exact .nothing rfl (.inr ⟨rfl, rfl⟩) (.inl rfl)
    | consensusNodePKsInfo entries =>
      simp only [step, consensusProtocolMessageHandler, bind, pure, Option.bind_eq_some_iff,
        Option.some.injEq, Prod.mk.injEq, Prod.exists] at h
      obtain ⟨peer, -, p₁, answer, hstored, rfl, rfl⟩ := h
      have hforward := storageConsensusNodePk_forward hstored
      exact .nothing rfl (.inl hforward) (.inl rfl)

/-! ## Runs between two resets -/

/-- The votes of one view are for one block. -/
def VotesOncePerView (run : List ChainTransition) : Prop :=
  ∀ t ∈ run, ∀ t' ∈ run, ∀ vote ∈ t.out.signed, ∀ vote' ∈ t'.out.signed,
    vote.viewNum = vote'.viewNum → vote.block = vote'.block

/-- With a key, and in one view whose next leader it is, the replica accepts the same block in two calls. -/
def AcceptSameBlock (X : Externals) (me : Bytes) (t t' : ChainTransition) : Prop :=
  t.pre.keypair.isSome = true → t'.pre.keypair.isSome = true →
    t.pre.state.nextLeader = me → t'.pre.state.nextLeader = me → t.pre.state.view = t'.pre.state.view →
      ∀ block ∈ acceptedBlock X t.pre t.event, ∀ block' ∈ acceptedBlock X t'.pre t'.event, block = block'

instance AcceptSameBlock.decidable (X : Externals) (me : Bytes) (t t' : ChainTransition) :
    Decidable (AcceptSameBlock X me t t') :=
  inferInstanceAs (Decidable (_ → _ → _ → _ → _ → ∀ block ∈ acceptedBlock X t.pre t.event,
    ∀ block' ∈ acceptedBlock X t'.pre t'.event, block = block'))

/-- In every view whose next leader it is, the replica accepts one block only. -/
def OneBlockAsNextLeader (X : Externals) (me : Bytes) (run : List ChainTransition) : Prop :=
  ∀ t ∈ run, ∀ t' ∈ run, AcceptSameBlock X me t t'

/-- Every vote of the run is of an earlier view, or of the current one, and then the replica is, and was, the
next leader. -/
def VotesBehind (me : Bytes) (run : List ChainTransition) (p : ChainHotstuffProtocol) : Prop :=
  ∀ t ∈ run, ∀ vote ∈ t.out.signed, vote.viewNum.toNat < p.state.view.toNat ∨
    (vote.viewNum = p.state.view ∧ p.state.nextLeader = me ∧ t.pre.state.nextLeader = me)

/-- The view never goes back, and as long as it stays, so does the next leader. -/
theorem VotesBehind.forward {run : List ChainTransition} (h : VotesBehind me run p) (hforward : Forward p p') :
    VotesBehind me run p' := by
  intro t ht vote hvote
  rcases h t ht vote hvote with hless | ⟨hequal, hnext, hwas⟩
  · rcases hforward with hmoved | ⟨hview, -⟩
    · exact .inl (hless.trans hmoved)
    · exact .inl (hview ▸ hless)
  · rcases hforward with hmoved | ⟨hview, hsame⟩
    · exact .inl (by rw [hequal]; exact hmoved)
    · exact .inr ⟨hequal.trans hview.symm, hsame.trans hnext, hwas⟩

theorem Cast.forward {block : Block} {vote : Vote} (h : Cast me p p' block vote) : Forward p p' :=
  h.moved.imp_right fun hstayed ↦ ⟨hstayed.1, hstayed.2.1⟩

theorem VotesBehind.concat {run : List ChainTransition} {event : Event} {out : Outcome}
    (h : VotesBehind me run p) (hsigns : Signs X me p event p' out) :
    VotesBehind me (run ++ [⟨p, event, out, p'⟩]) p' := by
  cases hsigns with
  | nothing hsigned hforward =>
    refine fun t ht ↦ ?_
    rcases List.mem_append.1 ht with hearlier | hlast
    · exact h.forward hforward t hearlier
    · rw [List.mem_singleton.1 hlast, hsigned]
      exact fun vote hvote ↦ absurd hvote (Option.not_mem_none vote)
  | vote block vote hsigned haccepted hcast =>
    refine fun t ht ↦ ?_
    rcases List.mem_append.1 ht with hearlier | hlast
    · exact h.forward hcast.forward t hearlier
    · rw [List.mem_singleton.1 hlast, hsigned]
      intro vote' hvote'
      obtain rfl := Option.some.inj hvote'
      rw [hcast.viewNum]
      exact hcast.moved.imp_right fun hstayed ↦ ⟨hstayed.1.symm, hstayed.2.1.trans hstayed.2.2, hstayed.2.2⟩

theorem Signs.of_signed {event : Event} {out : Outcome} {vote : Vote} (h : Signs X me p event p' out)
    (hvote : vote ∈ out.signed) :
    acceptedBlock X p event = some vote.block ∧ vote.viewNum = p.state.view ∧ p.keypair.isSome = true := by
  cases h with
  | nothing hsigned =>
    rw [hsigned] at hvote
    cases hvote
  | vote block vote' hsigned haccepted hcast =>
    obtain rfl : vote' = vote := Option.some.inj (hsigned.symm.trans hvote)
    exact ⟨haccepted.trans (congrArg some hcast.block.symm), hcast.viewNum, hcast.key⟩

/-- With a key, an accepted block is signed in the current view. -/
theorem Signs.of_accepted {event : Event} {out : Outcome} {block : Block} (h : Signs X me p event p' out)
    (hblock : block ∈ acceptedBlock X p event) (hkey : p.keypair.isSome = true) :
    ∃ vote ∈ out.signed, vote.viewNum = p.state.view ∧ vote.block = block := by
  cases h with
  | nothing hsigned hforward hunable =>
    rcases hunable with hnone | hnokey
    · exact absurd (hnone.symm.trans hblock) (by simp)
    · rw [hnokey] at hkey
      cases hkey
  | vote block' vote hsigned haccepted hcast =>
    obtain rfl : block' = block := Option.some.inj (haccepted.symm.trans hblock)
    exact ⟨vote, hsigned, hcast.viewNum, hcast.block⟩

/-- A vote of the last transition agrees with an earlier vote of its view. -/
theorem block_eq_of_earlier {run : List ChainTransition} {t t' : ChainTransition} {vote vote' : Vote}
    (hbehind : VotesBehind me run t'.pre) (hone : OneBlockAsNextLeader X me (run ++ [t'])) (ht : t ∈ run)
    (hsigns : Signs X me t.pre t.event t.post t.out) (hsigns' : Signs X me t'.pre t'.event t'.post t'.out)
    (hvote : vote ∈ t.out.signed) (hvote' : vote' ∈ t'.out.signed) (hview : vote.viewNum = vote'.viewNum) :
    vote.block = vote'.block := by
  obtain ⟨haccepted, hcurrent, hkey⟩ := hsigns.of_signed hvote
  obtain ⟨haccepted', hcurrent', hkey'⟩ := hsigns'.of_signed hvote'
  rcases hbehind t ht vote hvote with hless | ⟨-, hnext', hnext⟩
  · rw [hview, hcurrent'] at hless
    exact absurd hless (Nat.lt_irrefl _)
  · exact hone t (List.mem_append_left _ ht) t' (List.mem_append_right _ (List.mem_singleton_self _)) hkey hkey' hnext
      hnext' (hcurrent.symm.trans (hview.trans hcurrent')) _ haccepted _ haccepted'

theorem votesOncePerView_concat {run : List ChainTransition} {t : ChainTransition}
    (hbehind : VotesBehind me run t.pre) (honce : VotesOncePerView run)
    (hsigns : ∀ t' ∈ run ++ [t], Signs X me t'.pre t'.event t'.post t'.out)
    (hone : OneBlockAsNextLeader X me (run ++ [t])) : VotesOncePerView (run ++ [t]) := by
  intro t₁ ht₁ t₂ ht₂ vote₁ hvote₁ vote₂ hvote₂ hview
  have hsigns₁ := hsigns t₁ ht₁
  have hsigns₂ := hsigns t₂ ht₂
  rcases List.mem_append.1 ht₁ with hearlier₁ | hlast₁
  · rcases List.mem_append.1 ht₂ with hearlier₂ | hlast₂
    · exact honce t₁ hearlier₁ t₂ hearlier₂ vote₁ hvote₁ vote₂ hvote₂ hview
    · obtain rfl := List.mem_singleton.1 hlast₂
      exact block_eq_of_earlier hbehind hone hearlier₁ hsigns₁ hsigns₂ hvote₁ hvote₂ hview
  · obtain rfl := List.mem_singleton.1 hlast₁
    rcases List.mem_append.1 ht₂ with hearlier₂ | hlast₂
    · exact (block_eq_of_earlier hbehind hone hearlier₂ hsigns₂ hsigns₁ hvote₂ hvote₁ hview.symm).symm
    · obtain rfl := List.mem_singleton.1 hlast₂
      rw [Option.some.inj (hvote₁.symm.trans hvote₂)]

theorem OneBlockAsNextLeader.earlier {run : List ChainTransition} {t : ChainTransition}
    (h : OneBlockAsNextLeader X me (run ++ [t])) : OneBlockAsNextLeader X me run :=
  fun t₁ ht₁ t₂ ht₂ ↦ h t₁ (List.mem_append_left _ ht₁) t₂ (List.mem_append_left _ ht₂)

/-- In every run without a reset, from any state, a replica votes once for each view if and only if it accepts,
with a key, one block only in every view whose next leader it is. -/
theorem votesOncePerView_iff {initial : ChainHotstuffProtocol} {run : List ChainTransition}
    (hrun : IsRun (step X me) initial run p) (hreset : ∀ t ∈ run, t.event.isReset = false) :
    VotesOncePerView run ↔ OneBlockAsNextLeader X me run := by
  have hsigns : ∀ t ∈ run, Signs X me t.pre t.event t.post t.out := fun t ht ↦
    step_signs (hreset t ht) (hrun.taken t ht)
  constructor
  · rintro honce t ht t' ht' hkey hkey' - - hview block hblock block' hblock'
    obtain ⟨vote, hvote, hcurrent, rfl⟩ := (hsigns t ht).of_accepted hblock hkey
    obtain ⟨vote', hvote', hcurrent', rfl⟩ := (hsigns t' ht').of_accepted hblock' hkey'
    exact honce t ht t' ht' vote hvote vote' hvote' (by rw [hcurrent, hcurrent', hview])
  · intro hone
    have hboth : VotesBehind me run p ∧ VotesOncePerView run := by
      clear hreset
      induction hrun with
      | nil => exact ⟨fun t ht ↦ absurd ht List.not_mem_nil, fun t ht ↦ absurd ht List.not_mem_nil⟩
      | snoc previous taken ih =>
        obtain ⟨hbehind, honce⟩ := ih (fun t ht ↦ hsigns t (List.mem_append_left _ ht)) hone.earlier
        have hlast := hsigns _ (List.mem_append_right _ (List.mem_singleton_self _))
        exact ⟨hbehind.concat hlast, votesOncePerView_concat hbehind honce hsigns hone⟩
    exact hboth.2

/-- The first leader of four nodes proposes a command in the first view. -/
def proposalFor (cmd : String) : Event :=
  .message (.generic
    { viewNum := 1, block := some { cmd := cmd, parentHash := "", justify := none }, justify := none,
      fromPeerId := [2] }) []

/-- What the third node, which leads the second view, signs when it is given proposals for some commands. -/
def signedFor (cmds : List String) : List (UInt64 × String) :=
  (transitions (step .transparent [3]) (.new 1 "") (joinEvents 2 ++ cmds.map proposalFor)).flatMap fun t ↦
    t.out.signed.toList.map fun vote ↦ (vote.viewNum, vote.block.cmd)

theorem votesOncePerView_oneProposal :
    signedFor ["a", "a"] = [(1, "a"), (1, "a")] ∧ VotesOncePerView
      (transitions (step .transparent [3]) (.new 1 "") (joinEvents 2 ++ ["a", "a"].map proposalFor)) := by
  refine ⟨by decide +kernel, (@votesOncePerView_iff .transparent _ [3] _ _
    (IsRun.of_isSome (by decide +kernel)) (by decide +kernel)).2 ?_⟩
  unfold OneBlockAsNextLeader
  decide +kernel

/-- The third node signs two different blocks in the first view. -/
theorem not_votesOncePerView_twoProposals :
    ∃ run p, IsRun (step .transparent [3]) (ChainHotstuffProtocol.new 1 "") run p ∧
      (∀ t ∈ run, t.event.isReset = false) ∧ signedFor ["a", "b"] = [(1, "a"), (1, "b")] ∧
      ¬ VotesOncePerView run := by
  refine ⟨transitions (step .transparent [3]) (.new 1 "") (joinEvents 2 ++ ["a", "b"].map proposalFor), _,
    IsRun.of_isSome (by decide +kernel), by decide +kernel, by decide +kernel, ?_⟩
  unfold VotesOncePerView
  decide +kernel

end BFTDiagnosis.ChainHotstuff
