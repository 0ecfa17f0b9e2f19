import BFTDiagnosis.ChainHotstuff.Network
import BFTDiagnosis.Hotstuff.NodeTable

/-!
# Messages that abort a chained HotStuff node

As for Basic HotStuff, with the look-ups of this protocol: a replica with a key needs its own entry among the
public keys before it votes, and a view needs two leaders, its own and the next one. Once a node has public keys,
its leaders come from the table of nodes, so their ids are valid.
-/

namespace BFTDiagnosis.ChainHotstuff

open Components Utils Word Hotstuff ChainHotstuffProtocol

variable {X : Externals}

/-! ## The conditions -/

/-- There is a next view and one after it, and nodes with their numbers. -/
def CanAdvance (p : ChainHotstuffProtocol) : Prop :=
  p.state.view.toNat + 2 < 2 ^ 64 ∧ (nodeOfView p.pkConsensusNodes (p.state.view + 1)).isSome = true ∧
    (nodeOfView p.pkConsensusNodes (p.state.view + 1 + 1)).isSome = true

/-- A replica with a key needs its own entry among the public keys, and as it leaves the view unless it leads the
next one, what it needs for a new view. -/
def CastSurvives (p : ChainHotstuffProtocol) (me : Bytes) : Prop :=
  p.keypair.isSome = true →
    (p.consensusNodePks.lookup me).isSome = true ∧ (me = p.state.nextLeader ∨ CanAdvance p)

/-- What the handler of a message relies on. -/
def Survives (X : Externals) (p : ChainHotstuffProtocol) (me : Bytes) (order : List (Bytes × ConsensusNodePKInfo)) :
    MessageType → Prop
  | .request request =>
    p.safeNode X (p.proposedBlock X request) p.state.highQC = true → CastSurvives p me
  | .generic generic =>
    match generic.block with
    | none => (p.log.generics.listAt generic.viewNum).length = 2 * p.state.faultToleranceCount.toNat → CanAdvance p
    | some block =>
      p.state.view = generic.viewNum → p.safeNode X block block.justify = true → CastSurvives p me
  | .vote vote =>
    ∃ pkInfo, p.consensusNodePks.lookup vote.fromPeerId = some pkInfo ∧
      (X.verifyShare pkInfo.publicKey vote.partialSignature
          (asBytes (getGenericHash X GENERIC vote.viewNum vote.block)) = true →
        ((p.log.sharesAt (getGenericHash X GENERIC vote.viewNum vote.block)).insert pkInfo.number
            vote.partialSignature).len = 2 * p.state.faultToleranceCount.toNat + 1 →
          ∃ keypair, p.keypair = some keypair ∧ (keypair.combinePartialSignatures X.toBlsttc
            ((p.log.sharesAt (getGenericHash X GENERIC vote.viewNum vote.block)).insert pkInfo.number
              vote.partialSignature)).isSome = true)
  | .consensusNodePKsInfo _ => IdsValid X.toPlatform order ∧
      CanAdvance { p with pkConsensusNodes := assignNumbers p.pkConsensusNodes order }
  | _ => True

/-- Both leaders can be parsed. -/
def LeadersValid (X : Externals) (p : ChainHotstuffProtocol) : Prop :=
  X.peerIdValid p.state.currentLeader = true ∧ X.peerIdValid p.state.nextLeader = true

/-- What the handlers rely on and every reachable state has: one tolerated fault, valid ids in the table, and
valid leaders as soon as there are public keys. -/
structure Operational (X : Externals) (p : ChainHotstuffProtocol) : Prop where
  faults : p.state.faultToleranceCount = 1
  numbers : NumbersValid X.toPlatform p.pkConsensusNodes
  leaders : p.consensusNodePks = ∅ ∨ LeadersValid X p

/-! ## Handlers -/

section Handlers

variable {p p' : ChainHotstuffProtocol} {me : Bytes}

theorem Operational.quorumSize_eq (h : Operational X p) : quorumSize p.state.faultToleranceCount = some 3 := by
  rw [h.faults]
  rfl

theorem Operational.toNat_three (h : Operational X p) :
    (3 : UInt64).toNat = 2 * p.state.faultToleranceCount.toNat + 1 := by
  rw [h.faults]
  rfl

/-- A change of the leaders looks up the nodes of a view and of the next one. -/
theorem changeLeader_eq_some {viewNum : UInt64} :
    p.changeLeader viewNum = some p' ↔ viewNum.toNat + 1 < 2 ^ 64 ∧ ∃ currentLeader nextLeader,
      nodeOfView p.pkConsensusNodes viewNum = some currentLeader ∧
      nodeOfView p.pkConsensusNodes (viewNum + 1) = some nextLeader ∧
      p' = { p with state := { p.state with currentLeader := currentLeader, nextLeader := nextLeader } } := by
  have hone : (1 : UInt64).toNat = 1 := rfl
  simp only [changeLeader, bind, pure]
  unfold checkedAdd
  rw [hone]
  constructor
  · intro h
    split at h
    case isTrue => cases h
    case isFalse =>
      simp only [Option.bind_eq_some_iff, Option.some.injEq] at h
      obtain ⟨nextViewNum, hnext, currentLeader, hcurrent, nextLeader, hleader, rfl⟩ := h
      split at hnext
      case isFalse => cases hnext
      case isTrue hview =>
        obtain rfl := Option.some.inj hnext
        exact ⟨hview, currentLeader, nextLeader, hcurrent, hleader, rfl⟩
  · rintro ⟨hview, currentLeader, nextLeader, hcurrent, hleader, rfl⟩
    rw [if_neg (len_ne_zero_of_nodeOfView hcurrent), if_pos hview]
    rw [nodeOfView] at hcurrent hleader
    simp only [Option.bind_some, hcurrent, hleader]

/-- A new view takes its leaders from the table. -/
theorem nextView_leaders {queue : List (SendType Payload)} (h : p.nextView X me = some (p', queue))
    (hvalid : NumbersValid X.toPlatform p.pkConsensusNodes) : CanAdvance p ∧ LeadersValid X p' := by
  simp only [nextView, bind, pure, Option.bind_eq_some_iff] at h
  obtain ⟨nextView, hnext, p₁, hleader, hrest⟩ := h
  have hone : (1 : UInt64).toNat = 1 := rfl
  have hnat := toNat_of_checkedAdd hnext
  obtain rfl : p.state.view + 1 = nextView := by
    unfold checkedAdd at hnext
    split at hnext
    case isTrue => exact Option.some.inj hnext
    case isFalse => cases hnext
  obtain ⟨hview, currentLeader, nextLeader, hcurrent, hnextLeader, rfl⟩ := changeLeader_eq_some.1 hleader
  refine ⟨⟨by omega, by rw [hcurrent]; rfl, by rw [hnextLeader]; rfl⟩, ?_⟩
  have hleaders : X.peerIdValid currentLeader = true ∧ X.peerIdValid nextLeader = true :=
    ⟨hvalid _ _ hcurrent, hvalid _ _ hnextLeader⟩
  split at hrest
  case isTrue =>
    obtain ⟨rfl, -⟩ := Prod.mk.inj (Option.some.inj hrest)
    exact hleaders
  case isFalse =>
    simp only [Option.bind_eq_some_iff, Option.some.injEq, Prod.mk.injEq] at hrest
    obtain ⟨leader, -, rfl, -⟩ := hrest
    exact hleaders

theorem isSome_nextView (h : NumbersValid X.toPlatform p.pkConsensusNodes) :
    (p.nextView X me).isSome = true ↔ CanAdvance p := by
  constructor
  · intro hsome
    obtain ⟨⟨p', queue⟩, hnext⟩ := Option.isSome_iff_exists.1 hsome
    exact (nextView_leaders hnext h).1
  · rintro ⟨hview, hcurrent, hnext⟩
    have hone : (1 : UInt64).toNat = 1 := rfl
    have hfirst : checkedAdd p.state.view 1 = some (p.state.view + 1) := if_pos (by rw [hone]; omega)
    have hnat := toNat_of_checkedAdd hfirst
    obtain ⟨currentLeader, hcurrentLeader⟩ := Option.isSome_iff_exists.1 hcurrent
    obtain ⟨nextLeader, hnextLeader⟩ := Option.isSome_iff_exists.1 hnext
    have hchange := changeLeader_eq_some.2
      ⟨by omega, currentLeader, nextLeader, hcurrentLeader, hnextLeader, rfl⟩
    simp only [nextView, bind, pure, hfirst, Option.bind_some, hchange, Platform.peerIdFromBytes,
      h _ _ hcurrentLeader, if_true]
    split <;> rfl

theorem isSome_castVote (h : Operational X p) {block : Block} :
    (p.castVote X block me).isSome = true ↔ CastSurvives p me := by
  unfold castVote CastSurvives
  cases hkey : p.keypair with
  | none => simp
  | some keypair =>
    rw [Option.isSome_some, forall_prop_of_true rfl]
    cases hregistered : p.consensusNodePks.lookup me with
    | none => simp [hregistered]
    | some pkInfo =>
      have hleaders : LeadersValid X p := by
        refine h.leaders.resolve_left fun hempty ↦ ?_
        rw [hempty, Finmap.lookup_empty] at hregistered
        cases hregistered
      simp only [bind, pure, hregistered, Option.bind_some, Platform.peerIdFromBytes, hleaders.1, hleaders.2,
        if_true, Option.isSome_some, true_and]
      split
      case isTrue hnext => exact iff_of_true rfl (.inl hnext)
      case isFalse hother =>
        rw [or_iff_right hother, isSome_bind_some, isSome_nextView h.numbers]

theorem isSome_replicaHandleGeneric (h : Operational X p) {generic : Generic} {block : Block}
    (hblock : generic.block = some block) :
    (p.replicaHandleGeneric X generic me).isSome = true ↔
      (p.safeNode X block block.justify = true → CastSurvives p me) := by
  rw [replicaHandleGeneric, hblock]
  simp only
  split
  case isFalse hrefused => exact iff_of_true rfl fun hsafe ↦ absurd hsafe hrefused
  case isTrue hsafe =>
    rw [forall_prop_of_true hsafe, ← isSome_castVote h]
    exact iff_of_eq (congrArg (· = true) (isSome_bind_some _ _))

theorem isSome_handleNewviewGeneric (h : Operational X p) {generic : Generic} :
    (p.handleNewviewGeneric X generic me).isSome = true ↔
      ((p.log.generics.listAt generic.viewNum).length = 2 * p.state.faultToleranceCount.toNat → CanAdvance p) := by
  have hrecorded : (p.log.recordGeneric generic.viewNum generic).generics.lookup generic.viewNum =
      some (p.log.generics.listAt generic.viewNum ++ [generic]) := by
    rw [Log.recordGeneric, HashMap.pushAt_eq_insert, Finmap.lookup_insert]
  have hcount : (p.log.recordGeneric generic.viewNum generic).getGenericsCountByView generic.viewNum =
      (p.log.generics.listAt generic.viewNum).length + 1 := by
    rw [Log.getGenericsCountByView, Log.recordGeneric, HashMap.listAt_pushAt_self, List.length_append,
      List.length_singleton]
  simp only [handleNewviewGeneric, bind, pure, h.quorumSize_eq, Option.bind_some, hcount, h.toNat_three,
    Nat.add_right_cancel_iff]
  split
  case isFalse hfew => exact iff_of_true rfl fun hquorum ↦ absurd hquorum hfew
  case isTrue hquorum =>
    rw [forall_prop_of_true hquorum]
    simp only [Log.getHighQCByView, bind, pure, hrecorded, Option.bind_some]
    generalize (List.map Generic.justify _).foldl _ _ = highQC
    have hadvance := @isSome_nextView X
      { p with
        log := p.log.recordGeneric generic.viewNum generic
        state := { p.state with highQC := highQC, genericQC := highQC } } me h.numbers
    have hsame : CanAdvance
        { p with
          log := p.log.recordGeneric generic.viewNum generic
          state := { p.state with highQC := highQC, genericQC := highQC } } ↔ CanAdvance p := Iff.rfl
    rw [← hsame, ← hadvance]
    exact iff_of_eq (congrArg (· = true) (isSome_bind_some _ _))

theorem isSome_handleGeneric (h : Operational X p) {generic : Generic}
    {order : List (Bytes × ConsensusNodePKInfo)} :
    (p.handleGeneric X generic me).isSome = true ↔ Survives X p me order (.generic generic) := by
  unfold handleGeneric Survives
  cases hblock : generic.block with
  | none =>
    simp only [hblock]
    exact isSome_handleNewviewGeneric h
  | some block =>
    simp only [hblock]
    split
    case isTrue hother => exact iff_of_true rfl fun hview ↦ absurd hview hother
    case isFalse hview =>
      have htaken : Operational X (p.take (insert (X.requestBytes ⟨block.cmd⟩) p.takenRequests)) :=
        ⟨h.faults, h.numbers, h.leaders⟩
      rw [forall_prop_of_true (not_not.1 hview)]
      exact isSome_replicaHandleGeneric htaken hblock

theorem isSome_handleRequest (h : Operational X p) {request : Request}
    {order : List (Bytes × ConsensusNodePKInfo)} :
    (p.handleRequest X request me).isSome = true ↔ Survives X p me order (.request request) := by
  have hproposed := @isSome_replicaHandleGeneric X
    (p.take (insert (X.requestBytes request) (insert (X.requestBytes request) p.takenRequests))) me
    ⟨h.faults, h.numbers, h.leaders⟩ (proposalGeneric X p request me) _ rfl
  have hsame : (p.handleRequest X request me).isSome = (replicaHandleGeneric X
      (p.take (insert (X.requestBytes request) (insert (X.requestBytes request) p.takenRequests)))
      (proposalGeneric X p request me) me).isSome := by
    simp only [handleRequest, handleGeneric, ne_eq, not_true_eq_false, if_false, bind, pure]
    exact isSome_bind_some _ _
  rw [hsame]
  exact hproposed

theorem isSome_handleVote (h : Operational X p) {vote : Vote} {order : List (Bytes × ConsensusNodePKInfo)} :
    (p.handleVote X vote).isSome = true ↔ Survives X p me order (.vote vote) := by
  unfold Survives
  simp only [handleVote, bind, pure]
  cases hregistered : p.consensusNodePks.lookup vote.fromPeerId with
  | none => simp
  | some pkInfo =>
    simp only [Option.bind_some, Option.some.injEq, exists_eq_left']
    cases hverify : X.verifyShare pkInfo.publicKey vote.partialSignature
      (asBytes (getGenericHash X GENERIC vote.viewNum vote.block)) with
    | false => simp
    | true =>
      rw [forall_prop_of_true rfl]
      have hlookup : (p.log.recordMessgaePartialSignature (getGenericHash X GENERIC vote.viewNum vote.block)
          pkInfo.number vote.partialSignature).messageSignatures.lookup
            (getGenericHash X GENERIC vote.viewNum vote.block) =
          some ((p.log.sharesAt (getGenericHash X GENERIC vote.viewNum vote.block)).insert pkInfo.number
            vote.partialSignature) := HashMap.lookup_insertAt_self _ _ _ _
      simp only [Bool.not_true, Bool.false_eq_true, if_false, h.quorumSize_eq, Option.bind_some,
        Log.getPartialSignaturesCountByMessageHash, Log.getPartialSignaturesByMessageHash, countSignatures,
        hlookup, h.toNat_three]
      split
      case isTrue hcount => exact iff_of_true rfl fun hquorum ↦ absurd hquorum hcount
      case isFalse hcount =>
        rw [forall_prop_of_true (not_not.1 hcount)]
        cases hkey : p.keypair with
        | none => simp
        | some keypair =>
          cases hcombined : keypair.combinePartialSignatures X.toBlsttc
            ((p.log.sharesAt (getGenericHash X GENERIC vote.viewNum vote.block)).insert pkInfo.number
              vote.partialSignature) <;> simp [hcombined]

theorem isSome_storageConsensusNodePk (hvalid : NumbersValid X.toPlatform p.pkConsensusNodes)
    {order : List (Bytes × ConsensusNodePKInfo)} {info : HashMap Bytes ConsensusNodePKInfo}
    (horder : info.Listing order) :
    (p.storageConsensusNodePk X order info me).isSome = true ↔ IdsValid X.toPlatform order ∧
      CanAdvance { p with pkConsensusNodes := assignNumbers p.pkConsensusNodes order } := by
  rw [storageConsensusNodePk, if_pos horder, foldlM_storeNumber]
  split
  case isTrue hids =>
    rw [and_iff_right hids]
    have hadvance := @isSome_nextView X { p with pkConsensusNodes := assignNumbers p.pkConsensusNodes order } me
      (hvalid.assignNumbers hids)
    rw [← hadvance]
    exact iff_of_eq (congrArg (· = true) (isSome_bind_some _ _))
  case isFalse hids => exact iff_of_false Bool.false_ne_true fun hboth ↦ hids hboth.1

/-- The handler of a message returns exactly when it can rely on what it needs. -/
theorem isSome_handler (h : Operational X p) (hme : X.peerIdValid me = true) {msg : MessageType}
    {order : List (Bytes × ConsensusNodePKInfo)}
    (horder : ∀ entries, msg = .consensusNodePKsInfo entries → (HashMap.ofEntries entries).Listing order) :
    (p.consensusProtocolMessageHandler X me order msg).isSome = true ↔ Survives X p me order msg := by
  have hpeer : X.peerIdFromBytes me = some me := if_pos hme
  cases msg with
  | request request =>
    rw [consensusProtocolMessageHandler, hpeer]
    exact isSome_handleRequest h
  | generic generic =>
    rw [consensusProtocolMessageHandler, hpeer]
    exact isSome_handleGeneric h
  | vote vote =>
    rw [consensusProtocolMessageHandler, hpeer]
    exact isSome_handleVote h
  | tblsKey key =>
    refine iff_of_true ?_ trivial
    rw [consensusProtocolMessageHandler, hpeer]
    rfl
  | consensusNodePKsInfo entries =>
    rw [consensusProtocolMessageHandler, hpeer]
    have hstored := @isSome_storageConsensusNodePk X { p with consensusNodePks := HashMap.ofEntries entries } me
      h.numbers order _ (horder entries rfl)
    refine Iff.trans ?_ hstored
    exact iff_of_eq (congrArg (· = true) (isSome_bind_some _ _))
  | init => exact iff_of_true rfl trivial
  | «end» msg => exact iff_of_true rfl trivial

theorem isSome_viewTimeoutHandler (h : Operational X p) :
    (p.viewTimeoutHandler X me).isSome = true ↔
      2 * p.state.currentViewTimeout.toNat < 2 ^ 64 ∧ CanAdvance p := by
  have htwo : (2 : UInt64).toNat = 2 := rfl
  rw [viewTimeoutHandler]
  unfold checkedMul
  rw [htwo, Nat.mul_comm]
  split
  case isTrue hfits =>
    rw [and_iff_right hfits]
    have hadvance := @isSome_nextView X
      { p with state := { p.state with currentViewTimeout := p.state.currentViewTimeout * 2 } } me h.numbers
    refine Iff.trans ?_ hadvance
    exact iff_of_eq (congrArg (· = true) (isSome_bind_some _ _))
  case isFalse hlarge => exact iff_of_false Bool.false_ne_true fun hboth ↦ hlarge hboth.1

end Handlers

/-! ## Reachable states -/

section Runs

variable {p p' : ChainHotstuffProtocol} {me : Bytes} {out : Outcome} {event : Event}

/-- The table, and the keys with the leaders, are kept, or the leaders come from the table. -/
structure LeadersKept (X : Externals) (p p' : ChainHotstuffProtocol) : Prop where
  numbers : NumbersValid X.toPlatform p'.pkConsensusNodes
  leaders : LeadersValid X p' ∨ (p'.consensusNodePks = p.consensusNodePks ∧
    p'.state.currentLeader = p.state.currentLeader ∧ p'.state.nextLeader = p.state.nextLeader)

theorem nextView_kept {queue : List (SendType Payload)} (h : p.nextView X me = some (p', queue))
    (hvalid : NumbersValid X.toPlatform p.pkConsensusNodes) : LeadersKept X p p' := by
  have hleaders := (nextView_leaders h hvalid).2
  obtain ⟨currentLeader, nextLeader, rfl, -⟩ := nextView_cases h
  exact ⟨hvalid, .inl hleaders⟩

theorem castVote_kept {block : Block} {queue : List (SendType Payload)} {signed : Option Vote}
    (h : p.castVote X block me = some (p', queue, signed)) (hvalid : NumbersValid X.toPlatform p.pkConsensusNodes) :
    LeadersKept X p p' := by
  unfold castVote at h
  split at h
  case h_1 =>
    obtain ⟨rfl, -⟩ := Prod.mk.inj (Option.some.inj h)
    exact ⟨hvalid, .inr ⟨rfl, rfl, rfl⟩⟩
  case h_2 =>
    simp only [bind, pure, Option.bind_eq_some_iff] at h
    obtain ⟨pkInfo, -, leader, -, current, -, hrest⟩ := h
    split at hrest
    case isTrue =>
      obtain ⟨rfl, -⟩ := Prod.mk.inj (Option.some.inj hrest)
      exact ⟨hvalid, .inr ⟨rfl, rfl, rfl⟩⟩
    case isFalse =>
      simp only [Option.bind_eq_some_iff, Option.some.injEq, Prod.mk.injEq, Prod.exists] at hrest
      obtain ⟨p₁, queue₁, hnext, rfl, -⟩ := hrest
      exact nextView_kept hnext hvalid

theorem conclude_kept {p₁ : ChainHotstuffProtocol} (h : LeadersKept X p p₁) (queue : List (SendType Payload))
    (signed : Option Vote) (b1 : Block) : LeadersKept X p (p₁.conclude X queue signed b1).1 := by
  rw [conclude, formChain_eq]
  exact ⟨h.numbers, h.leaders⟩

theorem replicaHandleGeneric_kept {generic : Generic} (h : p.replicaHandleGeneric X generic me = some (p', out))
    (hvalid : NumbersValid X.toPlatform p.pkConsensusNodes) : LeadersKept X p p' := by
  have hsame : LeadersKept X p p := ⟨hvalid, .inr ⟨rfl, rfl, rfl⟩⟩
  unfold replicaHandleGeneric at h
  split at h
  case h_1 =>
    obtain ⟨rfl, -⟩ := Prod.mk.inj (Option.some.inj h)
    exact hsame
  case h_2 b1 hblock =>
    split at h
    case isFalse =>
      obtain ⟨rfl, -⟩ := Prod.mk.inj (Option.some.inj h)
      exact hsame
    case isTrue =>
      simp only [bind, pure, Option.bind_eq_some_iff, Prod.exists] at h
      obtain ⟨p₁, queue, signed, hcast, hconclude⟩ := h
      have hp : (p₁.conclude X queue signed b1).1 = p' := congrArg Prod.fst (Option.some.inj hconclude)
      rw [← hp]
      exact conclude_kept (castVote_kept hcast hvalid) queue signed b1

theorem handleGeneric_kept {generic : Generic} (h : p.handleGeneric X generic me = some (p', out))
    (hvalid : NumbersValid X.toPlatform p.pkConsensusNodes) : LeadersKept X p p' := by
  unfold handleGeneric at h
  split at h
  case h_1 =>
    simp only [handleNewviewGeneric, bind, pure, Option.bind_eq_some_iff] at h
    obtain ⟨threshold, -, hrest⟩ := h
    split at hrest
    case isTrue =>
      simp only [Option.bind_eq_some_iff, Option.some.injEq, Prod.mk.injEq, Prod.exists] at hrest
      obtain ⟨highQC, -, p₁, queue, hnext, rfl, -⟩ := hrest
      have hkept := nextView_kept hnext hvalid
      exact ⟨hkept.numbers, hkept.leaders⟩
    case isFalse =>
      obtain ⟨rfl, -⟩ := Prod.mk.inj (Option.some.inj hrest)
      exact ⟨hvalid, .inr ⟨rfl, rfl, rfl⟩⟩
  case h_2 block hblock =>
    simp only at h
    split at h
    case isTrue =>
      obtain ⟨rfl, -⟩ := Prod.mk.inj (Option.some.inj h)
      exact ⟨hvalid, .inr ⟨rfl, rfl, rfl⟩⟩
    case isFalse =>
      have hkept := replicaHandleGeneric_kept h hvalid
      exact ⟨hkept.numbers, hkept.leaders⟩

theorem handleRequest_kept {request : Request} (h : p.handleRequest X request me = some (p', out))
    (hvalid : NumbersValid X.toPlatform p.pkConsensusNodes) : LeadersKept X p p' := by
  simp only [handleRequest, bind, pure, Option.bind_eq_some_iff, Option.some.injEq, Prod.mk.injEq,
    Prod.exists] at h
  obtain ⟨p₁, out₁, hhandled, rfl, -⟩ := h
  have hkept := handleGeneric_kept hhandled hvalid
  exact ⟨hkept.numbers, hkept.leaders⟩

/-- Storing the public keys takes the leaders from the new table. -/
theorem storageConsensusNodePk_valid {order : List (Bytes × ConsensusNodePKInfo)}
    {info : HashMap Bytes ConsensusNodePKInfo} {answer : Answer}
    (h : p.storageConsensusNodePk X order info me = some (p', answer))
    (hvalid : NumbersValid X.toPlatform p.pkConsensusNodes) :
    NumbersValid X.toPlatform p'.pkConsensusNodes ∧ LeadersValid X p' := by
  obtain ⟨-, hids, -, queue, hnext⟩ := storageConsensusNodePk_cases h
  have hkept := nextView_kept hnext (hvalid.assignNumbers hids)
  exact ⟨hkept.numbers, (nextView_leaders hnext (hvalid.assignNumbers hids)).2⟩

theorem extraInitialStart_valid {nodes : List PeerId} {randomness : Bytes} {order : List (String × PeerId)}
    {pkOrder : List (Bytes × ConsensusNodePKInfo)}
    (h : p.extraInitialStart X nodes me randomness order pkOrder = some (p', out))
    (hvalid : NumbersValid X.toPlatform p.pkConsensusNodes) :
    NumbersValid X.toPlatform p'.pkConsensusNodes ∧ LeadersValid X p' := by
  simp only [extraInitialStart, bind, pure, Option.bind_eq_some_iff, Option.some.injEq, Prod.mk.injEq,
    Prod.exists] at h
  obtain ⟨peer, -, p₁, answer, hdistribute, rfl, -⟩ := h
  obtain ⟨keys, stored, -, hstored, -⟩ := distributeKeys_cases hdistribute
  exact storageConsensusNodePk_valid hstored hvalid

theorem Operational.of_kept (h : Operational X p) (hkept : LeadersKept X p p')
    (hfaults : p'.state.faultToleranceCount = p.state.faultToleranceCount)
    (hkeys : p'.consensusNodePks = p.consensusNodePks) : Operational X p' where
  faults := hfaults.trans h.faults
  numbers := hkept.numbers
  leaders := by
    rcases hkept.leaders with hvalid | ⟨-, hcurrent, hnext⟩
    · exact .inr hvalid
    · rw [hkeys]
      refine h.leaders.imp_right fun hvalid ↦ ?_
      rw [LeadersValid, hcurrent, hnext]
      exact hvalid

/-- Every call keeps what the handlers rely on. -/
theorem Operational.step (h : Operational X p) (htaken : step X me p event = some (p', out)) :
    Operational X p' := by
  cases step_effect htaken with
  | protocolReset peerId => exact ⟨rfl, numbersValid_empty _, .inl rfl⟩
  | consensusNodePKsInfo entries order nodes currentLeader nextLeader =>
    simp only [ChainHotstuff.step, consensusProtocolMessageHandler, bind, pure, Option.bind_eq_some_iff,
      Option.some.injEq, Prod.mk.injEq, Prod.exists] at htaken
    obtain ⟨peer, -, p₁, answer, hstored, rfl, -⟩ := htaken
    have hstored' := storageConsensusNodePk_valid hstored h.numbers
    exact ⟨h.faults, hstored'.1, .inr hstored'.2⟩
  | initialStart consensusNodes randomness order pkOrder keypair nodes currentLeader nextLeader =>
    have hstarted := extraInitialStart_valid htaken h.numbers
    exact ⟨h.faults, hstarted.1, .inr hstarted.2⟩
  | generic generic b1 order taken p' out hblock hview hhandled =>
    obtain ⟨peer, -, hgeneric⟩ := Option.bind_eq_some_iff.1 htaken
    exact h.of_kept (handleGeneric_kept hgeneric h.numbers) hhandled.frame.2.1 hhandled.frame.1
  | request request order taken p' out hhandled =>
    obtain ⟨peer, -, hrequest⟩ := Option.bind_eq_some_iff.1 htaken
    exact h.of_kept (handleRequest_kept hrequest h.numbers) hhandled.frame.2.1 hhandled.frame.1
  | newViewQuorum generic order highQC currentLeader nextLeader hblock hpicked =>
    obtain ⟨peer, -, hgeneric⟩ := Option.bind_eq_some_iff.1 htaken
    exact h.of_kept (handleGeneric_kept hgeneric h.numbers) rfl rfl
  | viewTimeout timeout currentLeader nextLeader queue hqueue =>
    simp only [ChainHotstuff.step, viewTimeoutHandler, bind, pure, Option.bind_eq_some_iff, Option.some.injEq,
      Prod.mk.injEq, Prod.exists] at htaken
    obtain ⟨timeout', -, p₁, queue', hnext, hp, -⟩ := htaken
    have hkept := hp ▸ nextView_kept hnext h.numbers
    exact h.of_kept ⟨hkept.numbers, hkept.leaders⟩ rfl rfl
  | _ => exact ⟨h.faults, h.numbers, h.leaders⟩

theorem operational_of_run {peerId : String} {run : List (Transition ChainHotstuffProtocol Event Outcome)}
    (hrun : IsRun (step X me) (.new 1 peerId) run p) : Operational X p :=
  hrun.invariant_of_forall (Operational X) ⟨rfl, numbersValid_empty _, .inl rfl⟩
    (fun _ h _ taken ↦ h.step taken) (fun _ _ ↦ trivial)

end Runs

/-- What reaches the handlers. -/
inductive Call where
  | message (msg : MessageType) (order : List (Bytes × ConsensusNodePKInfo))
  | viewTimeout

namespace Call

def run (X : Externals) (me : Bytes) (p : ChainHotstuffProtocol) : Call → Option (ChainHotstuffProtocol × Outcome)
  | message msg order => step X me p (.message msg order)
  | viewTimeout => step X me p .viewTimeout

/-- The order is one in which the map of public keys is visited. -/
def Ordered : Call → Prop
  | message msg order => ∀ entries, msg = .consensusNodePKsInfo entries → (HashMap.ofEntries entries).Listing order
  | viewTimeout => True

/-- What the handler of a call relies on. -/
def Survives (X : Externals) (p : ChainHotstuffProtocol) (me : Bytes) : Call → Prop
  | message msg order => ChainHotstuff.Survives X p me order msg
  | viewTimeout => 2 * p.state.currentViewTimeout.toNat < 2 ^ 64 ∧ CanAdvance p

theorem isSome_run {p : ChainHotstuffProtocol} {me : Bytes} (h : Operational X p)
    (hme : X.peerIdValid me = true) {call : Call} (horder : call.Ordered) :
    (call.run X me p).isSome = true ↔ call.Survives X p me := by
  cases call with
  | message msg order => exact isSome_handler h hme horder
  | viewTimeout => exact isSome_viewTimeoutHandler h

end Call

end BFTDiagnosis.ChainHotstuff
