import BFTDiagnosis.Lib.Quorum
import BFTDiagnosis.Lib.World
import BFTDiagnosis.ChainHotstuff.Steps

/-!
# Honest replicas of chained HotStuff

Replicas that all run the code, with the keys of one distribution, over a network that loses, delays
and reorders what they send. Leaders propose through `handle_request` only. Every QC that goes around
then stands for `2 * f + 1` replicas that accepted its block, because every QC was formed from votes
somewhere and every vote is cast for an accepted block: `NodeInv` and `HistoryInv` say this of the
states and of the messages.
-/

namespace BFTDiagnosis.ChainHotstuff

open Components Utils Word Hotstuff ChainHotstuffProtocol

variable {X : Externals} {ι : Type}

abbrev ChainHistory (ι : Type) := History ι ChainHotstuffProtocol Event Outcome
abbrev ChainWorld (ι : Type) := World ι ChainHotstuffProtocol Event Outcome

/-! ## What a history says -/

/-- The block that a call accepts: of the view of the replica and safe. -/
def acceptedBlock (X : Externals) (p : ChainHotstuffProtocol) : Event → Option Block
  | .message (.generic generic) _ => do
    let block ← generic.block
    if p.state.view = generic.viewNum ∧ p.safeNode X block block.justify = true then return block
    none
  | .message (.request request) _ =>
    let block := p.proposedBlock X request
    if p.safeNode X block block.justify then some block else none
  | _ => none

/-- The messages of an answer. -/
def sentMessages (answer : Answer) : List MessageType :=
  (answer.queue.flatMap SendType.payloads).filterMap fun
    | .message msg => some msg.msgType
    | .empty => none

/-- The messages that have been sent to a peer. -/
def inbox (history : ChainHistory ι) (receiver : PeerId) : List MessageType :=
  history.flatMap fun entry ↦
    (entry.2.out.answer.queue.flatMap (SendType.payloadsFor receiver)).filterMap fun
      | .message msg => some msg.msgType
      | .empty => none

section Histories

variable [DecidableEq ι]

/-- The blocks that a replica has accepted, oldest first. -/
def accepted (X : Externals) (history : ChainHistory ι) (i : ι) : List Block :=
  History.perNode (fun t ↦ acceptedBlock X t.pre t.event) history i

theorem accepted_append (history : ChainHistory ι) (j : ι) (t : Transition ChainHotstuffProtocol Event Outcome)
    (i : ι) : accepted X (history ++ [(j, t)]) i =
      accepted X history i ++ if j = i then (acceptedBlock X t.pre t.event).toList else [] :=
  History.perNode_append _ history j t i

theorem mem_accepted_grow {history : ChainHistory ι} {i : ι} {block : Block}
    (later : ChainHistory ι) (h : block ∈ accepted X history i) :
    block ∈ accepted X (history ++ later) i := by
  rw [accepted, History.perNode, List.filterMap_append]
  exact List.mem_append_left _ h

end Histories

theorem mem_sentMessages_of_mem_inbox {history : ChainHistory ι} {receiver : PeerId} {msg : MessageType}
    (h : msg ∈ inbox history receiver) : ∃ entry ∈ history, msg ∈ sentMessages entry.2.out.answer := by
  obtain ⟨entry, hentry, hmsg⟩ := List.mem_flatMap.1 h
  obtain ⟨payload, hpayload, hsome⟩ := List.mem_filterMap.1 hmsg
  obtain ⟨send, hsend, hcarried⟩ := List.mem_flatMap.1 hpayload
  refine ⟨entry, hentry, List.mem_filterMap.2 ⟨payload, ?_, hsome⟩⟩
  exact List.mem_flatMap.2 ⟨send, hsend, SendType.mem_payloads_of_mem_payloadsFor hcarried⟩

/-! ## The environment -/

section Environment

variable [DecidableEq ι] (X : Externals) (D : Distribution ι)

/-- Replicas before any call. -/
def Fresh (nodes : ι → ChainHotstuffProtocol) : Prop :=
  ∀ i, ∃ peerId, nodes i = ChainHotstuffProtocol.new D.faultCount peerId

/-- The call of the actuator on each replica. -/
def nodeStep (i : ι) : ChainHotstuffProtocol → Event → Option (ChainHotstuffProtocol × Outcome) :=
  step X (D.peerId i)

/-- Keys come from the distribution, Generics and votes have been sent by a replica, requests reach
the leader of a view, and there is no reset. -/
def Delivered (w : ChainWorld ι) (delivery : ι × Event) : Prop :=
  match delivery.2 with
  | .message (.tblsKey key) _ => key = D.key X.toExternals delivery.1
  | .message (.consensusNodePKsInfo entries) _ => HashMap.ofEntries entries = D.registry X.toExternals
  | .message (.generic generic) _ => .generic generic ∈ inbox w.history (D.peerId delivery.1)
  | .message (.vote vote) _ => .vote vote ∈ inbox w.history (D.peerId delivery.1)
  | .message (.request _) _ => (w.nodes delivery.1).isLeader (D.peerId delivery.1) = true
  | .initialStart _ randomness order _ => order = D.order X.toExternals ∧ randomness = D.randomness
  | .protocolReset _ => False
  | _ => True

instance Delivered.decidable (w : ChainWorld ι) (delivery : ι × Event) :
    Decidable (Delivered X D w delivery) := by
  unfold Delivered
  split <;> infer_instance

end Environment

/-! ## Blocks, QCs and messages that are sound -/

section Sound

variable [DecidableEq ι] (X : Externals) (D : Distribution ι) (history : ChainHistory ι)

/-- A quorum of replicas has accepted a block. -/
def Formed (block : Block) : Prop :=
  ∃ quorum : Finset ι, 2 * D.faultCount.toNat + 1 ≤ quorum.card ∧
    ∀ i ∈ quorum, block ∈ accepted X history i

def SoundQC (qc : Option QC) : Prop := ∀ q, qc = some q → Formed X D history q.block

/-- The block is a child of the block of its QC, which has been formed. -/
def SoundBlock (block : Block) : Prop :=
  ∀ qc, block.justify = some qc →
    block.parentHash = getBlockHash X qc.block ∧ Formed X D history qc.block

/-- What holds of a message that a replica has sent. -/
def SoundMessage : MessageType → Prop
  | .generic generic => (∀ block, generic.block = some block → SoundBlock X D history block) ∧
      (generic.block = none → SoundQC X D history generic.justify)
  | .vote vote => ∃ k, D.peerId k = vote.fromPeerId ∧ vote.block ∈ accepted X history k
  | _ => True

/-- What holds of the state of a replica. -/
structure NodeInv (p : ChainHotstuffProtocol) : Prop where
  registry : p.consensusNodePks = ∅ ∨ p.consensusNodePks = D.registry X.toExternals
  faults : p.state.faultToleranceCount = D.faultCount
  high : SoundQC X D history p.state.highQC
  generic : SoundQC X D history p.state.genericQC
  newViews : ∀ view, ∀ generic ∈ p.log.generics.listAt view, SoundQC X D history generic.justify
  voters : ∀ msgHash number, number ∈ p.log.sharesAt msgHash →
    ∃ k view block, D.number k = number ∧ getGenericHash X GENERIC view block = msgHash ∧
      block ∈ accepted X history k

/-- What holds of the messages and of the accepted blocks. -/
structure HistoryInv : Prop where
  sent : ∀ entry ∈ history, ∀ msg ∈ sentMessages entry.2.out.answer, SoundMessage X D history msg
  blocks : ∀ i, ∀ block ∈ accepted X history i, SoundBlock X D history block

end Sound

section Grow

variable [DecidableEq ι] {D : Distribution ι} {history : ChainHistory ι} (later : ChainHistory ι)

theorem Formed.grow {block : Block} (h : Formed X D history block) :
    Formed X D (history ++ later) block := by
  obtain ⟨quorum, hcard, hall⟩ := h
  exact ⟨quorum, hcard, fun i hi ↦ mem_accepted_grow later (hall i hi)⟩

theorem SoundQC.grow {qc : Option QC} (h : SoundQC X D history qc) : SoundQC X D (history ++ later) qc :=
  fun q hq ↦ (h q hq).grow later

theorem SoundBlock.grow {block : Block} (h : SoundBlock X D history block) :
    SoundBlock X D (history ++ later) block :=
  fun qc hqc ↦ ⟨(h qc hqc).1, (h qc hqc).2.grow later⟩

theorem SoundMessage.grow {msg : MessageType} (h : SoundMessage X D history msg) :
    SoundMessage X D (history ++ later) msg := by
  cases msg with
  | generic generic =>
    exact ⟨fun block hblock ↦ (h.1 block hblock).grow later, fun hnone ↦ (h.2 hnone).grow later⟩
  | vote vote =>
    obtain ⟨k, hk, hblock⟩ := h
    exact ⟨k, hk, mem_accepted_grow later hblock⟩
  | _ => trivial

theorem NodeInv.grow {p : ChainHotstuffProtocol} (h : NodeInv X D history p) :
    NodeInv X D (history ++ later) p where
  registry := h.registry
  faults := h.faults
  high := h.high.grow later
  generic := h.generic.grow later
  newViews := fun view generic hgeneric ↦ (h.newViews view generic hgeneric).grow later
  voters := by
    intro msgHash number hmem
    obtain ⟨k, view, block, hk, hhash, hblock⟩ := h.voters msgHash number hmem
    exact ⟨k, view, block, hk, hhash, mem_accepted_grow later hblock⟩

end Grow

/-! ## What handling a block does to the invariant -/

section Block

variable {p p' : ChainHotstuffProtocol} {me : Bytes} {b1 : Block} {out : Outcome}

theorem queue_conclude (p : ChainHotstuffProtocol) (queue : List (SendType Payload))
    (signed : Option Vote) (b1 : Block) : (p.conclude X queue signed b1).2.answer.queue = queue := by
  simp only [conclude]
  split <;> rfl

/-- Handling a block keeps the keys, `high_qc` and the recorded Generics. -/
theorem ChainHotstuffProtocol.BlockEffect.frame (h : BlockEffect X me p b1 p' out) :
    p'.consensusNodePks = p.consensusNodePks ∧
      p'.state.faultToleranceCount = p.state.faultToleranceCount ∧
      p'.state.highQC = p.state.highQC ∧ p'.log.generics = p.log.generics := by
  cases h with
  | refused hrejected => exact ⟨rfl, rfl, rfl, rfl⟩
  | accepted p₁ queue signed hsafe hcast =>
    rw [conclude, formChain_eq]
    cases hcast <;> exact ⟨rfl, rfl, rfl, rfl⟩

theorem ChainHotstuffProtocol.BlockEffect.genericQC (h : BlockEffect X me p b1 p' out) :
    p'.state.genericQC = p.state.genericQC ∨ p'.state.genericQC = b1.justify := by
  cases h with
  | refused hrejected => exact .inl rfl
  | accepted p₁ queue signed hsafe hcast =>
    have hkept : p₁.state.genericQC = p.state.genericQC := by cases hcast <;> rfl
    rw [conclude, formChain_eq]
    cases hlink : b1.link X with
    | none => exact .inl hkept
    | some qc => exact .inr (Block.link_eq_some.1 hlink).1.symm

/-- Handling a block records at most the replica's own vote for it. -/
theorem ChainHotstuffProtocol.BlockEffect.sharesAt (h : BlockEffect X me p b1 p' out) (msgHash : String) :
    p'.log.sharesAt msgHash = p.log.sharesAt msgHash ∨
      ∃ pkInfo share, p.safeNode X b1 b1.justify = true ∧ p.consensusNodePks.lookup me = some pkInfo ∧
        getGenericHash X GENERIC p.state.view b1 = msgHash ∧
        p'.log.sharesAt msgHash = (p.log.sharesAt msgHash).insert pkInfo.number share := by
  cases h with
  | refused hrejected => exact .inl rfl
  | accepted p₁ queue signed hsafe hcast =>
    have hlog : (p₁.conclude X queue signed b1).1.log = p₁.log := rfl
    rw [hlog]
    cases hcast with
    | keyless hnone => exact .inl rfl
    | sent keypair currentLeader nextLeader leader rest hkey hqueue => exact .inl rfl
    | own keypair pkInfo hkey hregistered =>
      by_cases hhash : getGenericHash X GENERIC p.state.view b1 = msgHash
      · subst hhash
        exact .inr ⟨pkInfo, _, hsafe, hregistered, rfl, HashMap.mapAt_insertAt_self _ _ _ _⟩
      · exact .inl (HashMap.mapAt_insertAt_of_ne _ _ _ _ (Ne.symm hhash))

theorem mem_sentMessages_of_newViewQueue {queue : List (SendType Payload)} {msg : MessageType}
    (hqueue : NewViewQueue me p queue) (h : msg ∈ sentMessages (.continueExecute queue)) :
    msg = .generic (p.newViewGeneric me) := by
  rcases hqueue with rfl | ⟨leader, rfl⟩
  · cases h
  · exact List.mem_singleton.1 h

/-- Handling a block sends at most the vote for it and the message for the next leader. -/
theorem ChainHotstuffProtocol.BlockEffect.sent (h : BlockEffect X me p b1 p' out) {msg : MessageType}
    (hmsg : msg ∈ sentMessages out.answer) :
    msg = .generic (p.newViewGeneric me) ∨
      (p.safeNode X b1 b1.justify = true ∧
        ∃ vote, msg = .vote vote ∧ vote.block = b1 ∧ vote.fromPeerId = me) := by
  cases h with
  | refused hrejected => cases hmsg
  | accepted p₁ queue signed hsafe hcast =>
    rw [sentMessages, queue_conclude] at hmsg
    cases hcast with
    | keyless hnone => cases hmsg
    | own keypair pkInfo hkey hregistered => cases hmsg
    | sent keypair currentLeader nextLeader leader rest hkey hqueue =>
      rcases List.mem_cons.1 hmsg with rfl | hrest
      · exact .inr ⟨hsafe, _, rfl, rfl, rfl⟩
      · exact .inl (mem_sentMessages_of_newViewQueue hqueue hrest)

end Block

/-! ## The invariant -/

section Step

variable [DecidableEq ι] {D : Distribution ι} {w : ChainWorld ι} {i : ι} {event : Event}
  {p' : ChainHotstuffProtocol} {out : Outcome}

/-- The history after a call. -/
abbrev grown (w : ChainWorld ι) (i : ι) (event : Event) (out : Outcome) (p' : ChainHotstuffProtocol) :
    ChainHistory ι :=
  w.history ++ [(i, ⟨w.nodes i, event, out, p'⟩)]

theorem mem_accepted_grown {block : Block} (h : acceptedBlock X (w.nodes i) event = some block) :
    block ∈ accepted X (grown w i event out p') i := by
  rw [accepted_append, if_pos rfl, h]
  exact List.mem_append_right _ (List.mem_singleton.2 rfl)

theorem soundMessage_of_delivered (hhistory : HistoryInv X D w.history) {msg : MessageType}
    (h : msg ∈ inbox w.history (D.peerId i)) : SoundMessage X D w.history msg := by
  obtain ⟨entry, hentry, hmsg⟩ := mem_sentMessages_of_mem_inbox h
  exact hhistory.sent entry hentry msg hmsg

theorem soundBlock_of_delivered (hhistory : HistoryInv X D w.history) {generic : Generic}
    {order : List (Bytes × ConsensusNodePKInfo)} {block : Block}
    (h : Delivered X D w (i, .message (.generic generic) order))
    (hblock : generic.block = some block) : SoundBlock X D w.history block :=
  (soundMessage_of_delivered hhistory h).1 block hblock

theorem soundQC_of_delivered (hhistory : HistoryInv X D w.history) {generic : Generic}
    {order : List (Bytes × ConsensusNodePKInfo)}
    (h : Delivered X D w (i, .message (.generic generic) order)) (hblock : generic.block = none) :
    SoundQC X D w.history generic.justify :=
  (soundMessage_of_delivered hhistory h).2 hblock

theorem soundBlock_proposed {p : ChainHotstuffProtocol} (h : SoundQC X D w.history p.state.highQC)
    (request : Request) : SoundBlock X D w.history (p.proposedBlock X request) := by
  intro qc hqc
  have hhigh : p.state.highQC = some qc := hqc
  exact ⟨by simp only [proposedBlock, hhigh], h qc hhigh⟩

/-- An accepted block is sound. -/
theorem soundBlock_of_accepted (hhistory : HistoryInv X D w.history)
    (hnode : NodeInv X D w.history (w.nodes i)) (hdelivered : Delivered X D w (i, event)) {block : Block}
    (h : acceptedBlock X (w.nodes i) event = some block) : SoundBlock X D w.history block := by
  unfold acceptedBlock at h
  split at h
  case h_1 generic order =>
    obtain ⟨block', hblock, hrest⟩ := Option.bind_eq_some_iff.1 h
    split at hrest
    case isTrue =>
      obtain rfl := Option.some.inj hrest
      exact soundBlock_of_delivered hhistory hdelivered hblock
    case isFalse => cases hrest
  case h_2 request order =>
    simp only at h
    split at h
    case isTrue =>
      obtain rfl := Option.some.inj h
      exact soundBlock_proposed hnode.high request
    case isFalse => cases h
  case h_3 => cases h

theorem NodeInv.of_eq {history : ChainHistory ι} {p : ChainHotstuffProtocol} (h : NodeInv X D history p)
    (hkeys : p'.consensusNodePks = p.consensusNodePks)
    (hfaults : p'.state.faultToleranceCount = p.state.faultToleranceCount)
    (hhigh : p'.state.highQC = p.state.highQC) (hgeneric : p'.state.genericQC = p.state.genericQC)
    (hlog : p'.log = p.log) : NodeInv X D history p' where
  registry := hkeys ▸ h.registry
  faults := hfaults ▸ h.faults
  high := hhigh ▸ h.high
  generic := hgeneric ▸ h.generic
  newViews := hlog ▸ h.newViews
  voters := hlog ▸ h.voters

/-- Handling a sound block keeps the invariant. -/
theorem NodeInv.block {history : ChainHistory ι} {p : ChainHotstuffProtocol} {taken : Finset Bytes}
    {b1 : Block} {later : ChainHistory ι} (h : NodeInv X D history p)
    (heffect : BlockEffect X (D.peerId i) (p.take taken) b1 p' out) (hsound : SoundBlock X D history b1)
    (haccepted : p.safeNode X b1 b1.justify = true → b1 ∈ accepted X (history ++ later) i) :
    NodeInv X D (history ++ later) p' where
  registry := heffect.frame.1 ▸ h.registry
  faults := heffect.frame.2.1.trans h.faults
  high := heffect.frame.2.2.1 ▸ h.high.grow later
  generic := by
    rcases heffect.genericQC with hsame | hjustify
    · exact hsame ▸ h.generic.grow later
    · intro qc hqc
      exact (hsound qc (hjustify ▸ hqc)).2.grow later
  newViews := heffect.frame.2.2.2 ▸ (h.grow later).newViews
  voters := by
    intro msgHash number hmem
    rcases heffect.sharesAt msgHash with hsame | ⟨pkInfo, share, hsafe, hregistered, hhash, hinserted⟩
    · rw [hsame] at hmem
      exact (h.grow later).voters msgHash number hmem
    · rw [hinserted] at hmem
      rcases Finmap.mem_insert.1 hmem with rfl | hold
      · have hlookup : p.consensusNodePks.lookup (D.peerId i) = some pkInfo := hregistered
        rcases h.registry with hempty | hregistry
        · rw [hempty, Finmap.lookup_empty] at hlookup
          cases hlookup
        · rw [hregistry] at hlookup
          obtain ⟨k, hpeer, hnumber, -⟩ := D.of_lookup_registry X.toExternals hlookup
          obtain rfl := D.peerId_injective hpeer
          exact ⟨i, _, b1, hnumber.symm, hhash, haccepted hsafe⟩
      · exact (h.grow later).voters msgHash number hold

/-- A delivered vote adds a voter that has accepted the block. -/
theorem NodeInv.voters_record {p : ChainHotstuffProtocol} {vote : Vote} {pkInfo : ConsensusNodePKInfo}
    (h : NodeInv X D w.history p) (hsound : SoundMessage X D w.history (.vote vote))
    (hregistered : p.consensusNodePks.lookup vote.fromPeerId = some pkInfo) (msgHash : String)
    (number : UInt64) (hmem : number ∈ (p.record X vote pkInfo.number).log.sharesAt msgHash) :
    ∃ k view block, D.number k = number ∧ getGenericHash X GENERIC view block = msgHash ∧
      block ∈ accepted X w.history k := by
  by_cases hhash : getGenericHash X GENERIC vote.viewNum vote.block = msgHash
  · subst hhash
    have hinserted : (p.record X vote pkInfo.number).log.sharesAt
        (getGenericHash X GENERIC vote.viewNum vote.block) =
          (p.log.sharesAt (getGenericHash X GENERIC vote.viewNum vote.block)).insert pkInfo.number
            vote.partialSignature := HashMap.mapAt_insertAt_self _ _ _ _
    rw [hinserted] at hmem
    rcases Finmap.mem_insert.1 hmem with rfl | hold
    · rcases h.registry with hempty | hregistry
      · rw [hempty, Finmap.lookup_empty] at hregistered
        cases hregistered
      · rw [hregistry] at hregistered
        obtain ⟨j, hpeer, hnumber, -⟩ := D.of_lookup_registry X.toExternals hregistered
        obtain ⟨k, hk, hblock⟩ := hsound
        obtain rfl := D.peerId_injective (hk.trans hpeer)
        exact ⟨k, _, _, hnumber.symm, rfl, hblock⟩
    · exact h.voters _ number hold
  · have hsame : (p.record X vote pkInfo.number).log.sharesAt msgHash = p.log.sharesAt msgHash :=
      HashMap.mapAt_insertAt_of_ne _ _ _ _ (Ne.symm hhash)
    rw [hsame] at hmem
    exact h.voters msgHash number hmem

/-- As many voters under the hash of a block are as many replicas that have accepted it. -/
theorem formed_of_count [Fintype ι] (hX : X.CollisionFree) (hblockBytes : Function.Injective X.blockBytes)
    {history : ChainHistory ι} {log : Log} {viewNum : UInt64} {block : Block}
    (hvoters : ∀ number ∈ log.sharesAt (getGenericHash X GENERIC viewNum block),
      ∃ k view block', D.number k = number ∧
        getGenericHash X GENERIC view block' = getGenericHash X GENERIC viewNum block ∧
        block' ∈ accepted X history k)
    (hcount : (log.sharesAt (getGenericHash X GENERIC viewNum block)).len =
      2 * D.faultCount.toNat + 1) : Formed X D history block := by
  have hvoter : ∀ number ∈ (log.sharesAt (getGenericHash X GENERIC viewNum block)).keys,
      ∃ k, D.number k = number ∧ block ∈ accepted X history k := by
    intro number hnumber
    obtain ⟨k, view, block', hk, hhash, hmem⟩ := hvoters number (Finmap.mem_keys.1 hnumber)
    obtain ⟨-, rfl⟩ := getGenericHash_inj hX hblockBytes hhash
    exact ⟨k, hk, hmem⟩
  obtain ⟨members, hcard, hmembers⟩ := Quorum.exists_members D.number _ hvoter
  exact ⟨members, hcount ▸ hcard, hmembers⟩

/-- The QC that a leader picks is sound. -/
theorem NodeInv.soundQC_picked {p : ChainHotstuffProtocol} {generic : Generic} {highQC : Option QC}
    (h : NodeInv X D w.history p) (hsound : SoundQC X D w.history generic.justify)
    (hpicked : (p.log.recordGeneric generic.viewNum generic).getHighQCByView generic.viewNum
      p.state.genericQC = some highQC) : SoundQC X D w.history highQC := by
  rcases Log.getHighQCByView_mem hpicked with rfl | ⟨other, hother, rfl⟩
  · exact h.generic
  · rcases HashMap.mem_listAt_pushAt hother with hold | ⟨-, rfl⟩
    · exact h.newViews _ other hold
    · exact hsound

/-- Recording a Generic with a sound QC keeps the recorded QCs sound. -/
theorem NodeInv.newViews_record {p : ChainHotstuffProtocol} {generic : Generic}
    (h : NodeInv X D w.history p) (hsound : SoundQC X D w.history generic.justify) (view : UInt64)
    (other : Generic)
    (hother : other ∈ (p.log.recordGeneric generic.viewNum generic).generics.listAt view) :
    SoundQC X D w.history other.justify := by
  rcases HashMap.mem_listAt_pushAt hother with hold | ⟨-, rfl⟩
  · exact h.newViews view other hold
  · exact hsound

/-- Every call keeps the invariant of the replica. -/
theorem NodeInv.step [Fintype ι] (hX : X.CollisionFree) (hblockBytes : Function.Injective X.blockBytes)
    (htaken : nodeStep X D i (w.nodes i) event = some (p', out)) (hhistory : HistoryInv X D w.history)
    (hdelivered : Delivered X D w (i, event)) (h : NodeInv X D w.history (w.nodes i)) :
    NodeInv X D (grown w i event out p') p' := by
  have hkeep {p : ChainHotstuffProtocol} (hp : NodeInv X D w.history p) :
      NodeInv X D (grown w i event out p') p := hp.grow _
  cases step_effect htaken with
  | rejected vote order => exact hkeep h
  | ignored msg order hmsg => exact hkeep h
  | otherView generic b1 order taken hblock hview => exact (hkeep h).of_eq rfl rfl rfl rfl rfl
  | generic generic b1 order taken p' out hblock hview hhandled =>
    refine h.block hhandled (soundBlock_of_delivered hhistory hdelivered hblock) ?_
    intro hsafe
    apply mem_accepted_grown
    simp only [acceptedBlock, hblock, bind, pure, Option.bind_some, if_pos (And.intro hview hsafe)]
  | request request order taken p' out hhandled =>
    refine h.block hhandled (soundBlock_proposed h.high request) ?_
    intro hsafe
    exact mem_accepted_grown (if_pos hsafe)
  | newView generic order hblock =>
    have hsound := soundQC_of_delivered hhistory hdelivered hblock
    exact hkeep ⟨h.registry, h.faults, h.high, h.generic, h.newViews_record hsound, h.voters⟩
  | newViewQuorum generic order highQC currentLeader nextLeader hblock hpicked =>
    have hsound := soundQC_of_delivered hhistory hdelivered hblock
    have hhigh := h.soundQC_picked hsound hpicked
    exact hkeep ⟨h.registry, h.faults, hhigh, hhigh, h.newViews_record hsound, h.voters⟩
  | vote vote order pkInfo hregistered =>
    have hsound := soundMessage_of_delivered hhistory hdelivered
    exact hkeep ⟨h.registry, h.faults, h.high, h.generic, h.newViews, h.voters_record hsound hregistered⟩
  | voteQuorum vote order pkInfo signature hregistered hcount =>
    have hsound := soundMessage_of_delivered hhistory hdelivered
    have hvoters := h.voters_record hsound hregistered
    have hformed : Formed X D w.history vote.block := by
      rw [h.faults] at hcount
      exact formed_of_count hX hblockBytes (hvoters _) hcount
    refine hkeep ⟨h.registry, h.faults, h.high, ?_, h.newViews, hvoters⟩
    intro qc hqc
    obtain rfl := Option.some.inj hqc
    exact hformed
  | tblsKey key order => exact (hkeep h).of_eq rfl rfl rfl rfl rfl
  | consensusNodePKsInfo entries order nodes currentLeader nextLeader =>
    exact hkeep ⟨.inr hdelivered, h.faults, h.high, h.generic, h.newViews, h.voters⟩
  | initialStart nodes randomness order pkOrder keypair numbers currentLeader nextLeader =>
    obtain ⟨rfl, rfl⟩ := hdelivered
    refine hkeep ⟨.inr ?_, h.faults, h.high, h.generic, h.newViews, h.voters⟩
    change HashMap.ofEntries _ = _
    rw [h.faults]
    rfl
  | viewTimeout timeout currentLeader nextLeader queue hqueue =>
    exact (hkeep h).of_eq rfl rfl rfl rfl rfl
  | protocolReset peerId => exact absurd hdelivered not_false

theorem mem_sentMessages_sendFirst {send : SendType Payload} {msg : MessageType}
    (h : msg ∈ sentMessages (out.sendFirst send).answer) :
    msg ∈ sentMessages (.continueExecute [send]) ∨ msg ∈ sentMessages out.answer := by
  have hcons (queue : List (SendType Payload))
      (h : msg ∈ sentMessages (.continueExecute (send :: queue))) :
      msg ∈ sentMessages (.continueExecute [send]) ∨ msg ∈ sentMessages (.continueExecute queue) := by
    simpa [sentMessages, List.filterMap_append, List.mem_append] using h
  unfold Outcome.sendFirst at h
  cases hanswer : out.answer with
  | continueExecute queue =>
    rw [hanswer] at h
    exact hcons queue h
  | complete request queue =>
    rw [hanswer] at h
    exact hcons queue h
  | _ =>
    rw [hanswer] at h
    cases h

theorem soundMessage_newView {history : ChainHistory ι} {p : ChainHotstuffProtocol} {me : Bytes}
    (h : SoundQC X D history p.state.genericQC) :
    SoundMessage X D history (.generic (p.newViewGeneric me)) :=
  ⟨fun _ hblock ↦ absurd hblock (by simp [newViewGeneric]), fun _ ↦ h⟩

/-- What handling a sound block sends is sound. -/
theorem soundMessage_of_block {history later : ChainHistory ι} {p : ChainHotstuffProtocol}
    {taken : Finset Bytes} {b1 : Block} {msg : MessageType} (h : NodeInv X D history p)
    (heffect : BlockEffect X (D.peerId i) (p.take taken) b1 p' out)
    (haccepted : p.safeNode X b1 b1.justify = true → b1 ∈ accepted X (history ++ later) i)
    (hmsg : msg ∈ sentMessages out.answer) : SoundMessage X D (history ++ later) msg := by
  rcases heffect.sent hmsg with rfl | ⟨hsafe, vote, rfl, hblock, hpeer⟩
  · exact soundMessage_newView (h.generic.grow later)
  · exact ⟨i, hpeer.symm, hblock ▸ haccepted hsafe⟩

/-- Every message of a call is sound. -/
theorem soundMessage_of_step (htaken : nodeStep X D i (w.nodes i) event = some (p', out))
    (h : NodeInv X D w.history (w.nodes i)) {msg : MessageType} (hmsg : msg ∈ sentMessages out.answer) :
    SoundMessage X D (grown w i event out p') msg := by
  cases step_effect htaken with
  | generic generic b1 order taken p' out hblock hview hhandled =>
    refine soundMessage_of_block h hhandled ?_ hmsg
    intro hsafe
    apply mem_accepted_grown
    simp only [acceptedBlock, hblock, bind, pure, Option.bind_some, if_pos (And.intro hview hsafe)]
  | request request order taken p' out hhandled =>
    rcases mem_sentMessages_sendFirst hmsg with hproposal | hrest
    · rw [List.mem_singleton.1 hproposal]
      refine ⟨?_, fun hnone ↦ absurd hnone (by simp [proposalGeneric])⟩
      intro block hblock
      obtain rfl := Option.some.inj hblock
      exact (soundBlock_proposed h.high request).grow _
    · exact soundMessage_of_block h hhandled (fun hsafe ↦ mem_accepted_grown (if_pos hsafe)) hrest
  | viewTimeout timeout currentLeader nextLeader queue hqueue =>
    rw [mem_sentMessages_of_newViewQueue hqueue hmsg]
    exact soundMessage_newView (h.generic.grow _)
  | initialStart nodes randomness order pkOrder keypair numbers currentLeader nextLeader =>
    obtain ⟨payload, hpayload, hsome⟩ := List.mem_filterMap.1 hmsg
    obtain ⟨send, hsend, hcarried⟩ := List.mem_flatMap.1 hpayload
    rcases List.mem_append.1 hsend with hkey | hregistry
    · obtain ⟨keyInfo, -, rfl⟩ := List.mem_map.1 hkey
      rw [List.mem_singleton.1 hcarried] at hsome
      obtain rfl := Option.some.inj hsome
      trivial
    · rw [List.mem_singleton.1 hregistry] at hcarried
      rw [List.mem_singleton.1 hcarried] at hsome
      obtain rfl := Option.some.inj hsome
      trivial
  | _ => cases hmsg

/-- Every call keeps the invariant of the history. -/
theorem HistoryInv.step (htaken : nodeStep X D i (w.nodes i) event = some (p', out))
    (hdelivered : Delivered X D w (i, event)) (hnode : NodeInv X D w.history (w.nodes i))
    (h : HistoryInv X D w.history) : HistoryInv X D (grown w i event out p') where
  sent := by
    intro entry hentry msg hmsg
    rcases List.mem_append.1 hentry with hold | hnew
    · exact (h.sent entry hold msg hmsg).grow _
    · rw [List.mem_singleton.1 hnew] at hmsg
      exact soundMessage_of_step htaken hnode hmsg
  blocks := by
    intro j block hblock
    apply SoundBlock.grow
    rw [accepted_append] at hblock
    rcases List.mem_append.1 hblock with hold | hnew
    · exact h.blocks j block hold
    · split at hnew
      case isTrue =>
        exact soundBlock_of_accepted h hnode hdelivered (Option.mem_toList.1 hnew)
      case isFalse => cases hnew

theorem NodeInv.start (X : Externals) (D : Distribution ι) (peerId : String) :
    NodeInv X D [] (ChainHotstuffProtocol.new D.faultCount peerId) where
  registry := .inl rfl
  faults := rfl
  high := fun _ hqc ↦ absurd hqc (by simp [ChainHotstuffProtocol.new, State.new])
  generic := fun _ hqc ↦ absurd hqc (by simp [ChainHotstuffProtocol.new, State.new])
  newViews := fun view generic hgeneric ↦
    absurd hgeneric (by simp [ChainHotstuffProtocol.new, Log.new])
  voters := fun msgHash number hmem ↦
    absurd hmem (by simp [ChainHotstuffProtocol.new, Log.new, Log.sharesAt, Finmap.notMem_empty])

end Step

/-- The invariants hold in every world that honest replicas reach. -/
theorem invariant_of_reachable [Fintype ι] [DecidableEq ι] {D : Distribution ι}
    {condition : ChainWorld ι → ι × Event → Prop} (hX : X.CollisionFree)
    (hblockBytes : Function.Injective X.blockBytes)
    (hcondition : ∀ w delivery, condition w delivery → Delivered X D w delivery)
    {nodes : ι → ChainHotstuffProtocol} (hfresh : Fresh D nodes) {w : ChainWorld ι}
    (hreach : World.Reachable (nodeStep X D) condition (.start nodes) w) :
    HistoryInv X D w.history ∧ ∀ i, NodeInv X D w.history (w.nodes i) := by
  induction hreach with
  | start =>
    refine ⟨⟨fun entry hentry ↦ absurd hentry List.not_mem_nil,
      fun i block hblock ↦ absurd hblock List.not_mem_nil⟩, ?_⟩
    intro i
    obtain ⟨peerId, hnode⟩ := hfresh i
    have hstart : (World.start nodes : ChainWorld ι).nodes i = nodes i := rfl
    rw [hstart, hnode]
    exact NodeInv.start X D peerId
  | @deliver w w' delivery previous met taken ih =>
    obtain ⟨hhistory, hnodes⟩ := ih
    have hdelivered := hcondition _ _ met
    constructor
    · obtain ⟨p', out, hstep, -, hgrown⟩ := World.deliver_cases taken
      rw [hgrown]
      exact hhistory.step hstep hdelivered (hnodes _)
    · apply World.forall_nodes_of_deliver (fun history _ p ↦ NodeInv X D history p) _ _ taken hnodes
      · intro entry i p hinv
        exact hinv.grow [entry]
      · intro p' out hstep hinv
        exact hinv.step hX hblockBytes hstep hhistory hdelivered

end BFTDiagnosis.ChainHotstuff
