import Mathlib.Combinatorics.Enumerative.DoubleCounting
import BFTDiagnosis.ChainHotstuff.Execution
import BFTDiagnosis.ChainHotstuff.VoteUniqueness
import BFTDiagnosis.Hotstuff.NewViews

/-!
# How many nodes a view of chained HotStuff needs

The leader of a view proposes on its `high_qc`, and only a quorum of new views replaces it: a QC that is formed
from votes goes to `generic_qc`. A node that enters a view sends its Generic without a block to the leader, unless
it is the leader itself, and a leader records no Generic of its own. So the `2 * fault_tolerance_count + 1` new views
have to come from as many other nodes, and with fewer of them every proposal is a first block.

Only the active nodes take part. They are not reset, and a Generic that is delivered has been sent by another of
them; one without a block is delivered once to a node. Votes, keys, requests and timeouts are arbitrary.
-/

namespace BFTDiagnosis.ChainHotstuff

open Components Utils Word Hotstuff ChainHotstuffProtocol

variable {X : Externals}

/-! ## The Generics of a node -/

/-- The Generic that a call delivers, if it delivers one. -/
def Event.genericMsg : Event → Option Generic
  | .message (.generic generic) _ => some generic
  | _ => none

theorem Event.genericMsg_of_newViewMsg {event : Event} {generic : Generic} (h : event.newViewMsg = some generic) :
    event.genericMsg = some generic := by
  obtain ⟨-, order, rfl⟩ := Event.newViewMsg_eq_some h
  rfl

/-- A node leaves its view with every Generic without a block, and proposes on its `high_qc` with the others. -/
theorem step_sent_generic {p p' : ChainHotstuffProtocol} {me : Bytes} {event : Event} {out : Outcome}
    {generic : Generic} (h : step X me p event = some (p', out))
    (hsent : .generic generic ∈ sentMessages out.answer) :
    (generic = p.newViewGeneric me ∧ p'.state.view = p.state.view + 1) ∨
      ∃ request, generic = proposalGeneric X p request me := by
  have hhandled {p p' : ChainHotstuffProtocol} {block : Block} {out : Outcome} (h : BlockEffect X me p block p' out)
      (hsent : .generic generic ∈ sentMessages out.answer) :
      generic = p.newViewGeneric me ∧ p'.state.view = p.state.view + 1 := by
    cases h with
    | refused hrejected => cases hsent
    | accepted p₁ queue signed hsafe hcast =>
      rw [sentMessages, queue_conclude] at hsent
      cases hcast with
      | keyless hnone => cases hsent
      | own keypair pkInfo hkey hregistered => cases hsent
      | sent keypair currentLeader nextLeader leader rest hkey hqueue =>
        rcases List.mem_cons.1 hsent with hvote | hrest
        · cases hvote
        · have hgeneric := mem_sentMessages_of_newViewQueue hqueue hrest
          obtain ⟨hview, -, -⟩ := conclude_frame (X := X) (p.advance currentLeader nextLeader)
            (.unicast leader (.message ⟨.vote (p.ballot X keypair block me)⟩) :: rest)
            (some (p.ballot X keypair block me)) block
          exact ⟨MessageType.generic.inj hgeneric, hview⟩
  cases step_effect h with
  | generic received block order taken p' out hblock hview heffect =>
    have hleft := hhandled heffect hsent
    exact .inl hleft
  | request request order taken p' out heffect =>
    rcases mem_sentMessages_sendFirst hsent with hproposal | hrest
    · exact .inr ⟨request, MessageType.generic.inj (List.mem_singleton.1 hproposal)⟩
    · have hleft := hhandled heffect hrest
      exact .inl hleft
  | viewTimeout timeout currentLeader nextLeader queue hqueue =>
    exact .inl ⟨MessageType.generic.inj (mem_sentMessages_of_newViewQueue hqueue hsent), rfl⟩
  | initialStart nodes randomness order pkOrder keypair numbers currentLeader nextLeader =>
    simp [sentMessages, Outcome.of, PhaseState.queue, List.mem_filterMap, SendType.payloads] at hsent
  | _ => simp [sentMessages, Outcome.of, silent, emptyBroadcast, PhaseState.queue, SendType.payloads] at hsent

theorem Signs.forward {p p' : ChainHotstuffProtocol} {me : Bytes} {event : Event} {out : Outcome}
    (h : Signs X me p event p' out) : Forward p p' := by
  cases h with
  | nothing hsigned hforward hunable => exact hforward
  | vote block vote hsigned haccepted hcast => exact hcast.forward

/-- A node sends at most one Generic without a block for a view, and is past the view then. -/
structure LeavesOnce (run : List ChainTransition) (p : ChainHotstuffProtocol) : Prop where
  behind : ∀ t ∈ run, ∀ generic, .generic generic ∈ sentMessages t.out.answer → generic.block = none →
    generic.viewNum.toNat < p.state.view.toNat
  once : ∀ t ∈ run, ∀ generic, .generic generic ∈ sentMessages t.out.answer → generic.block = none →
    ∀ t' ∈ run, ∀ generic', .generic generic' ∈ sentMessages t'.out.answer → generic'.block = none →
      generic.viewNum = generic'.viewNum → generic = generic'

theorem LeavesOnce.concat {run : List ChainTransition} {p p' : ChainHotstuffProtocol} {me : Bytes} {event : Event}
    {out : Outcome} (h : LeavesOnce run p) (hreset : event.isReset = false)
    (htaken : step X me p event = some (p', out)) : LeavesOnce (run ++ [⟨p, event, out, p'⟩]) p' := by
  have hforward : Forward p p' := (step_signs hreset htaken).forward
  have hkept : p.state.view.toNat ≤ p'.state.view.toNat := by
    rcases hforward with hmoved | ⟨hsame, -⟩
    · exact hmoved.le
    · rw [hsame]
  have hlast {generic : Generic} (hsent : .generic generic ∈ sentMessages out.answer) (hblock : generic.block = none) :
      generic = p.newViewGeneric me ∧ p.state.view.toNat < p'.state.view.toNat := by
    rcases step_sent_generic htaken hsent with ⟨hgeneric, hview⟩ | ⟨request, rfl⟩
    · refine ⟨hgeneric, hforward.resolve_right fun hstays ↦ ?_⟩
      have hadvanced : p.state.view + 1 = p.state.view := hview.symm.trans hstays.1
      simp at hadvanced
    · cases hblock
  refine ⟨?_, ?_⟩
  · intro t ht generic hsent hblock
    rcases List.mem_append.1 ht with hearlier | hnew
    · exact (h.behind t hearlier generic hsent hblock).trans_le hkept
    · obtain rfl := List.mem_singleton.1 hnew
      obtain ⟨rfl, hmoved⟩ := hlast hsent hblock
      exact hmoved
  · intro t ht generic hsent hblock t' ht' generic' hsent' hblock' hview
    -- A Generic of the last call is of the view that the node was in, and the earlier ones are of lower views.
    rcases List.mem_append.1 ht with hearlier | hnew
    · rcases List.mem_append.1 ht' with hearlier' | hnew'
      · exact h.once t hearlier generic hsent hblock t' hearlier' generic' hsent' hblock' hview
      · obtain rfl := List.mem_singleton.1 hnew'
        obtain ⟨rfl, -⟩ := hlast hsent' hblock'
        have hbehind := h.behind t hearlier generic hsent hblock
        rw [hview] at hbehind
        exact absurd hbehind (Nat.lt_irrefl _)
    · obtain rfl := List.mem_singleton.1 hnew
      obtain ⟨rfl, -⟩ := hlast hsent hblock
      rcases List.mem_append.1 ht' with hearlier' | hnew'
      · have hbehind := h.behind t' hearlier' generic' hsent' hblock'
        rw [← hview] at hbehind
        exact absurd hbehind (Nat.lt_irrefl _)
      · obtain rfl := List.mem_singleton.1 hnew'
        exact (hlast hsent' hblock').1.symm

theorem leavesOnce_of_isRun {initial p : ChainHotstuffProtocol} {me : Bytes} {run : List ChainTransition}
    (h : IsRun (step X me) initial run p) (hreset : ∀ t ∈ run, t.event.isReset = false) : LeavesOnce run p := by
  refine IsRun.induction_of_forall (motive := LeavesOnce) ?_ ?_ h hreset
  · exact ⟨fun t ht ↦ absurd ht List.not_mem_nil, fun t ht ↦ absurd ht List.not_mem_nil⟩
  · exact fun run p event out p' hrun hkeeps htaken ↦ hrun.concat hkeeps htaken

/-! ## The network -/

section Network

variable {ι : Type}

/-- The node has sent the Generic. -/
def SentBy (history : ChainHistory ι) (i : ι) (generic : Generic) : Prop :=
  ∃ t, (i, t) ∈ history ∧ .generic generic ∈ sentMessages t.out.answer

/-- The Generic without a block has been delivered to the node. -/
def Received (history : ChainHistory ι) (i : ι) (generic : Generic) : Prop :=
  ∃ entry ∈ history, entry.1 = i ∧ entry.2.event.newViewMsg = some generic

/-- Deliveries to active nodes. -/
structure Genuine (active : Finset ι) (w : ChainWorld ι) (delivery : ι × Event) : Prop where
  active : delivery.1 ∈ active
  keeps : delivery.2.isReset = false
  sent : ∀ generic ∈ delivery.2.genericMsg, ∃ entry ∈ w.history, entry.1 ≠ delivery.1 ∧
    .generic generic ∈ sentMessages entry.2.out.answer
  fresh : ∀ generic ∈ delivery.2.newViewMsg, ¬ Received w.history delivery.1 generic

/-- The Generics that a node has recorded for a view were delivered to it, each of them once. -/
structure Recorded (history : ChainHistory ι) (i : ι) (p : ChainHotstuffProtocol) : Prop where
  nodup : ∀ view, (p.log.generics.listAt view).Nodup
  ofView : ∀ view, ∀ generic ∈ p.log.generics.listAt view, generic.viewNum = view ∧ generic.block = none
  received : ∀ view, ∀ generic ∈ p.log.generics.listAt view, Received history i generic

theorem Received.grow {history : ChainHistory ι} {i : ι} {generic : Generic} (h : Received history i generic)
    (later : ChainHistory ι) : Received (history ++ later) i generic := by
  obtain ⟨entry, hentry, hnode, hmsg⟩ := h
  exact ⟨entry, List.mem_append_left _ hentry, hnode, hmsg⟩

theorem Recorded.grow {history : ChainHistory ι} {i : ι} {p : ChainHotstuffProtocol} (h : Recorded history i p)
    (later : ChainHistory ι) : Recorded (history ++ later) i p where
  nodup := h.nodup
  ofView := h.ofView
  received := fun view generic hmem ↦ (h.received view generic hmem).grow later

theorem Recorded.of_empty {history : ChainHistory ι} {i : ι} {p : ChainHotstuffProtocol} (h : p.log.generics = ∅) :
    Recorded history i p := by
  have hnone (view : UInt64) : p.log.generics.listAt view = [] := by
    rw [h]
    rfl
  exact ⟨fun view ↦ hnone view ▸ List.nodup_nil, fun view generic hmem ↦ absurd (hnone view ▸ hmem) List.not_mem_nil,
    fun view generic hmem ↦ absurd (hnone view ▸ hmem) List.not_mem_nil⟩

theorem Recorded.step {history : ChainHistory ι} {i : ι} {p p' : ChainHotstuffProtocol} {me : Bytes} {event : Event}
    {out : Outcome} (h : Recorded history i p) (hfresh : ∀ generic ∈ event.newViewMsg, ¬ Received history i generic)
    (htaken : step X me p event = some (p', out)) : Recorded (history ++ [(i, ⟨p, event, out, p'⟩)]) i p' := by
  cases hmsg : event.newViewMsg with
  | none =>
    rcases generics_eq_of_step hmsg htaken with hsame | hempty
    · have hgrown := h.grow [(i, ⟨p, event, out, p'⟩)]
      exact ⟨by rw [hsame]; exact hgrown.nodup, by rw [hsame]; exact hgrown.ofView,
        by rw [hsame]; exact hgrown.received⟩
    · exact .of_empty hempty
  | some generic =>
    obtain ⟨hblock, order, rfl⟩ := Event.newViewMsg_eq_some hmsg
    obtain ⟨hrecorded, -⟩ := newViewGeneric_cases hblock htaken
    have hnew : Received (history ++ [(i, ⟨p, .message (.generic generic) order, out, p'⟩)]) i generic :=
      ⟨_, List.mem_append_right _ (List.mem_singleton_self _), rfl, hmsg⟩
    have hmember {view : UInt64} {other : Generic} (hmem : other ∈ p'.log.generics.listAt view) :
        other ∈ p.log.generics.listAt view ∨ (view = generic.viewNum ∧ other = generic) := by
      rw [hrecorded] at hmem
      exact HashMap.mem_listAt_pushAt hmem
    refine ⟨?_, ?_, ?_⟩
    · intro view
      rw [hrecorded]
      by_cases hview : view = generic.viewNum
      · rw [hview, HashMap.listAt_pushAt_self]
        refine (h.nodup _).append (List.nodup_singleton _) ?_
        rw [List.disjoint_singleton]
        exact fun hmem ↦ hfresh generic hmsg (h.received _ generic hmem)
      · rw [HashMap.listAt_pushAt_of_ne _ _ hview]
        exact h.nodup view
    · intro view other hmem
      rcases hmember hmem with hold | ⟨rfl, rfl⟩
      · exact h.ofView view other hold
      · exact ⟨rfl, hblock⟩
    · intro view other hmem
      rcases hmember hmem with hold | ⟨-, rfl⟩
      · exact (h.received view other hold).grow _
      · exact hnew

/-! ## Too few new views -/

section Run

variable [DecidableEq ι] {D : Distribution ι} {active : Finset ι} {nodes : ι → ChainHotstuffProtocol}
  {w : ChainWorld ι} (hreach : World.Reachable (nodeStep X D) (Genuine active) (.start nodes) w)
include hreach

/-- What is known of an entry of the history. -/
theorem genuine_of_mem {i : ι} {t : ChainTransition} (hentry : (i, t) ∈ w.history) :
    ∃ w₀ : ChainWorld ι, w₀.history ⊆ w.history ∧ Genuine active w₀ (i, t.event) := by
  obtain ⟨before, after, hsplit⟩ := List.append_of_mem hentry
  obtain ⟨w₀, -, hhistory, -, hgenuine, -⟩ := hreach.before rfl hsplit
  exact ⟨w₀, by rw [hhistory, hsplit]; exact List.subset_append_left _ _, hgenuine⟩

theorem exists_sender_of_received {i : ι} {generic : Generic} (hreceived : Received w.history i generic) :
    ∃ j ∈ active.erase i, SentBy w.history j generic := by
  obtain ⟨⟨k, t⟩, hentry, rfl, hmsg⟩ := hreceived
  obtain ⟨w₀, hsubset, hgenuine⟩ := genuine_of_mem hreach hentry
  obtain ⟨⟨j, t'⟩, hearlier, hother, hsent⟩ := hgenuine.sent generic (Event.genericMsg_of_newViewMsg hmsg)
  obtain ⟨w₁, -, hgenuine'⟩ := genuine_of_mem hreach (hsubset hearlier)
  exact ⟨j, Finset.mem_erase.2 ⟨hother, hgenuine'.active⟩, t', hsubset hearlier, hsent⟩

/-- The view and the sender determine a Generic without a block. -/
theorem generic_eq_of_sentBy {i : ι} {generic generic' : Generic} (hsent : SentBy w.history i generic)
    (hsent' : SentBy w.history i generic') (hblock : generic.block = none) (hblock' : generic'.block = none)
    (hview : generic.viewNum = generic'.viewNum) : generic = generic' := by
  obtain ⟨t, ht, hmsg⟩ := hsent
  obtain ⟨t', ht', hmsg'⟩ := hsent'
  have hleaves := leavesOnce_of_isRun (hreach.isRun rfl i) fun t ht ↦ by
    obtain ⟨w₀, -, hgenuine⟩ := genuine_of_mem hreach (History.mem_perNode.1 ht)
    exact hgenuine.keeps
  exact hleaves.once t (History.mem_perNode.2 ht) generic hmsg hblock t' (History.mem_perNode.2 ht') generic' hmsg'
    hblock' hview

variable (hfresh : Fresh D nodes)
include hfresh

theorem recorded_of_reachable : ∀ i, Recorded w.history i (w.nodes i) := by
  induction hreach with
  | start =>
    intro i
    obtain ⟨peerId, hnode⟩ := hfresh i
    refine .of_empty ?_
    change (nodes i).log.generics = ∅
    rw [hnode]
    rfl
  | deliver previous hgenuine htaken ih =>
    apply World.forall_nodes_of_deliver Recorded _ _ htaken ih
    · exact fun entry i p hrecorded ↦ hrecorded.grow [entry]
    · exact fun p out hstep hrecorded ↦ hrecorded.step hgenuine.fresh hstep

/-- The new views of a view that a node has recorded come from different active nodes, none of them itself. -/
theorem length_generics_le {i : ι} (hactive : i ∈ active) (hcard : active.card ≤ 2 * D.faultCount.toNat + 1)
    (view : UInt64) : ((w.nodes i).log.generics.listAt view).length ≤ 2 * D.faultCount.toNat := by
  have hrecorded := recorded_of_reachable hreach hfresh i
  have hsenders : ((w.nodes i).log.generics.listAt view).toFinset.card ≤ (active.erase i).card := by
    apply Finset.card_le_card_of_forall_subsingleton fun generic j ↦ SentBy w.history j generic
    · intro generic hgeneric
      exact exists_sender_of_received hreach (hrecorded.received view generic (List.mem_toFinset.1 hgeneric))
    · rintro j - generic ⟨hgeneric, hsent⟩ generic' ⟨hgeneric', hsent'⟩
      obtain ⟨hview, hblock⟩ := hrecorded.ofView view generic (List.mem_toFinset.1 hgeneric)
      obtain ⟨hview', hblock'⟩ := hrecorded.ofView view generic' (List.mem_toFinset.1 hgeneric')
      exact generic_eq_of_sentBy hreach hsent hsent' hblock hblock' (hview.trans hview'.symm)
  rw [List.toFinset_card_of_nodup (hrecorded.nodup view), Finset.card_erase_of_mem hactive] at hsenders
  omega

end Run

/-! ## Nothing is executed -/

/-- No new view has taken over a QC, and no QC is locked. -/
structure Unextended (D : Distribution ι) (p : ChainHotstuffProtocol) : Prop where
  faults : p.state.faultToleranceCount = D.faultCount
  high : p.state.highQC = none
  locked : p.state.lockedQC = none

/-- An answer without an execution or a new view, whose proposals are first blocks. -/
structure Idle (out : Outcome) : Prop where
  executed : out.executed = none
  waits : out.answer ≠ .over none
  proposals : ∀ generic, .generic generic ∈ sentMessages out.answer → ∀ block ∈ generic.block, block.justify = none

variable {D : Distribution ι} {p p' : ChainHotstuffProtocol} {me : Bytes} {out : Outcome}

/-- A first block has no chain below it. -/
theorem Unextended.block {block : Block} (h : Unextended D p) (hfirst : block.justify = none)
    (heffect : BlockEffect X me p block p' out) :
    Unextended D p' ∧ out.executed = none ∧ out.answer ≠ .over none := by
  have hlink : block.link X = none := by rw [Block.link, hfirst, Option.bind_none]
  obtain ⟨-, hfaults, hhigh, -⟩ := heffect.frame
  cases heffect with
  | refused hrejected => exact ⟨h, rfl, by simp [Outcome.of, silent]⟩
  | accepted p₁ queue signed hsafe hcast =>
    have hkept : p₁.state.lockedQC = p.state.lockedQC := by cases hcast <;> rfl
    refine ⟨⟨hfaults.trans h.faults, hhigh.trans h.high, ?_⟩, ?_, ?_⟩
    · rw [conclude, formChain_eq, hlink]
      exact hkept.trans h.locked
    · rw [executed_conclude, hlink]
      rfl
    · rw [conclude, formChain_eq, hlink]
      simp

theorem Unextended.step {event : Event} (h : Unextended D p) (hreset : event.isReset = false)
    (hwaits : ∀ generic ∈ event.newViewMsg, out = .of silent ∧ p'.state = p.state)
    (hproposals : ∀ generic ∈ event.genericMsg, ∀ block ∈ generic.block, block.justify = none)
    (htaken : step X me p event = some (p', out)) : Unextended D p' ∧ Idle out := by
  have hsent : ∀ generic, .generic generic ∈ sentMessages out.answer →
      ∀ block ∈ generic.block, block.justify = none := by
    intro generic hmem block hblock
    rcases step_sent_generic htaken hmem with ⟨rfl, -⟩ | ⟨request, rfl⟩
    · cases hblock
    · obtain rfl := Option.some.inj hblock
      exact h.high
  suffices hrest : Unextended D p' ∧ out.executed = none ∧ out.answer ≠ .over none from
    ⟨hrest.1, hrest.2.1, hrest.2.2, hsent⟩
  cases step_effect htaken with
  | protocolReset peerId => cases hreset
  | newView generic order hblock => exact ⟨⟨h.faults, h.high, h.locked⟩, rfl, by simp [Outcome.of, silent]⟩
  | newViewQuorum generic order highQC currentLeader nextLeader hblock hpicked =>
    have hmsg : (Event.message (.generic generic) order).newViewMsg = some generic := by
      simp [Event.newViewMsg, hblock]
    obtain ⟨hsilent, -⟩ := hwaits generic hmsg
    cases hsilent
  | generic generic block order taken p' out hblock hview heffect =>
    have htakes : Unextended D (p.take taken) := ⟨h.faults, h.high, h.locked⟩
    exact htakes.block (hproposals generic rfl block hblock) heffect
  | request request order taken p' out heffect =>
    have htakes : Unextended D (p.take taken) := ⟨h.faults, h.high, h.locked⟩
    have hfirst : (p.proposedBlock X request).justify = none := h.high
    obtain ⟨hpost, hexecuted, hover⟩ := htakes.block hfirst heffect
    refine ⟨hpost, (executed_sendFirst _ _).trans hexecuted, ?_⟩
    unfold Outcome.sendFirst
    cases out.answer <;> simp [silent]
  | _ => exact ⟨⟨h.faults, h.high, h.locked⟩, rfl, by simp [Outcome.of, silent, emptyBroadcast]⟩

variable [DecidableEq ι] {active : Finset ι} {nodes : ι → ChainHotstuffProtocol} {w w' : ChainWorld ι}
  {delivery : ι × Event}

/-- A delivered Generic without a block is recorded, and the quorum is not reached. -/
theorem silent_of_newView (hcard : active.card ≤ 2 * D.faultCount.toNat + 1) (hfresh : Fresh D nodes)
    (hreach : World.Reachable (nodeStep X D) (Genuine active) (.start nodes) w)
    (hgenuine : Genuine active w delivery) (htaken : w.deliver (nodeStep X D) delivery = some w')
    (hfaults : (w.nodes delivery.1).state.faultToleranceCount = D.faultCount)
    (hstep : step X (D.peerId delivery.1) (w.nodes delivery.1) delivery.2 = some (p', out)) :
    ∀ generic ∈ delivery.2.newViewMsg, out = .of silent ∧ p'.state = (w.nodes delivery.1).state := by
  intro generic hmsg
  obtain ⟨hblock, order, hevent⟩ := Event.newViewMsg_eq_some hmsg
  obtain ⟨p₁, out₁, hstep₁, hnodes, -⟩ := World.deliver_cases htaken
  obtain ⟨rfl, rfl⟩ := Prod.mk.inj (Option.some.inj (hstep.symm.trans hstep₁))
  rw [hevent] at hstep
  obtain ⟨hrecorded, hsilent | hcount⟩ := newViewGeneric_cases hblock hstep
  · exact hsilent
  · have hfew := length_generics_le (hreach.deliver hgenuine htaken) hfresh hgenuine.active hcard generic.viewNum
    rw [hnodes, Function.update_self, hrecorded, hcount, hfaults] at hfew
    omega

/-- With `2 * f + 1` active nodes no leader ever takes over a QC, so that every proposal is a first block, no QC is
locked and no request is executed. -/
theorem no_execution_of_card_le (hcard : active.card ≤ 2 * D.faultCount.toNat + 1) (hfresh : Fresh D nodes)
    (hreach : World.Reachable (nodeStep X D) (Genuine active) (.start nodes) w) :
    (∀ i, (w.nodes i).state.highQC = none ∧ (w.nodes i).state.lockedQC = none) ∧
      ∀ entry ∈ w.history, entry.2.out.executed = none ∧ entry.2.out.answer ≠ .over none ∧
        ∀ generic, .generic generic ∈ sentMessages entry.2.out.answer →
          ∀ block ∈ generic.block, block.justify = none := by
  suffices hinv : (∀ i, Unextended D (w.nodes i)) ∧ ∀ entry ∈ w.history, Idle entry.2.out from
    ⟨fun i ↦ ⟨(hinv.1 i).high, (hinv.1 i).locked⟩, fun entry hentry ↦
      ⟨(hinv.2 entry hentry).executed, (hinv.2 entry hentry).waits, (hinv.2 entry hentry).proposals⟩⟩
  induction hreach with
  | start =>
    refine ⟨?_, fun entry hentry ↦ absurd hentry List.not_mem_nil⟩
    intro i
    obtain ⟨peerId, hnode⟩ := hfresh i
    change Unextended D (nodes i)
    rw [hnode]
    exact ⟨rfl, rfl, rfl⟩
  | @deliver w w' delivery previous hgenuine htaken ih =>
    obtain ⟨p', out, hstep, hnodes, hhistory⟩ := World.deliver_cases htaken
    have hnode := ih.1 delivery.1
    have hwaits := silent_of_newView hcard hfresh previous hgenuine htaken hnode.faults hstep
    have hproposals : ∀ generic ∈ delivery.2.genericMsg, ∀ block ∈ generic.block, block.justify = none := by
      intro generic hmsg
      obtain ⟨entry, hentry, -, hsent⟩ := hgenuine.sent generic hmsg
      exact (ih.2 entry hentry).proposals generic hsent
    obtain ⟨hpost, hidle⟩ := hnode.step hgenuine.keeps hwaits hproposals hstep
    constructor
    · intro i
      rw [hnodes]
      by_cases hi : i = delivery.1
      · rw [hi, Function.update_self]
        exact hpost
      · rw [Function.update_of_ne hi]
        exact ih.1 i
    · rw [hhistory]
      exact List.forall_mem_append.2 ⟨ih.2, List.forall_mem_singleton.2 hidle⟩

end Network

/-! ## Three of four nodes -/

instance Received.decidable {ι : Type} [DecidableEq ι] (history : ChainHistory ι) (i : ι) (generic : Generic) :
    Decidable (Received history i generic) :=
  inferInstanceAs (Decidable (∃ entry ∈ history, entry.1 = i ∧ entry.2.event.newViewMsg = some generic))

instance Genuine.decidable {ι : Type} [DecidableEq ι] (active : Finset ι) (w : ChainWorld ι) (delivery : ι × Event) :
    Decidable (Genuine active w delivery) :=
  decidable_of_iff
    (delivery.1 ∈ active ∧ delivery.2.isReset = false ∧
      (∀ generic ∈ delivery.2.genericMsg, ∃ entry ∈ w.history, entry.1 ≠ delivery.1 ∧
        .generic generic ∈ sentMessages entry.2.out.answer) ∧
      ∀ generic ∈ delivery.2.newViewMsg, ¬ Received w.history delivery.1 generic)
    ⟨fun h ↦ ⟨h.1, h.2.1, h.2.2.1, h.2.2.2⟩, fun h ↦ ⟨h.1, h.2, h.3, h.4⟩⟩

def firstVote (node : Fin 4) : Event :=
  .message (.vote
    { viewNum := 1
      block := chainOf [0, 1, 2] ["a"]
      partialSignature := (fourNodes.key .transparent node).sign Externals.transparent.toBlsttc
        (asBytes (getGenericHash .transparent GENERIC 1 (chainOf [0, 1, 2] ["a"])))
      fromPeerId := fourNodes.peerId node }) []

def firstNewView (node : Fin 4) : Event :=
  .message (.generic { viewNum := 1, block := none, justify := none, fromPeerId := fourNodes.peerId node }) []

/-- The leader of the first view proposes. The next leader accepts the block and hears of the two others, and the
timeout of its view follows. -/
def threeActive : List (Fin 4 × Event) :=
  [0, 1, 2].flatMap (fun node ↦ (joinEvents node).map (node, ·)) ++
    [(1, .message (.request ⟨"a"⟩) []), (0, proposalOf ["a"]), (2, proposalOf ["a"]), (2, firstVote 0),
      (2, firstVote 1), (2, firstNewView 0), (2, firstNewView 1), (2, .viewTimeout)]

/-- The next leader has formed a QC with its own vote, and two new views are all that it gets. -/
theorem no_execution_of_card_le_three :
    ({0, 1, 2} : Finset (Fin 4)).card ≤ 2 * fourNodes.faultCount.toNat + 1 ∧ Fresh fourNodes freshReplicas ∧
      ∃ w, World.Reachable (nodeStep .transparent fourNodes) (Genuine {0, 1, 2}) (.start freshReplicas) w ∧
        (w.nodes 2).state.genericQC.map QC.block = some (chainOf [0, 1, 2] ["a"]) ∧
        ((w.nodes 2).log.generics.listAt 1).length = 2 ∧
        (∀ i, (w.nodes i).state.highQC = none ∧ (w.nodes i).state.lockedQC = none) ∧
        ∀ entry ∈ w.history, entry.2.out.executed = none ∧ entry.2.out.answer ≠ .over none ∧
          ∀ generic, .generic generic ∈ sentMessages entry.2.out.answer →
            ∀ block ∈ generic.block, block.justify = none := by
  have hreach : World.Reachable (nodeStep .transparent fourNodes) (Genuine {0, 1, 2}) (.start freshReplicas)
      (World.final (nodeStep .transparent fourNodes) (Genuine {0, 1, 2}) (.start freshReplicas) threeActive) :=
    .of_isSome (by decide +kernel)
  exact ⟨by decide, fresh_freshReplicas, _, hreach, by decide +kernel, by decide +kernel,
    no_execution_of_card_le (by decide) fresh_freshReplicas hreach⟩

end BFTDiagnosis.ChainHotstuff
