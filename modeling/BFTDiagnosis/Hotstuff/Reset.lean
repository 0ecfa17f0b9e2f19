import BFTDiagnosis.BasicHotstuff.Robustness
import BFTDiagnosis.ChainHotstuff.Robustness
import BFTDiagnosis.Components.Calls
import BFTDiagnosis.Hotstuff.ViewTimers

/-!
# The reset of the HotStuff protocols

Both protocols of HotStuff implement `protocol_reset` field by field and return to the state of a new protocol.
They also make a new handle for their view timers, which replaces the one that `init_timeout_notify` has given
them. From then on their view timers signal a handle that nobody waits for.

The stop handle is renewed as well; it is not shared with anybody and left out.
-/

namespace BFTDiagnosis.Hotstuff

open Components

/-- What an initial start is given, with the choices that the source leaves to hash maps and random numbers. -/
structure InitialStart where
  consensusNodes : List PeerId
  randomness : Bytes
  order : List (String × PeerId)
  pkOrder : List (Bytes × ConsensusNodePKInfo)

theorem add_one_ne_self {view : UInt64} (h : view.toNat + 1 < 2 ^ 64) : view + 1 ≠ view := by
  intro hsame
  have hone : (1 : UInt64).toNat = 1 := rfl
  have hnat := congrArg UInt64.toNat hsame
  rw [UInt64.toNat_add, hone, Nat.mod_eq_of_lt h] at hnat
  omega

/-- The list of a node that is alone, under the number 0. -/
def loneNode (peer : Bytes) : List (Bytes × ConsensusNodePKInfo) := [(peer, ⟨0, []⟩)]

theorem listing_loneNode (peer : Bytes) : (HashMap.ofEntries (loneNode peer)).Listing (loneNode peer) := rfl

theorem nodeOfView_loneNode (peer : Bytes) (view : UInt64) :
    nodeOfView (assignNumbers ∅ (loneNode peer)) view = some peer := by
  have hlen : UInt64.ofNat (assignNumbers ∅ (loneNode peer)).len = 1 := rfl
  have hremainder : view % 1 = 0 := by
    rw [← UInt64.toNat_inj, UInt64.toNat_mod]
    exact Nat.mod_one _
  rw [nodeOfView, hlen, hremainder]
  exact Finmap.lookup_insert _

theorem idsValid_loneNode {X : Utils.Platform} {peer : Bytes} (h : X.peerIdValid peer = true) :
    IdsValid X (loneNode peer) := List.forall_mem_singleton.2 h

end BFTDiagnosis.Hotstuff

namespace BFTDiagnosis.BasicHotstuff

open Components Hotstuff

variable {X : Externals}

def BasicHotstuffProtocol.isLeader (p : BasicHotstuffProtocol) (peerId : Bytes) : Bool := p.state.primary == peerId

/-- The calls of the actuator on the protocol of the node `me`; a message comes with the order in which its map is
visited. `check_taken_request` is left to the trait, which has taken nothing. -/
def respond (X : Externals) (me : Bytes) (p : BasicHotstuffProtocol) :
    Components.Call (MessageType × List (Bytes × ConsensusNodePKInfo)) InitialStart →
      Option (BasicHotstuffProtocol × Response Payload)
  | .consensusProtocolMessageHandler (msg, order) =>
    (p.consensusProtocolMessageHandler X me order msg).map (Prod.map id .phaseState)
  | .viewTimeoutHandler => (p.viewTimeoutHandler X me).map (Prod.map id .phaseState)
  | .checkTakenRequest _ => some (p, .decision false)
  | .isLeader peerId => some (p, .decision (p.isLeader peerId))
  | .extraInitialStart start =>
    (p.extraInitialStart X start.consensusNodes me start.randomness start.order start.pkOrder).map
      (Prod.map id .phaseState)

/-- `view_timeout_start` is called at the end of `newview`, and only there; so a call starts a timer exactly when
it moves the protocol to another view. -/
def startsViewTimer (p p' : BasicHotstuffProtocol) : Bool := p'.state.view != p.state.view

def call (X : Externals) (me : Bytes) : Timed BasicHotstuffProtocol →
    Components.Call (MessageType × List (Bytes × ConsensusNodePKInfo)) InitialStart →
      Option (Timed BasicHotstuffProtocol × Response Payload × List ℕ) :=
  Timed.call (respond X me) startsViewTimer

/-- `BasicHotstuffProtocol::protocol_reset`, with the random peer id that it draws. -/
def protocolReset (s : Timed BasicHotstuffProtocol) (peerId : String) : Timed BasicHotstuffProtocol :=
  s.newNotify (s.protocol.protocolReset peerId)

section Timers

variable {me : Bytes} {p p' : BasicHotstuffProtocol} {out : Answer}

/-- Every new view starts a timer. -/
theorem startsViewTimer_of_newview (h : p.newview X me = some (p', out)) : startsViewTimer p p' = true := by
  obtain ⟨primary, queue, hview, rfl, -, -⟩ := BasicHotstuffProtocol.newview_cases h
  exact bne_iff_ne.2 (add_one_ne_self hview)

/-- A new protocol starts a view timer when it learns that its node is alone. -/
theorem respond_loneNode (hme : X.peerIdValid me = true) (peerId : String) :
    ∃ p' response, respond X me (.new 1 peerId)
        (.consensusProtocolMessageHandler (.consensusNodePKsInfo (loneNode me), loneNode me)) = some (p', response) ∧
      startsViewTimer (.new 1 peerId) p' = true := by
  have hoperational : Operational X (.new 1 peerId) := ⟨rfl, numbersValid_empty _⟩
  have hsurvives : Survives X (.new 1 peerId) (loneNode me) (.consensusNodePKsInfo (loneNode me)) := by
    refine ⟨idsValid_loneNode hme, show (0 : UInt64).toNat + 1 < 2 ^ 64 by decide, ?_⟩
    change (nodeOfView (assignNumbers ∅ (loneNode me)) _).isSome = true
    rw [nodeOfView_loneNode, Option.isSome_some]
  have hsome := (isSome_handler hoperational hme fun entries heq ↦ by
    injection heq with heq
    exact heq ▸ listing_loneNode me).2 hsurvives
  obtain ⟨⟨p', out⟩, htaken⟩ := Option.isSome_iff_exists.1 hsome
  have hstored := htaken
  obtain ⟨peer, -, hstored⟩ := Option.bind_eq_some_iff.1 hstored
  obtain ⟨-, -, hnewview⟩ := BasicHotstuffProtocol.storageConsensusNodePk_cases hstored
  have hstarts := startsViewTimer_of_newview hnewview
  exact ⟨p', .phaseState out, Option.map_eq_some_iff.2 ⟨(p', out), htaken, rfl⟩, hstarts⟩

end Timers

/-- After any calls on a protocol that was given a handle, a reset does not make it a fresh protocol with this
handle. -/
theorem not_reset_indistinguishable {me : Bytes} (hme : X.peerIdValid me = true) {handle allocated : ℕ}
    (hmade : handle < allocated) (peerId drawn drawn' : String)
    {run : List (Transition (Timed BasicHotstuffProtocol) _ (Response Payload × List ℕ))}
    {s : Timed BasicHotstuffProtocol}
    (hrun : IsRun (call X me) (.initTimeoutNotify (.new 1 peerId) handle allocated) run s) (fresh : ℕ) :
    ¬ Indistinguishable (call X me) (protocolReset s drawn) (.initTimeoutNotify (.new 1 drawn') handle fresh) := by
  have hallocated : s.allocated = allocated := Timed.allocated_of_run hrun
  obtain ⟨p', response, hrespond, hstarts⟩ := respond_loneNode hme drawn
  obtain ⟨p'', response', hrespond', hstarts'⟩ := respond_loneNode hme drawn'
  refine Timed.not_indistinguishable_of_timer ?_ hrespond hrespond' hstarts hstarts'
  change s.allocated ≠ handle
  omega

/-- With the same random draw, the calls after a reset are answered as by a fresh protocol until one of them starts a
view timer. -/
theorem answers_reset_eq_iff {me : Bytes} {handle allocated : ℕ} (hmade : handle < allocated) (peerId drawn : String)
    {run : List (Transition (Timed BasicHotstuffProtocol) _ (Response Payload × List ℕ))}
    {s : Timed BasicHotstuffProtocol}
    (hrun : IsRun (call X me) (.initTimeoutNotify (.new 1 peerId) handle allocated) run s) (fresh : ℕ)
    (calls : List (Components.Call (MessageType × List (Bytes × ConsensusNodePKInfo)) InitialStart)) :
    answers (call X me) (protocolReset s drawn) calls =
        answers (call X me) (.initTimeoutNotify (.new 1 drawn) handle fresh) calls ↔
      ∀ response timers, some (response, timers) ∈ answers (call X me) (protocolReset s drawn) calls → timers = [] := by
  have hallocated : s.allocated = allocated := Timed.allocated_of_run hrun
  have hhandles : (protocolReset s drawn).viewTimeoutNotify ≠ handle := by
    change s.allocated ≠ handle
    omega
  exact @Timed.answers_eq_iff_of_handles _ _ _ (respond X me) startsViewTimer (protocolReset s drawn)
    (.initTimeoutNotify (.new 1 drawn) handle fresh) rfl hhandles calls

end BFTDiagnosis.BasicHotstuff

namespace BFTDiagnosis.ChainHotstuff

open Components Hotstuff Word

variable {X : Externals}

/-- The calls of the actuator on the protocol of the node `me`; a message comes with the order in which its map is
visited. -/
def respond (X : Externals) (me : Bytes) (p : ChainHotstuffProtocol) :
    Components.Call (MessageType × List (Bytes × ConsensusNodePKInfo)) InitialStart →
      Option (ChainHotstuffProtocol × Response Payload)
  | .consensusProtocolMessageHandler (msg, order) =>
    (p.consensusProtocolMessageHandler X me order msg).map (Prod.map id fun outcome ↦ .phaseState outcome.answer)
  | .viewTimeoutHandler => (p.viewTimeoutHandler X me).map (Prod.map id fun outcome ↦ .phaseState outcome.answer)
  | .checkTakenRequest request => some (p, .decision (p.checkTakenRequest request))
  | .isLeader peerId => some (p, .decision (p.isLeader peerId))
  | .extraInitialStart start =>
    (p.extraInitialStart X start.consensusNodes me start.randomness start.order start.pkOrder).map
      (Prod.map id fun outcome ↦ .phaseState outcome.answer)

/-- `view_timeout_start` is called at the end of `next_view`, and only there; the leader of the view returns before.
So a call of the node `me` starts a timer exactly when it moves the protocol to a view of another leader. -/
def startsViewTimer (me : Bytes) (p p' : ChainHotstuffProtocol) : Bool :=
  p'.state.view != p.state.view && p'.state.currentLeader != me

def call (X : Externals) (me : Bytes) : Timed ChainHotstuffProtocol →
    Components.Call (MessageType × List (Bytes × ConsensusNodePKInfo)) InitialStart →
      Option (Timed ChainHotstuffProtocol × Response Payload × List ℕ) :=
  Timed.call (respond X me) (startsViewTimer me)

/-- `ChainHotstuffProtocol::protocol_reset`, with the random peer id that it draws. -/
def protocolReset (s : Timed ChainHotstuffProtocol) (peerId : String) : Timed ChainHotstuffProtocol :=
  s.newNotify (s.protocol.protocolReset peerId)

section Timers

variable {me : Bytes}

/-- A new view under another node starts a timer. -/
theorem startsViewTimer_advance {p : ChainHotstuffProtocol} {currentLeader nextLeader : Bytes}
    (hview : p.state.view.toNat + 1 < 2 ^ 64) (hne : currentLeader ≠ me) :
    startsViewTimer me p (p.advance currentLeader nextLeader) = true := by
  exact Bool.and_eq_true_iff.2 ⟨bne_iff_ne.2 (add_one_ne_self hview), bne_iff_ne.2 hne⟩

/-- A node that is not in a list of one node follows it into the next view. -/
theorem nextView_loneNode {p : ChainHotstuffProtocol} {other : Bytes} (hother : X.peerIdValid other = true)
    (hne : other ≠ me) (hview : p.state.view = 0) (hnodes : p.pkConsensusNodes = assignNumbers ∅ (loneNode other)) :
    ∃ queue, p.nextView X me = some (p.advance other other, queue) := by
  have hleader : X.peerIdFromBytes other = some other := if_pos hother
  have hfirst : checkedAdd p.state.view 1 = some (p.state.view + 1) := by
    rw [hview]
    rfl
  have hchange : p.changeLeader (p.state.view + 1) =
      some { p with state := { p.state with currentLeader := other, nextLeader := other } } := by
    refine changeLeader_eq_some.2 ⟨?_, other, other, ?_, ?_, rfl⟩
    · rw [hview]
      decide
    · rw [hnodes, nodeOfView_loneNode]
    · rw [hnodes, nodeOfView_loneNode]
  simp only [ChainHotstuffProtocol.nextView, hfirst, hchange, if_neg hne, hleader, bind, pure, Option.bind_some]
  exact ⟨_, rfl⟩

/-- A new protocol starts a view timer when it learns that another node is alone. -/
theorem respond_loneNode (hme : X.peerIdValid me = true) {other : Bytes} (hother : X.peerIdValid other = true)
    (hne : other ≠ me) (peerId : String) :
    ∃ p' response, respond X me (.new 1 peerId)
        (.consensusProtocolMessageHandler (.consensusNodePKsInfo (loneNode other), loneNode other)) =
          some (p', response) ∧
      startsViewTimer me (.new 1 peerId) p' = true := by
  have hpeer : X.peerIdFromBytes me = some me := if_pos hme
  let joined : ChainHotstuffProtocol :=
    { ChainHotstuffProtocol.new 1 peerId with
      consensusNodePks := HashMap.ofEntries (loneNode other)
      pkConsensusNodes := assignNumbers ∅ (loneNode other) }
  obtain ⟨queue, hnext⟩ := @nextView_loneNode X me joined other hother hne rfl rfl
  have hstored : ({ ChainHotstuffProtocol.new 1 peerId with
      consensusNodePks := HashMap.ofEntries (loneNode other) }).storageConsensusNodePk X (loneNode other)
        (HashMap.ofEntries (loneNode other)) me = some (joined.advance other other, .overMessage none []) := by
    rw [ChainHotstuffProtocol.storageConsensusNodePk, if_pos (listing_loneNode other), foldlM_storeNumber,
      if_pos (idsValid_loneNode hother)]
    exact Option.bind_eq_some_iff.2 ⟨_, rfl, Option.bind_eq_some_iff.2 ⟨_, hnext, rfl⟩⟩
  have htaken : (ChainHotstuffProtocol.new 1 peerId).consensusProtocolMessageHandler X me (loneNode other)
      (.consensusNodePKsInfo (loneNode other)) = some (joined.advance other other, .of (.overMessage none [])) :=
    Option.bind_eq_some_iff.2 ⟨me, hpeer, Option.bind_eq_some_iff.2 ⟨_, hstored, rfl⟩⟩
  have hview : joined.state.view.toNat + 1 < 2 ^ 64 := show (0 : UInt64).toNat + 1 < 2 ^ 64 by decide
  have hstarts := @startsViewTimer_advance me joined other other hview hne
  exact ⟨_, _, Option.map_eq_some_iff.2 ⟨_, htaken, rfl⟩, hstarts⟩

end Timers

/-- After any calls on a protocol that was given a handle, a reset does not make it a fresh protocol with this
handle. -/
theorem not_reset_indistinguishable {me other : Bytes} (hme : X.peerIdValid me = true)
    (hother : X.peerIdValid other = true) (hne : other ≠ me) {handle allocated : ℕ} (hmade : handle < allocated)
    (peerId drawn drawn' : String)
    {run : List (Transition (Timed ChainHotstuffProtocol) _ (Response Payload × List ℕ))}
    {s : Timed ChainHotstuffProtocol}
    (hrun : IsRun (call X me) (.initTimeoutNotify (.new 1 peerId) handle allocated) run s) (fresh : ℕ) :
    ¬ Indistinguishable (call X me) (protocolReset s drawn) (.initTimeoutNotify (.new 1 drawn') handle fresh) := by
  have hallocated : s.allocated = allocated := Timed.allocated_of_run hrun
  obtain ⟨p', response, hrespond, hstarts⟩ := respond_loneNode hme hother hne drawn
  obtain ⟨p'', response', hrespond', hstarts'⟩ := respond_loneNode hme hother hne drawn'
  refine Timed.not_indistinguishable_of_timer ?_ hrespond hrespond' hstarts hstarts'
  change s.allocated ≠ handle
  omega

/-- With the same random draw, the calls after a reset are answered as by a fresh protocol until one of them starts a
view timer. -/
theorem answers_reset_eq_iff {me : Bytes} {handle allocated : ℕ} (hmade : handle < allocated) (peerId drawn : String)
    {run : List (Transition (Timed ChainHotstuffProtocol) _ (Response Payload × List ℕ))}
    {s : Timed ChainHotstuffProtocol}
    (hrun : IsRun (call X me) (.initTimeoutNotify (.new 1 peerId) handle allocated) run s) (fresh : ℕ)
    (calls : List (Components.Call (MessageType × List (Bytes × ConsensusNodePKInfo)) InitialStart)) :
    answers (call X me) (protocolReset s drawn) calls =
        answers (call X me) (.initTimeoutNotify (.new 1 drawn) handle fresh) calls ↔
      ∀ response timers, some (response, timers) ∈ answers (call X me) (protocolReset s drawn) calls → timers = [] := by
  have hallocated : s.allocated = allocated := Timed.allocated_of_run hrun
  have hhandles : (protocolReset s drawn).viewTimeoutNotify ≠ handle := by
    change s.allocated ≠ handle
    omega
  exact @Timed.answers_eq_iff_of_handles _ _ _ (respond X me) (startsViewTimer me) (protocolReset s drawn)
    (.initTimeoutNotify (.new 1 drawn) handle fresh) rfl hhandles calls

end BFTDiagnosis.ChainHotstuff
