import BFTDiagnosis.Pbft.LogIntegrity

/-!
# View changes of PBFT

Three questions about view changes, answered for every run.

* When does the view move forward, backed by a quorum? `handle_newview` takes the view of the message
  as it is: its check is commented out. So this is decided by the NewView alone.
* Does a primary announce the new view? It never does: the branch for `f + 1` ViewChanges comes first
  and returns, and `2 * f + 1` of them are also `f + 1`.
* Does a ViewChange carry what is prepared? It never does: the proof is collected from the requests in
  progress, and nothing is ever put into their queue.
-/

namespace BFTDiagnosis.Pbft

open Components Word PBFTProtocol

variable {X : Externals}

/-! ## The view -/

def Event.newview : Event → Option (NewView MessageType)
  | .message (.newView msg) => some msg
  | _ => none

/-- Only a NewView writes the view, and it writes its own. -/
theorem step_view {me : Bytes} {p p' : PBFTProtocol} {event : Event} {out : Answer}
    (h : step X me p event = some (p', out)) :
    p'.state.view = (event.newview.map NewView.view).getD p.state.view := by
  cases step_effect h with
  | rejected event' =>
    cases event with
    | initialStart nodes => rfl
    | message msg =>
      cases msg with
      | newView msg =>
        have hpair := Option.some.inj h
        exact (congrArg (fun result ↦ result.1.state.view) hpair).symm
      | _ => rfl
  | _ => rfl

/-- The NewView contains ViewChanges for its view from more than `2 * f` different peers. -/
def Backed (f : UInt64) (msg : NewView MessageType) : Prop :=
  2 * f.toNat < ((msg.viewchanges.filter fun viewchange ↦ viewchange.newView = msg.view).map
    ViewChange.fromPeerId).toFinset.card

/-- The view does not go back, and a NewView changes it only to a larger one for which it contains
ViewChanges from more than `2 * f` different peers. -/
structure ViewForward (f : UInt64) (t : Transition PBFTProtocol Event Answer) : Prop where
  forward : t.pre.state.view ≤ t.post.state.view
  backed : ∀ msg ∈ t.event.newview, t.post.state.view ≠ t.pre.state.view →
    t.pre.state.view < t.post.state.view ∧ msg.view = t.post.state.view ∧ Backed f msg

/-- A NewView is for the current view, or for a later one and backed by a quorum. -/
def JustifiedNewview (f : UInt64) (t : Transition PBFTProtocol Event Answer) : Prop :=
  ∀ msg ∈ t.event.newview,
    msg.view = t.pre.state.view ∨ (t.pre.state.view < msg.view ∧ Backed f msg)

theorem viewForward_iff {me : Bytes} {f : UInt64} {t : Transition PBFTProtocol Event Answer}
    (htaken : step X me t.pre t.event = some (t.post, t.out)) :
    ViewForward f t ↔ JustifiedNewview f t := by
  have hview := step_view htaken
  cases hevent : t.event.newview with
  | none =>
    rw [hevent, Option.map_none, Option.getD_none] at hview
    constructor
    · intro _ msg hmsg
      rw [hevent] at hmsg
      cases hmsg
    · intro _
      refine ⟨UInt64.le_of_eq hview.symm, ?_⟩
      intro msg hmsg
      rw [hevent] at hmsg
      cases hmsg
  | some msg =>
    rw [hevent, Option.map_some, Option.getD_some] at hview
    constructor
    · intro h other hother
      obtain rfl : msg = other := Option.some.inj (hevent.symm.trans hother)
      by_cases hsame : msg.view = t.pre.state.view
      · exact .inl hsame
      · have hbacked := h.backed msg hevent (hview ▸ hsame)
        rw [hview] at hbacked
        exact .inr ⟨hbacked.1, hbacked.2.2⟩
    · intro h
      have hjustified := h msg hevent
      rw [← hview] at hjustified
      refine ⟨?_, ?_⟩
      · rcases hjustified with hsame | ⟨hlater, -⟩
        · exact UInt64.le_of_eq hsame.symm
        · exact UInt64.le_of_lt hlater
      · intro other hother hchanged
        obtain rfl : msg = other := Option.some.inj (hevent.symm.trans hother)
        rcases hjustified with hsame | ⟨hlater, hbacked⟩
        · exact absurd hsame hchanged
        · exact ⟨hlater, hview.symm, hbacked⟩

/-- The view moves forward and with a quorum exactly in the runs whose NewViews are for the current
view or justified by a quorum. -/
theorem viewForward_iff_justifiedNewview {f : UInt64} {keypair me : Bytes} {run : PbftRun}
    {p : PBFTProtocol} (hrun : IsRun (step X me) (PBFTProtocol.new f keypair) run p) :
    (∀ t ∈ run, ViewForward f t) ↔ ∀ t ∈ run, JustifiedNewview f t :=
  forall₂_congr fun t ht ↦ viewForward_iff (hrun.taken t ht)

instance Backed.decidable (f : UInt64) (msg : NewView MessageType) : Decidable (Backed f msg) :=
  inferInstanceAs (Decidable (_ < _))

instance JustifiedNewview.decidable (f : UInt64) (t : Transition PBFTProtocol Event Answer) :
    Decidable (JustifiedNewview f t) :=
  inferInstanceAs (Decidable (∀ msg ∈ t.event.newview, _ = _ ∨ (_ < _ ∧ _)))

/-- A ViewChange of a peer, without proofs. -/
def plainViewchange (newView : UInt64) (peer : Bytes) : ViewChange MessageType :=
  { newView := newView, proofMessages := ⟨[], []⟩, fromPeerId := peer, signature := "" }

/-- A NewView with the ViewChanges of the given peers. -/
def plainNewview (view : UInt64) (peers : List Bytes) : NewView MessageType :=
  { view := view, viewchanges := peers.map (plainViewchange view), preprepares := [], signature := "" }

/-- A NewView of three peers, when one fault is tolerated. -/
theorem viewForward_iff_justifiedNewview_quorum :
    ∃ run p, IsRun (step .transparent [1]) (PBFTProtocol.new 1 [1]) run p ∧ p.state.view = 1 ∧
      (∀ t ∈ run, JustifiedNewview 1 t) ∧ ∀ t ∈ run, ViewForward 1 t := by
  have hrun : IsRun (step .transparent [1]) (PBFTProtocol.new 1 [1])
      (transitions (step .transparent [1]) (PBFTProtocol.new 1 [1])
        [.message (.newView (plainNewview 1 [[2], [3], [4]]))]) _ := .of_isSome (by decide +kernel)
  have hjustified : ∀ t ∈ transitions (step .transparent [1]) (PBFTProtocol.new 1 [1])
      [.message (.newView (plainNewview 1 [[2], [3], [4]]))], JustifiedNewview 1 t := by decide +kernel
  exact ⟨_, _, hrun, by decide +kernel, hjustified, (viewForward_iff_justifiedNewview hrun).2 hjustified⟩

/-- Two NewViews without any ViewChange: the first moves the view to 5, the second back to 0. -/
theorem not_viewForward_of_bare_newviews :
    ∃ run p, IsRun (step .transparent [1]) (PBFTProtocol.new 1 [1]) run p ∧
      run.map (fun t ↦ (t.pre.state.view, t.post.state.view)) = [(0, 5), (5, 0)] ∧
      (∀ t ∈ run, ¬ ViewForward 1 t) ∧ ¬ ∀ t ∈ run, t.pre.state.view ≤ t.post.state.view := by
  refine ⟨transitions (step .transparent [1]) (PBFTProtocol.new 1 [1])
      [.message (.newView (plainNewview 5 [])), .message (.newView (plainNewview 0 []))], _,
    .of_isSome (by decide +kernel), by decide +kernel, ?_, by decide +kernel⟩
  have hbare : ∀ t ∈ transitions (step .transparent [1]) (PBFTProtocol.new 1 [1])
      [.message (.newView (plainNewview 5 [])), .message (.newView (plainNewview 0 []))],
      ∃ msg ∈ t.event.newview, t.post.state.view ≠ t.pre.state.view ∧ ¬ Backed 1 msg := by
    decide +kernel
  intro t ht h
  obtain ⟨msg, hmsg, hchanged, hunbacked⟩ := hbare t ht
  exact hunbacked (h.backed msg hmsg hchanged).2.2

/-! ## The announcement of a new view -/

theorem notMem_sentMessages_singleton {msg other : MessageType} (h : msg ≠ other) :
    msg ∉ sentMessages (.continueExecute [.broadcast (.message ⟨other⟩)]) := by
  simpa [sentMessages, SendType.payloads] using h

/-- A ViewChange is never answered with a NewView: the counts at which it would be are answered with
a ViewChange. -/
theorem handleViewchange_not_newview {me : Bytes} {p p' : PBFTProtocol} {msg : ViewChange MessageType}
    {out : Answer} (h : p.handleViewchange X me msg = some (p', out)) (newview : NewView MessageType) :
    .newView newview ∉ sentMessages out := by
  simp only [handleViewchange, bind, pure] at h
  split at h
  case isTrue =>
    obtain ⟨-, rfl⟩ := Prod.mk.inj (Option.some.inj h)
    exact List.not_mem_nil
  case isFalse =>
    split at h
    case isTrue =>
      simp only [broadcastViewchange, bind, pure, Option.bind_eq_some_iff, Option.some.injEq,
        Prod.mk.injEq] at h
      obtain ⟨answer, ⟨-, -, -, -, -, -, rfl⟩, -, rfl⟩ := h
      exact notMem_sentMessages_singleton (by simp)
    case isFalse hfew =>
      obtain ⟨quorum, hquorum, hrest⟩ := Option.bind_eq_some_iff.1 h
      cases quorum with
      | true =>
        exfalso
        unfold newviewQuorum at hquorum
        split at hquorum
        case isTrue =>
          obtain ⟨threshold, hthreshold, hmany⟩ := Option.map_eq_some_iff.1 hquorum
          have hmany := of_decide_eq_true hmany
          rw [toNat_threshold hthreshold] at hmany
          have hle : p.state.faultToleranceCount.toNat ≤ 2 * p.state.faultToleranceCount.toNat := by
            omega
          exact hfew (Nat.lt_of_le_of_lt hle hmany)
        case isFalse => cases hquorum
      | false =>
        simp only [Bool.false_eq_true, if_false, Option.some.injEq, Prod.mk.injEq] at hrest
        rw [← hrest.2]
        exact List.not_mem_nil

/-- No call broadcasts a NewView. -/
theorem step_not_newview {me : Bytes} {p p' : PBFTProtocol} {event : Event} {out : Answer}
    (h : step X me p event = some (p', out)) (newview : NewView MessageType) :
    .newView newview ∉ sentMessages out := by
  cases step_effect h with
  | viewchangeQuorum msg newview' => exact handleViewchange_not_newview h newview
  | newview msg => simp [sentMessages, handleNewview, newviewPrepare, SendType.payloads]
  | initialStart nodes => simp [sentMessages, extraInitialStart, distributePublicKey, SendType.payloads]
  | distributePK => simp [sentMessages, distributePublicKey, SendType.payloads]
  | _ => simp [sentMessages, silent, SendType.payloads]

def Event.viewchangeFor (view : UInt64) : Event → Option (ViewChange MessageType)
  | .message (.viewChange msg) => if msg.newView = view then some msg else none
  | _ => none

/-- The ViewChanges for a view that a run receives. -/
def receivedViewchanges (view : UInt64) (run : PbftRun) : List (ViewChange MessageType) :=
  run.filterMap (·.event.viewchangeFor view)

/-- The run receives ViewChanges for the view from `2 * f + 1` different peers. -/
def ViewchangeQuorum (f view : UInt64) (run : PbftRun) : Prop :=
  2 * f.toNat + 1 ≤ ((receivedViewchanges view run).map ViewChange.fromPeerId).toFinset.card

/-- Some call of the run broadcasts a NewView for the view, with all the ViewChanges for it that have
been received by then, from `2 * f + 1` different peers. -/
def AnnouncesView (f view : UInt64) (run : PbftRun) : Prop :=
  ∃ before t after newview, run = before ++ t :: after ∧
    .broadcast (.message ⟨.newView newview⟩) ∈ t.out.queue ∧ newview.view = view ∧
    ViewchangeQuorum f view (before ++ [t]) ∧
    ∀ viewchange ∈ receivedViewchanges view (before ++ [t]), viewchange ∈ newview.viewchanges

/-- No run announces a view, from whatever state and whatever it receives. In particular a primary that
stays in its view and receives ViewChanges for the next one from `2 * f + 1` peers does not. -/
theorem not_announcesView_of_isRun {me : Bytes} {p p' : PBFTProtocol} {run : PbftRun}
    (hrun : IsRun (step X me) p run p') (f view : UInt64) : ¬ AnnouncesView f view run := by
  rintro ⟨before, t, after, newview, hsplit, hsent, -⟩
  have ht : t ∈ run := by simp [hsplit]
  exact step_not_newview (hrun.taken t ht) newview (mem_sentMessages_of_broadcast hsent)

instance ViewchangeQuorum.decidable (f view : UInt64) (run : PbftRun) :
    Decidable (ViewchangeQuorum f view run) := inferInstanceAs (Decidable (_ ≤ _))

/-- A new protocol that is told to be the primary. -/
def primaryNode : PBFTProtocol :=
  { PBFTProtocol.new 1 [1] with state := { State.new 1 with isPrimary := true } }

/-- Three peers ask for view 1. -/
def viewchangeEvents : List Event :=
  [[2], [3], [4]].map fun peer ↦ .message (.viewChange (plainViewchange 1 peer))

/-- The primary stays in view 0, receives ViewChanges for view 1 from three peers when it tolerates one
fault, and does not announce view 1. -/
theorem not_announcesView_of_isRun_three :
    ∃ run p, primaryNode.state.isPrimary = true ∧ primaryNode.state.faultToleranceCount = 1 ∧
      IsRun (step .transparent [1]) primaryNode run p ∧ (∀ t ∈ run, t.pre.state.view = 0) ∧
      ViewchangeQuorum 1 1 run ∧ ¬ AnnouncesView 1 1 run := by
  have hrun : IsRun (step .transparent [1]) primaryNode
      (transitions (step .transparent [1]) primaryNode viewchangeEvents) _ :=
    .of_isSome (by decide +kernel)
  exact ⟨_, _, rfl, rfl, hrun, by decide +kernel, by decide +kernel, not_announcesView_of_isRun hrun 1 1⟩

/-- The answers of the primary to the three ViewChanges: nothing, and twice a ViewChange of its own. -/
theorem not_announcesView_of_three_viewchanges :
    ∃ run p, primaryNode.state.isPrimary = true ∧ primaryNode.state.faultToleranceCount = 1 ∧
      IsRun (step .transparent [1]) primaryNode run p ∧ (∀ t ∈ run, t.pre.state.view = 0) ∧
      ViewchangeQuorum 1 1 run ∧ (run.map fun t ↦ t.out.queue.length) = [0, 1, 1] ∧
      ¬ AnnouncesView 1 1 run := by
  have hrun : IsRun (step .transparent [1]) primaryNode
      (transitions (step .transparent [1]) primaryNode viewchangeEvents) _ :=
    .of_isSome (by decide +kernel)
  refine ⟨_, _, rfl, rfl, hrun, by decide +kernel, by decide +kernel, by decide +kernel, ?_⟩
  rintro ⟨before, t, after, newview, hsplit, hsent, -⟩
  have ht : t ∈ transitions (step .transparent [1]) primaryNode viewchangeEvents := by simp [hsplit]
  exact step_not_newview (hrun.taken t ht) newview (mem_sentMessages_of_broadcast hsent)

/-! ## What a ViewChange proves -/

theorem recordRequest_frame (log : ConsensusLog) (number : UInt64) (request : Request) :
    ∃ requests, log.recordRequest number request = { log with requests := requests } := by
  unfold ConsensusLog.recordRequest
  split
  case isTrue => exact ⟨log.requests, rfl⟩
  case isFalse => exact ⟨_, rfl⟩

theorem getRequestPhaseState_recordRequest (log : ConsensusLog) (number : UInt64) (request : Request)
    (mHash : String) :
    (log.recordRequest number request).getRequestPhaseState mHash = log.getRequestPhaseState mHash := by
  obtain ⟨requests, hframe⟩ := recordRequest_frame log number request
  rw [hframe]
  rfl

theorem recordPreprepares_frame (preprepares : List PrePrepare) (log : ConsensusLog) :
    ∃ messages, preprepares.foldl
      (fun log preprepare ↦ log.recordMessageHandler X (.prePrepare preprepare)) log =
        { log with messages := messages } := by
  induction preprepares generalizing log with
  | nil => exact ⟨log.messages, rfl⟩
  | cons preprepare rest ih => exact ih (log.recordPreprepare X preprepare)

/-- Nothing is recorded as being in progress. -/
structure ConsensusLog.Idle (log : ConsensusLog) : Prop where
  requestMap : log.requestMap = ∅
  currentRequests : log.currentRequests = []

theorem ConsensusLog.Idle.recordRequest {log : ConsensusLog} (h : log.Idle) (number : UInt64)
    (request : Request) : (log.recordRequest number request).Idle := by
  obtain ⟨requests, hframe⟩ := recordRequest_frame log number request
  rw [hframe]
  exact ⟨h.requestMap, h.currentRequests⟩

theorem ConsensusLog.Idle.step {me : Bytes} {p p' : PBFTProtocol} {event : Event} {out : Answer}
    (htaken : step X me p event = some (p', out)) (h : p.log.Idle) : p'.log.Idle := by
  cases step_effect htaken with
  | request request number preprepare hnumber => exact h.recordRequest number request
  | preprepare msg request hjson haccepted =>
    have hrecorded := h.recordRequest msg.number request
    exact ⟨hrecorded.requestMap, hrecorded.currentRequests⟩
  | commitQuorum => exact ⟨rfl, rfl⟩
  | replyQuorum => exact ⟨rfl, rfl⟩
  | newview msg =>
    obtain ⟨messages, hframe⟩ :=
      @recordPreprepares_frame X msg.preprepares p.log.clearCurrentRequest
    refine ⟨?_, ?_⟩
    · rw [handleNewview, hframe]
      exact h.requestMap
    · rw [handleNewview, hframe]
      rfl
  | _ => exact ⟨h.requestMap, h.currentRequests⟩

/-- With nothing in progress a ViewChange proves nothing. -/
theorem ConsensusLog.Idle.getProofMessages {log : ConsensusLog} (h : log.Idle) :
    log.getProofMessages X = some ⟨[], []⟩ := by
  rw [ConsensusLog.getProofMessages, h.currentRequests]
  rfl

theorem prefix_listAt_pushAt (m : HashMap String (List MessageType)) (key other : String)
    (msg : MessageType) : m.listAt key <+: (m.pushAt other msg).listAt key := by
  by_cases hkey : key = other
  · rw [hkey, HashMap.listAt_pushAt_self]
    exact List.prefix_append _ _
  · rw [HashMap.listAt_pushAt_of_ne m msg hkey]

/-- With nothing in progress a stable checkpoint discards no message. -/
theorem ConsensusLog.Idle.listAt_discard {log : ConsensusLog} (h : log.Idle) (stable : UInt64)
    (key : String) :
    (log.discardMessagesBeforeStableCheckpoint X stable).messages.listAt key =
      log.messages.listAt key := by
  have hkeys : log.discardedKeys X stable = 0 := by
    rw [ConsensusLog.discardedKeys, h.requestMap]
    rfl
  have hkeep : decide (key ∉ log.discardedKeys X stable) = true := by
    rw [hkeys]
    exact decide_eq_true (Multiset.notMem_zero key)
  simp only [ConsensusLog.discardMessagesBeforeStableCheckpoint, HashMap.listAt,
    HashMap.lookup_retain, hkeep, if_true]

section Step

variable {me : Bytes} {p p' : PBFTProtocol} {event : Event} {out : Answer}

/-- Until the log is reset, the messages under a key only become more. -/
theorem step_prefix_listAt (h : step X me p event = some (p', out)) (hreset : resetsLog out = false)
    (hidle : p.log.Idle) (key : String) :
    p.log.messages.listAt key <+: p'.log.messages.listAt key := by
  cases step_effect h with
  | request request number preprepare hnumber => simp only [recordRequest_messages, List.prefix_rfl]
  | preprepare msg request hjson haccepted =>
    rw [← recordRequest_messages p.log msg.number request]
    exact prefix_listAt_pushAt _ _ _ _
  | prepare msg haccepted => exact prefix_listAt_pushAt _ _ _ _
  | prepareQuorum msg haccepted => exact prefix_listAt_pushAt _ _ _ _
  | commit msg haccepted => exact prefix_listAt_pushAt _ _ _ _
  | commitQuorum => cases hreset
  | replyQuorum => cases hreset
  | checkpointStable msg =>
    have hrecorded : (p.log.recordCheckpoint msg).Idle := ⟨hidle.requestMap, hidle.currentRequests⟩
    rw [hrecorded.listAt_discard]
    exact List.prefix_rfl
  | newview msg =>
    obtain ⟨extra, hextra, -⟩ :=
      @MessagesChange.of_recordPreprepares X key msg.preprepares p.log.clearCurrentRequest
    exact hextra ▸ List.prefix_append _ _
  | _ => exact List.prefix_rfl

/-- A request is marked as prepared by the Prepare that completes its quorum, and stays so until the
log is reset. -/
theorem step_prepared (h : step X me p event = some (p', out)) {mHash : String}
    (hphase : p'.log.getRequestPhaseState mHash = some .prepared) :
    (p.log.getRequestPhaseState mHash = some .prepared ∧ resetsLog out = false) ∨
      ∃ msg, event = .message (.prepare msg) ∧ msg.mHash = mHash ∧
        (p'.log.messages.listAt (getMessageKey X (.prepare msg))).length =
          2 * p.state.faultToleranceCount.toNat ∧ 1 ≤ p.state.faultToleranceCount.toNat := by
  cases step_effect h with
  | request request number preprepare hnumber =>
    rw [getRequestPhaseState_recordRequest] at hphase
    exact .inl ⟨hphase, rfl⟩
  | preprepare msg request hjson haccepted =>
    have hsame := getRequestPhaseState_recordRequest p.log msg.number request mHash
    exact .inl ⟨hsame.symm.trans hphase, rfl⟩
  | prepareQuorum msg haccepted hcount =>
    by_cases hhash : mHash = msg.mHash
    · refine .inr ⟨msg, rfl, hhash.symm, ?_, by omega⟩
      rw [← hcount]
      change ((p.log.messages.pushAt (getMessageKey X (.prepare msg)) (.prepare msg)).listAt
        (getMessageKey X (.prepare msg))).length = _
      rw [HashMap.listAt_pushAt_self, List.length_append, List.length_singleton]
    · have hother := Finmap.lookup_insert_of_ne p.log.requestPhaseState (b := .prepared) hhash
      exact .inl ⟨hother.symm.trans hphase, rfl⟩
  | commitQuorum =>
    have hnone : (none : Option LogPhaseState) = some .prepared := hphase
    cases hnone
  | replyQuorum =>
    have hnone : (none : Option LogPhaseState) = some .prepared := hphase
    cases hnone
  | newview msg =>
    obtain ⟨messages, hframe⟩ :=
      @recordPreprepares_frame X msg.preprepares p.log.clearCurrentRequest
    rw [handleNewview, hframe] at hphase
    exact .inl ⟨hphase, rfl⟩
  | _ => exact .inl ⟨hphase, rfl⟩

end Step

/-- The PrePrepares that are logged for a slot. -/
def loggedPreprepares (X : Externals) (p : PBFTProtocol) (slot : Slot) : List MessageType :=
  p.log.messages.listAt (getPreprepareKeyByRequestHash X (asBytes slot.mHash) slot.view slot.number)

/-- The Prepares that are logged for a slot. -/
def loggedPrepares (X : Externals) (p : PBFTProtocol) (slot : Slot) : List MessageType :=
  p.log.messages.listAt (getPrepareKeyByRequestHash X (asBytes slot.mHash) slot.view slot.number)

/-- The request of the slot is marked as prepared, on a quorum of Prepares for the slot. -/
structure PreparedFor (X : Externals) (p : PBFTProtocol) (slot : Slot) : Prop where
  phase : p.log.getRequestPhaseState slot.mHash = some .prepared
  quorum : 2 * p.state.faultToleranceCount.toNat ≤ (loggedPrepares X p slot).length

/-- The ViewChange of the node can be built, and contains everything logged for the slot. -/
def CarriesPrepared (X : Externals) (me : Bytes) (p : PBFTProtocol) (slot : Slot) : Prop :=
  ∃ viewchange, p.broadcastViewchange X me =
      some (.continueExecute [.broadcast (.message ⟨.viewChange viewchange⟩)]) ∧
    (∀ msg ∈ loggedPreprepares X p slot, msg ∈ viewchange.proofMessages.preprepares) ∧
    ∀ msg ∈ loggedPrepares X p slot, msg ∈ viewchange.proofMessages.prepares

/-- What a run keeps: nothing is in progress, and what is prepared has its quorum in the log. -/
structure PreparedInv (X : Externals) (p : PBFTProtocol) : Prop where
  idle : p.log.Idle
  prepared : ∀ mHash, p.log.getRequestPhaseState mHash = some .prepared →
    1 ≤ p.state.faultToleranceCount.toNat ∧ ∃ view number, PreparedFor X p ⟨view, number, mHash⟩

theorem PreparedInv.start {f : UInt64} {keypair : Bytes} : PreparedInv X (PBFTProtocol.new f keypair) where
  idle := ⟨rfl, rfl⟩
  prepared := by
    intro mHash hphase
    have hnone : (none : Option LogPhaseState) = some .prepared := hphase
    cases hnone

theorem PreparedInv.step {me : Bytes} {p p' : PBFTProtocol} {event : Event} {out : Answer}
    (htaken : step X me p event = some (p', out)) (h : PreparedInv X p) : PreparedInv X p' where
  idle := h.idle.step htaken
  prepared := by
    intro mHash hphase
    have hf := step_faultToleranceCount htaken
    rcases step_prepared htaken hphase with ⟨hold, hreset⟩ | ⟨msg, -, rfl, hcount, hpositive⟩
    · obtain ⟨hpositive, view, number, hprepared⟩ := h.prepared mHash hold
      refine ⟨hf ▸ hpositive, view, number, hphase, ?_⟩
      rw [hf]
      calc 2 * p.state.faultToleranceCount.toNat
          ≤ (loggedPrepares X p ⟨view, number, mHash⟩).length := hprepared.quorum
        _ ≤ (loggedPrepares X p' ⟨view, number, mHash⟩).length :=
          (step_prefix_listAt htaken hreset h.idle _).length_le
    · refine ⟨hf ▸ hpositive, msg.view, msg.number, hphase, ?_⟩
      rw [hf, ← hcount]
      exact Nat.le_refl _

/-- A prepared request is prepared for some slot, and the ViewChange that the node would send carries
what is logged for no such slot. -/
theorem not_carriesPrepared_of_prepared {f : UInt64} {keypair me : Bytes} {run : PbftRun}
    {p : PBFTProtocol} (hrun : IsRun (step X me) (PBFTProtocol.new f keypair) run p) {mHash : String}
    (hphase : p.log.getRequestPhaseState mHash = some .prepared) :
    (∃ view number, PreparedFor X p ⟨view, number, mHash⟩) ∧
      ∀ view number, PreparedFor X p ⟨view, number, mHash⟩ →
        ¬ CarriesPrepared X me p ⟨view, number, mHash⟩ := by
  have hinv : PreparedInv X p :=
    IsRun.invariant_of_forall (PreparedInv X) .start (fun t h _ htaken ↦ h.step htaken) hrun
      fun _ _ ↦ trivial
  obtain ⟨hpositive, hslot⟩ := hinv.prepared mHash hphase
  refine ⟨hslot, ?_⟩
  intro view number hprepared hcarries
  obtain ⟨viewchange, hsent, -, hprepares⟩ := hcarries
  have hnothing : viewchange.proofMessages.prepares = [] := by
    simp only [broadcastViewchange, hinv.idle.getProofMessages, bind, pure, Option.bind_some,
      Option.bind_eq_some_iff, Option.some.injEq, PhaseState.continueExecute.injEq,
      List.cons.injEq, SendType.broadcast.injEq, Payload.message.injEq, ConsensusMessage.mk.injEq,
      MessageType.viewChange.injEq, and_true] at hsent
    obtain ⟨-, -, newView, -, rfl⟩ := hsent
    rfl
  have hlength : 0 < (loggedPrepares X p ⟨view, number, mHash⟩).length := by
    have hquorum := hprepared.quorum
    omega
  obtain ⟨msg, hmsg⟩ := List.exists_mem_of_length_pos hlength
  have hcarried := hprepares msg hmsg
  rw [hnothing] at hcarried
  cases hcarried

/-- A replica that has prepared the first request. -/
def preparedNode : PBFTProtocol :=
  final (step .transparent [1]) (PBFTProtocol.new 1 [1]) (roundEvents.take 6)

theorem isRun_preparedNode :
    ∃ run, IsRun (step .transparent [1]) (PBFTProtocol.new 1 [1]) run preparedNode :=
  ⟨_, .of_isSome (by decide +kernel)⟩

theorem not_carriesPrepared_of_prepared_round :
    preparedNode.log.getRequestPhaseState (requestHash .transparent ⟨"a"⟩) = some .prepared ∧
      (∃ view number, PreparedFor .transparent preparedNode
        ⟨view, number, requestHash .transparent ⟨"a"⟩⟩) ∧
      ∀ view number, PreparedFor .transparent preparedNode
        ⟨view, number, requestHash .transparent ⟨"a"⟩⟩ →
          ¬ CarriesPrepared .transparent [1] preparedNode
            ⟨view, number, requestHash .transparent ⟨"a"⟩⟩ := by
  obtain ⟨run, hrun⟩ := isRun_preparedNode
  have hphase : preparedNode.log.getRequestPhaseState (requestHash .transparent ⟨"a"⟩) =
      some .prepared := by decide +kernel
  exact ⟨hphase, not_carriesPrepared_of_prepared hrun hphase⟩

/-- Two Prepares are logged for the prepared request, and the ViewChange of the replica is empty. -/
theorem not_carriesPrepared_of_round :
    (∃ run, IsRun (step .transparent [1]) (PBFTProtocol.new 1 [1]) run preparedNode) ∧
      PreparedFor .transparent preparedNode (roundPrepare [2] ⟨"a"⟩).slot ∧
      (loggedPrepares .transparent preparedNode (roundPrepare [2] ⟨"a"⟩).slot).length = 2 ∧
      ¬ CarriesPrepared .transparent [1] preparedNode (roundPrepare [2] ⟨"a"⟩).slot := by
  have htwo : (loggedPrepares .transparent preparedNode (roundPrepare [2] ⟨"a"⟩).slot).length = 2 := by
    decide +kernel
  refine ⟨isRun_preparedNode, ⟨by decide +kernel, by decide +kernel⟩, htwo, ?_⟩
  rintro ⟨viewchange, hsent, -, hprepares⟩
  have hempty : preparedNode.broadcastViewchange .transparent [1] =
      some (.continueExecute [.broadcast (.message ⟨.viewChange (plainViewchange 1 [1])⟩)]) := rfl
  have hsame : viewchange = plainViewchange 1 [1] := by
    have hboth := hsent.symm.trans hempty
    simpa using hboth
  obtain ⟨msg, hmsg⟩ := List.exists_mem_of_length_pos (htwo ▸ Nat.zero_lt_two)
  have hcarried := hprepares msg hmsg
  rw [hsame] at hcarried
  cases hcarried

end BFTDiagnosis.Pbft
