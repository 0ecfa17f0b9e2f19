import BFTDiagnosis.PbftExecutor.CheckpointNumbers

/-!
# The standalone executor stays in its first view

No handler assigns the sequence number, the primary flag or the map from requests to their numbers, and no NewView
is ever accepted. So the node numbers all its proposals one, never announces a view, frees no message when a
checkpoint becomes stable, and cannot prove that a request of its has been prepared: with a request waiting, the
change of view panics.
-/

namespace BFTDiagnosis.PbftExecutor

open Word
open Pbft (PrePrepare Prepare Commit CheckPoint PublicKey ProofMessages LogPhaseState)

/-- The fields that keep their first values. -/
structure Settled (n : Node) : Prop where
  view : n.state.view = 0
  sequenceNumber : n.state.currentSequenceNumber = 0
  notPrimary : n.state.isPrimary = false
  requestMap : n.log.requestMap = ∅

/-- What is sent in the first view: ViewChanges ask for view one and prove nothing. -/
def FirstView : MessageType → Prop
  | .prePrepare msg => msg.view = 0 ∧ msg.number = 1
  | .prepare msg => msg.view = 0
  | .commit msg => msg.view = 0
  | .reply msg => msg.view = 0
  | .viewChange msg => msg.newView = 1 ∧ msg.proofMessages.preprepares = [] ∧ msg.proofMessages.prepares = []
  | .newView _ => False
  | _ => True

def MessageType.isViewChange : MessageType → Bool
  | .viewChange _ => true
  | _ => false

/-- The number that an event proposes. -/
def Event.proposal : Event → Option UInt64
  | .message (.prePrepare msg) => some msg.number
  | _ => none

/-- What one call of a settled node does, when the event proposes the given number. -/
structure Turn (proposal : Option UInt64) (n n' : Node) (out : List MessageType) : Prop where
  settled : Settled n'
  faultToleranceCount : n'.state.faultToleranceCount = n.state.faultToleranceCount
  /-- Nothing is dropped from the messages. -/
  messages : ∀ key, n.log.messages.listAt key <+: n'.log.messages.listAt key
  /-- The first request of a number stays. -/
  requests : ∀ number m, n.log.requests.lookup number = some m → n'.log.requests.lookup number = some m
  /-- Requests get the number one here, or the number they are proposed with. -/
  numbers : ∀ number ∈ n'.log.requests, number ∈ n.log.requests ∨ number = 1 ∨ proposal = some number
  mode : n.state.mode = .abnormal → n'.state.mode = .abnormal
  sent : ∀ msg ∈ out, FirstView msg
  /-- A change of view is asked for only while no request waits, and the node is abnormal from then on. -/
  viewChange : ∀ msg ∈ out, msg.isViewChange = true → n.log.currentRequests = [] ∧ n'.state.mode = .abnormal

variable {X : Externals} {me keypair : Bytes} {f : UInt64} {db : HashMap ℕ Bytes} {n n' : Node}
  {out : List MessageType} {proposal : Option UInt64}

theorem Settled.new : Settled (Node.new f db keypair) := ⟨rfl, rfl, rfl, rfl⟩

/-! ## The log -/

theorem prefix_listAt_pushAt (m : HashMap String (List MessageType)) (key other : String) (msg : MessageType) :
    m.listAt other <+: (m.pushAt key msg).listAt other := by
  by_cases hkey : other = key
  · subst hkey
    rw [HashMap.listAt_pushAt_self]
    exact List.prefix_append _ _
  · rw [HashMap.listAt_pushAt_of_ne _ _ hkey]

theorem lookup_recordRequest {log : NodeLog} {number other : UInt64} {request m : Request}
    (h : log.requests.lookup other = some m) : (log.recordRequest number request).requests.lookup other = some m := by
  unfold NodeLog.recordRequest
  split
  case isTrue => exact h
  case isFalse hnew =>
    have hne : other ≠ number := by
      rintro rfl
      exact hnew (Finmap.mem_of_lookup_eq_some h)
    exact (Finmap.lookup_insert_of_ne _ hne).trans h

theorem mem_recordRequest {log : NodeLog} {number other : UInt64} {request : Request}
    (h : other ∈ (log.recordRequest number request).requests) : other ∈ log.requests ∨ other = number := by
  unfold NodeLog.recordRequest at h
  split at h
  · exact .inl h
  · exact (Finmap.mem_insert.1 h).symm

/-- With an empty map no request can be found, so there is a proof only when no request waits. -/
theorem getProofMessages_of_settled (h : n.log.requestMap = ∅) :
    n.log.getProofMessages X = if n.log.currentRequests = [] then some ⟨[], []⟩ else none := by
  unfold NodeLog.getProofMessages
  cases hcurrent : n.log.currentRequests with
  | nil => rfl
  | cons hash rest =>
    have hunknown : n.log.getPreprepareMessagesByRequestHash X hash = none := by
      rw [NodeLog.getPreprepareMessagesByRequestHash, h, Finmap.lookup_empty]
      rfl
    rw [List.mapM_cons, hunknown]
    rfl

/-- With an empty map a stable checkpoint frees no message. -/
theorem listAt_discard (log : NodeLog) (h : log.requestMap = ∅) (stable : UInt64) (key : String) :
    (log.discardMessagesBeforeStableCheckpoint X stable).messages.listAt key = log.messages.listAt key := by
  have hnone : log.discardedKeys X stable = 0 := by
    rw [NodeLog.discardedKeys, h]
    rfl
  rw [NodeLog.discardMessagesBeforeStableCheckpoint, hnone, HashMap.listAt, HashMap.lookup_retain, HashMap.listAt]
  rfl

/-! ## One call -/

theorem Turn.refl (h : Settled n) : Turn proposal n n [] where
  settled := h
  faultToleranceCount := rfl
  messages _ := List.prefix_rfl
  requests _ _ h := h
  numbers _ h := .inl h
  mode h := h
  sent := List.forall_mem_nil _
  viewChange := List.forall_mem_nil _

/-- A handler that returns early. -/
theorem Turn.of_return (hn : Settled n) (h : some (n, []) = some (n', out)) : Turn proposal n n' out := by
  obtain ⟨rfl, rfl⟩ := Prod.mk.inj (Option.some.inj h)
  exact .refl hn

/-- A handler that ends with one message, which is no ViewChange, and has written to the messages at most. -/
theorem Turn.of_recorded (hn : Settled n) {log : NodeLog} (hmap : log.requestMap = n.log.requestMap)
    (hrequests : ∀ number m, n.log.requests.lookup number = some m → log.requests.lookup number = some m)
    (hmessages : ∀ key, n.log.messages.listAt key <+: log.messages.listAt key)
    (hnumbers : ∀ number ∈ log.requests, number ∈ n.log.requests ∨ number = 1 ∨ proposal = some number)
    (hsent : ∀ msg ∈ out, FirstView msg ∧ msg.isViewChange = false) : Turn proposal n { n with log := log } out where
  settled := ⟨hn.view, hn.sequenceNumber, hn.notPrimary, hmap.trans hn.requestMap⟩
  faultToleranceCount := rfl
  messages := hmessages
  requests := hrequests
  numbers := hnumbers
  mode h := h
  sent msg hmsg := (hsent msg hmsg).1
  viewChange msg hmsg hview := absurd ((hsent msg hmsg).2.symm.trans hview) Bool.false_ne_true

theorem handleRequest_turn {request : Request} (hn : Settled n)
    (h : n.handleRequest X me request = some (n', out)) : Turn proposal n n' out := by
  obtain ⟨number, hnumber, h⟩ := Option.bind_eq_some_iff.1 h
  obtain ⟨rfl, rfl⟩ := Prod.mk.inj (Option.some.inj h)
  have hone : number = 1 := by
    rw [hn.sequenceNumber] at hnumber
    exact (Option.some.inj hnumber).symm
  refine .of_recorded hn ?_ (fun _ _ ↦ lookup_recordRequest) ?_ (fun _ h ↦ ?_)
    (List.forall_mem_singleton.2 ⟨⟨hn.view, hone⟩, rfl⟩)
  · unfold NodeLog.recordRequest
    split <;> rfl
  · intro key
    unfold NodeLog.recordRequest
    split <;> exact List.prefix_rfl
  · exact (mem_recordRequest h).imp_right fun hnew ↦ .inl (hnew.trans hone)

theorem handlePreprepare_turn {msg : PrePrepare} (hn : Settled n)
    (h : n.handlePreprepare X me msg = some (n', out)) : Turn (some msg.number) n n' out := by
  obtain ⟨signed, -, h⟩ := Option.bind_eq_some_iff.1 h
  split at h
  · exact .of_return hn h
  obtain ⟨inWindow, -, h⟩ := Option.bind_eq_some_iff.1 h
  split at h
  · exact .of_return hn h
  split at h
  · exact .of_return hn h
  obtain ⟨m, -, h⟩ := Option.bind_eq_some_iff.1 h
  obtain ⟨rfl, rfl⟩ := Prod.mk.inj (Option.some.inj h)
  refine .of_recorded hn ?_ (fun _ _ ↦ lookup_recordRequest) ?_ (fun _ h ↦ ?_)
    (List.forall_mem_singleton.2 ⟨hn.view, rfl⟩)
  · dsimp only [NodeLog.recordCurrentRequest, NodeLog.recordMessageHandler, NodeLog.recordKeyed]
    unfold NodeLog.recordRequest
    split <;> rfl
  · intro key
    refine List.IsPrefix.trans ?_ (prefix_listAt_pushAt _ _ key _)
    unfold NodeLog.recordRequest
    split <;> exact List.prefix_rfl
  · exact (mem_recordRequest h).imp_right fun hnew ↦ .inr (congrArg some hnew.symm)

theorem handlePrepare_turn {msg : Prepare} (hn : Settled n) (h : n.handlePrepare X me msg = some (n', out)) :
    Turn proposal n n' out := by
  obtain ⟨checked, -, h⟩ := Option.bind_eq_some_iff.1 h
  split at h
  · exact .of_return hn h
  split at h
  · exact .of_return hn h
  obtain ⟨threshold, -, h⟩ := Option.bind_eq_some_iff.1 h
  split at h
  · obtain ⟨rfl, rfl⟩ := Prod.mk.inj (Option.some.inj h)
    exact .of_recorded hn rfl (fun _ _ h ↦ h) (fun key ↦ prefix_listAt_pushAt _ _ key _)
      (fun _ h ↦ .inl h)
      (List.forall_mem_singleton.2 ⟨hn.view, rfl⟩)
  · obtain ⟨rfl, rfl⟩ := Prod.mk.inj (Option.some.inj h)
    exact .of_recorded hn rfl (fun _ _ h ↦ h) (fun key ↦ prefix_listAt_pushAt _ _ key _)
      (fun _ h ↦ .inl h) (List.forall_mem_nil _)

theorem handleReply_turn {msg : Reply} (hn : Settled n) (h : n.handleReply X msg = some (n', out)) :
    Turn proposal n n' out := by
  unfold Node.handleReply at h
  split at h
  · exact .of_return hn h
  obtain ⟨signed, -, h⟩ := Option.bind_eq_some_iff.1 h
  split at h
  · exact .of_return hn h
  obtain ⟨threshold, -, h⟩ := Option.bind_eq_some_iff.1 h
  split at h
  · split at h
    · obtain ⟨rfl, rfl⟩ := Prod.mk.inj (Option.some.inj h)
      exact ⟨⟨hn.view, hn.sequenceNumber, hn.notPrimary, hn.requestMap⟩, rfl,
        fun key ↦ prefix_listAt_pushAt _ _ key _, fun _ _ h ↦ h, fun _ h ↦ .inl h, fun h ↦ h, List.forall_mem_nil _,
        List.forall_mem_nil _⟩
    · cases h
  · obtain ⟨rfl, rfl⟩ := Prod.mk.inj (Option.some.inj h)
    exact .of_recorded hn rfl (fun _ _ h ↦ h) (fun key ↦ prefix_listAt_pushAt _ _ key _)
      (fun _ h ↦ .inl h) (List.forall_mem_nil _)

theorem handleCheckpoint_turn {msg : CheckPoint} (hn : Settled n) (h : n.handleCheckpoint X msg = some (n', out)) :
    Turn proposal n n' out := by
  obtain ⟨threshold, -, h⟩ := Option.bind_eq_some_iff.1 h
  split at h
  · obtain ⟨rfl, rfl⟩ := Prod.mk.inj (Option.some.inj h)
    refine ⟨⟨hn.view, hn.sequenceNumber, hn.notPrimary, hn.requestMap⟩, rfl, fun key ↦ ?_, fun _ _ h ↦ h, fun _ h ↦ .inl h,
      fun h ↦ h, List.forall_mem_nil _, List.forall_mem_nil _⟩
    exact (listAt_discard (n.log.recordMessageHandler X (.checkPoint msg)) hn.requestMap _ key).symm ▸ List.prefix_rfl
  · obtain ⟨rfl, rfl⟩ := Prod.mk.inj (Option.some.inj h)
    exact .of_recorded hn rfl (fun _ _ h ↦ h) (fun _ ↦ List.prefix_rfl) (fun _ h ↦ .inl h) (List.forall_mem_nil _)

theorem broadcastViewchange_turn (hn : Settled n) (h : n.broadcastViewchange X me = some (n', out)) :
    Turn proposal n n' out := by
  unfold Node.broadcastViewchange at h
  split at h
  · exact .of_return hn h
  obtain ⟨threshold, -, h⟩ := Option.bind_eq_some_iff.1 h
  obtain ⟨proofMessages, hproof, h⟩ := Option.bind_eq_some_iff.1 h
  obtain ⟨newView, hnewView, h⟩ := Option.bind_eq_some_iff.1 h
  obtain ⟨rfl, rfl⟩ := Prod.mk.inj (Option.some.inj h)
  rw [getProofMessages_of_settled hn.requestMap] at hproof
  split at hproof
  case isTrue hwaiting =>
    obtain rfl := Option.some.inj hproof
    have hone : newView = 1 := by
      rw [hn.view] at hnewView
      exact (Option.some.inj hnewView).symm
    exact ⟨⟨hn.view, hn.sequenceNumber, hn.notPrimary, hn.requestMap⟩, rfl, fun _ ↦ List.prefix_rfl,
      fun _ _ h ↦ h, fun _ h ↦ .inl h, fun _ ↦ rfl, List.forall_mem_singleton.2 ⟨hone, rfl, rfl⟩,
      List.forall_mem_singleton.2 fun _ ↦ ⟨hwaiting, rfl⟩⟩
  case isFalse => cases hproof

theorem Turn.of_viewchanges {viewchanges : HashMap UInt64 (List (ViewChange MessageType))}
    (h : Turn proposal { n with log := { n.log with viewchanges := viewchanges } } n' out) : Turn proposal n n' out :=
  ⟨h.settled, h.faultToleranceCount, h.messages, h.requests, h.numbers, h.mode, h.sent, h.viewChange⟩

/-- Only a primary announces a view. -/
theorem newviewQuorum_of_settled (h : Settled n) (msgCount : ℕ) : n.newviewQuorum msgCount = some false := by
  unfold Node.newviewQuorum
  rw [h.notPrimary]
  exact if_neg Bool.false_ne_true

theorem Settled.recordViewchange (hn : Settled n) (msg : ViewChange MessageType) :
    Settled { n with log := n.log.recordMessageHandler X (.viewChange msg) } :=
  ⟨hn.view, hn.sequenceNumber, hn.notPrimary, hn.requestMap⟩

theorem handleViewchange_turn {msg : ViewChange MessageType} (hn : Settled n)
    (h : n.handleViewchange X me msg = some (n', out)) : Turn proposal n n' out := by
  unfold Node.handleViewchange at h
  split at h
  · exact .of_return hn h
  dsimp only at h
  split at h
  · exact .of_viewchanges (broadcastViewchange_turn (hn.recordViewchange (X := X) msg) h)
  rw [newviewQuorum_of_settled (hn.recordViewchange (X := X) msg)] at h
  exact .of_viewchanges (.of_return (hn.recordViewchange (X := X) msg) h)

theorem handleNewview_turn {msg : NewView MessageType} (hn : Settled n)
    (h : n.handleNewview X me msg = some (n', out)) : Turn proposal n n' out := by
  obtain ⟨valid, hvalid, h⟩ := Option.bind_eq_some_iff.1 h
  cases valid with
  | true => exact absurd hvalid (verifyNewview_ne_true _ msg)
  | false => exact .of_return hn h

theorem storagePublicKeyByPeerId_turn {key : PublicKey} (hn : Settled n)
    (h : n.storagePublicKeyByPeerId X key = some (n', out)) : Turn proposal n n' out := by
  obtain ⟨entry, -, h⟩ := Option.bind_eq_some_iff.1 h
  obtain ⟨peer, -, h⟩ := Option.bind_eq_some_iff.1 h
  obtain ⟨rfl, rfl⟩ := Prod.mk.inj (Option.some.inj h)
  exact ⟨⟨hn.view, hn.sequenceNumber, hn.notPrimary, hn.requestMap⟩, rfl, fun _ ↦ List.prefix_rfl, fun _ _ h ↦ h, fun _ h ↦ .inl h,
    fun h ↦ h, List.forall_mem_nil _, List.forall_mem_nil _⟩

theorem dueCheckpoints_firstView {due : List MessageType} (h : n.dueCheckpoints me = some due) :
    ∀ msg ∈ due, FirstView msg ∧ msg.isViewChange = false := by
  unfold Node.dueCheckpoints at h
  dsimp only at h
  split at h
  · obtain ⟨checkpoint, -, rfl⟩ := Option.map_eq_some_iff.1 h
    exact List.forall_mem_singleton.2 ⟨trivial, rfl⟩
  · obtain rfl := Option.some.inj h
    exact List.forall_mem_nil _

theorem completeCommit_turn {msg : Commit} {m : Request} (hn : Settled n)
    (h : n.completeCommit X me msg m = some (n', out)) : Turn proposal n n' out := by
  obtain ⟨count, -, h⟩ := Option.bind_eq_some_iff.1 h
  obtain ⟨due, hdue, h⟩ := Option.bind_eq_some_iff.1 h
  obtain ⟨rfl, rfl⟩ := Prod.mk.inj (Option.some.inj h)
  have hsent : ∀ sent ∈ due ++ [.reply (Node.signedReply X { n with
      state := { n.state.updateCheckpointState X msg.mHash with currentCommitedRequestCount := count }
      log := n.log.removeCommitedRequest } me msg m)], FirstView sent ∧ sent.isViewChange = false :=
    List.forall_mem_append.2 ⟨dueCheckpoints_firstView hdue, List.forall_mem_singleton.2 ⟨hn.view, rfl⟩⟩
  exact ⟨⟨hn.view, hn.sequenceNumber, hn.notPrimary, hn.requestMap⟩, rfl, fun _ ↦ List.prefix_rfl, fun _ _ h ↦ h, fun _ h ↦ .inl h,
    fun h ↦ h, fun sent hmem ↦ (hsent sent hmem).1,
    fun sent hmem hview ↦ absurd ((hsent sent hmem).2.symm.trans hview) Bool.false_ne_true⟩

theorem handleCommit_turn {msg : Commit} (hn : Settled n) (h : n.handleCommit X me msg = some (n', out)) :
    Turn proposal n n' out := by
  have hrecorded : Settled { n with log := n.log.recordMessageHandler X (.commit msg) } :=
    ⟨hn.view, hn.sequenceNumber, hn.notPrimary, hn.requestMap⟩
  obtain ⟨checked, -, h⟩ := Option.bind_eq_some_iff.1 h
  split at h
  · exact .of_return hn h
  split at h
  · exact .of_return hn h
  case h_2 m _ =>
    obtain ⟨threshold, -, h⟩ := Option.bind_eq_some_iff.1 h
    dsimp only at h
    have hturn : Turn proposal { n with log := n.log.recordMessageHandler X (.commit msg) } n' out := by
      split at h
      · exact completeCommit_turn hrecorded h
      · exact .of_return hrecorded h
    exact ⟨hturn.settled, hturn.faultToleranceCount,
      fun key ↦ (prefix_listAt_pushAt _ _ key _).trans (hturn.messages key), hturn.requests, hturn.numbers, hturn.mode, hturn.sent,
      hturn.viewChange⟩

theorem messageHandler_turn {msg : MessageType} (hn : Settled n) (h : n.messageHandler X me msg = some (n', out)) :
    Turn (Event.message msg).proposal n n' out := by
  unfold Node.messageHandler at h
  split at h
  · cases msg with
    | request m => exact handleRequest_turn hn h
    | prePrepare m => exact handlePreprepare_turn hn h
    | prepare m => exact handlePrepare_turn hn h
    | commit m => exact handleCommit_turn hn h
    | reply m => exact handleReply_turn hn h
    | checkPoint m => exact handleCheckpoint_turn hn h
    | viewChange m => exact handleViewchange_turn hn h
    | newView m => exact handleNewview_turn hn h
    | publicKey m => exact storagePublicKeyByPeerId_turn hn h
    | distributePK =>
      obtain ⟨rfl, rfl⟩ := Prod.mk.inj (Option.some.inj h)
      exact .of_recorded hn rfl (fun _ _ h ↦ h) (fun _ ↦ List.prefix_rfl) (fun _ h ↦ .inl h)
        (List.forall_mem_singleton.2 ⟨trivial, rfl⟩)
  · cases msg with
    | checkPoint m => exact handleCheckpoint_turn hn h
    | viewChange m => exact handleViewchange_turn hn h
    | newView m => exact handleNewview_turn hn h
    | request m | prePrepare m | prepare m | commit m | reply m | publicKey m | distributePK =>
      exact .of_return hn h

theorem step_turn {event : Event} (hn : Settled n) (h : step X me n event = some (n', out)) :
    Turn event.proposal n n' out := by
  cases event with
  | message msg => exact messageHandler_turn hn h
  | viewchangeNotified => exact broadcastViewchange_turn hn h

/-- Nothing is sent any more once the mode is abnormal. -/
theorem step_silent {event : Event} (hn : Settled n) (hmode : n.state.mode = .abnormal)
    (h : step X me n event = some (n', out)) : out = [] := by
  have hempty {n₀ : Node} (h : some (n₀, []) = some (n', out)) : out = [] :=
    (congrArg Prod.snd (Option.some.inj h)).symm
  cases event with
  | viewchangeNotified => exact hempty ((if_pos hmode).symm.trans h)
  | message msg =>
    change n.messageHandler X me msg = some (n', out) at h
    unfold Node.messageHandler at h
    rw [hmode] at h
    cases msg with
    | checkPoint m =>
      obtain ⟨threshold, -, h⟩ := Option.bind_eq_some_iff.1 h
      split at h <;> exact hempty h
    | viewChange m =>
      dsimp only [Node.handleViewchange] at h
      split at h
      · exact hempty h
      split at h
      case isTrue hquorum => exact nomatch hmode.symm.trans hquorum.2
      rw [newviewQuorum_of_settled (hn.recordViewchange (X := X) m)] at h
      exact hempty h
    | newView m =>
      obtain ⟨valid, hvalid, h⟩ := Option.bind_eq_some_iff.1 h
      cases valid with
      | true => exact absurd hvalid (verifyNewview_ne_true _ m)
      | false => exact hempty h
    | request m | prePrepare m | prepare m | commit m | reply m | publicKey m | distributePK => exact hempty h

/-! ## Runs -/

section Runs

variable {run : ExecutorRun}

/-- Every call of a run is one of a settled node. -/
theorem settled_of_isRun (h : IsRun (step X me) (Node.new f db keypair) run n) :
    Settled n ∧ ∀ t ∈ run, Settled t.pre := by
  have hstep (t : Transition Node Event (List MessageType)) (ht : Settled t.pre) (_ : True)
      (taken : step X me t.pre t.event = some (t.post, t.out)) : Settled t.post := (step_turn ht taken).settled
  exact ⟨h.invariant_of_forall Settled .new hstep fun _ _ ↦ trivial,
    h.invariant_pre_of_forall Settled .new hstep fun _ _ ↦ trivial⟩

theorem turn_of_isRun (h : IsRun (step X me) (Node.new f db keypair) run n) :
    ∀ t ∈ run, Turn t.event.proposal t.pre t.post t.out :=
  fun t ht ↦ step_turn ((settled_of_isRun h).2 t ht) (h.taken t ht)

theorem faultToleranceCount_of_isRun (h : IsRun (step X me) (Node.new f db keypair) run n) :
    n.state.faultToleranceCount = f := by
  have hrelated := h.related_of_forall (fun n n' : Node ↦ n'.state.faultToleranceCount = n.state.faultToleranceCount)
    (fun _ ↦ rfl) (fun _ _ _ hfirst hlast ↦ hlast.trans hfirst) fun t ht ↦ (turn_of_isRun h t ht).faultToleranceCount
  exact hrelated.1

theorem silent_of_isRun (hn : Settled n) (hmode : n.state.mode = .abnormal) (h : IsRun (step X me) n run n') :
    ∀ t ∈ run, t.out = [] := by
  intro t ht
  have hstep : ∀ t : Transition Node Event (List MessageType), Settled t.pre ∧ t.pre.state.mode = .abnormal → True →
      step X me t.pre t.event = some (t.post, t.out) → Settled t.post ∧ t.post.state.mode = .abnormal :=
    fun t hinv _ taken ↦ ⟨(step_turn hinv.1 taken).settled, (step_turn hinv.1 taken).mode hinv.2⟩
  have hpre := h.invariant_pre_of_forall (fun n ↦ Settled n ∧ n.state.mode = .abnormal) ⟨hn, hmode⟩ hstep
    (fun _ _ ↦ trivial) t ht
  exact step_silent hpre.1 hpre.2 (h.taken t ht)

/-- In every run the node stays in view zero, and from its first ViewChange on, which it sends while no request
waits, it sends nothing any more. -/
theorem first_view_of_isRun (h : IsRun (step X me) (Node.new f db keypair) run n) :
    n.state.view = 0 ∧ (∀ t ∈ run, ∀ msg ∈ t.out, FirstView msg) ∧
      ∀ before t after, run = before ++ t :: after → ∀ msg ∈ t.out, msg.isViewChange = true →
        t.pre.log.currentRequests = [] ∧ ∀ t' ∈ after, t'.out = [] := by
  refine ⟨(settled_of_isRun h).1.view, fun t ht ↦ (turn_of_isRun h t ht).sent, ?_⟩
  intro before t after hsplit msg hmsg hview
  have hmem : t ∈ run := hsplit ▸ List.mem_append_right _ List.mem_cons_self
  have hturn := turn_of_isRun h t hmem
  obtain ⟨hwaiting, hmode⟩ := hturn.viewChange msg hmsg hview
  exact ⟨hwaiting, silent_of_isRun hturn.settled hmode (h.after hsplit)⟩

/-- A node without keys that is asked to change the view between two requests. -/
def askedRun : ExecutorRun :=
  transitions (step .transparent [3]) (Node.new 1 ∅ [13])
    [.message (.request (clientRequest 1)), .viewchangeNotified, .message (.request (clientRequest 2))]

def askedNode : Node :=
  final (step .transparent [3]) (Node.new 1 ∅ [13])
    [.message (.request (clientRequest 1)), .viewchangeNotified, .message (.request (clientRequest 2))]

theorem first_view_of_asked : askedNode.state.view = 0 ∧ (∀ t ∈ askedRun, ∀ msg ∈ t.out, FirstView msg) ∧
    ∀ before t after, askedRun = before ++ t :: after → ∀ msg ∈ t.out, msg.isViewChange = true →
      t.pre.log.currentRequests = [] ∧ ∀ t' ∈ after, t'.out = [] := by
  have hrun : IsRun (step .transparent [3]) (Node.new 1 ∅ [13]) askedRun askedNode :=
    IsRun.of_isSome (by decide +kernel)
  exact first_view_of_isRun hrun

/-- A node whose view timer fires panics exactly when one of its requests is waiting, or its quorum overflows. -/
theorem viewchangeNotified_panics_iff (h : IsRun (step X me) (Node.new f db keypair) run n)
    (hmode : n.state.mode = .normal) :
    step X me n .viewchangeNotified = none ↔ n.log.currentRequests ≠ [] ∨ 2 ^ 64 ≤ 2 * f.toNat := by
  have hsettled := (settled_of_isRun h).1
  have hquorum : checkedMul 2 n.state.faultToleranceCount = none ↔ 2 ^ 64 ≤ 2 * f.toNat := by
    rw [faultToleranceCount_of_isRun h, ← Option.not_isSome_iff_eq_none, isSome_checkedMul]
    exact Nat.not_lt
  have hview : ∃ newView, checkedAdd n.state.view 1 = some newView := by
    rw [hsettled.view]
    exact ⟨1, rfl⟩
  obtain ⟨newView, hnewView⟩ := hview
  have hnormal : ¬ n.state.mode = .abnormal := by rw [hmode]; decide
  rw [← hquorum, step, Node.broadcastViewchange, if_neg hnormal, getProofMessages_of_settled hsettled.requestMap]
  cases hthreshold : checkedMul 2 n.state.faultToleranceCount with
  | none => exact iff_of_true rfl (.inr rfl)
  | some threshold =>
    by_cases hwaiting : n.log.currentRequests = []
    · rw [if_pos hwaiting, hnewView]
      refine iff_of_false (Option.some_ne_none _) ?_
      rintro (hsome | hnone)
      · exact hsome hwaiting
      · exact Option.some_ne_none threshold hnone
    · rw [if_neg hwaiting]
      exact iff_of_true rfl (.inl hwaiting)

def waitingRun : ExecutorRun :=
  transitions (step .transparent [3]) (Node.new 1 peerKeys [13]) [.message (.prePrepare (clientPreprepare 1))]

/-- A node that has accepted a PrePrepare. -/
def waitingNode : Node :=
  final (step .transparent [3]) (Node.new 1 peerKeys [13]) [.message (.prePrepare (clientPreprepare 1))]

theorem isRun_waitingRun : IsRun (step .transparent [3]) (Node.new 1 peerKeys [13]) waitingRun waitingNode :=
  .of_isSome (by decide +kernel)

theorem viewchangeNotified_panics_of_waiting : step .transparent [3] waitingNode .viewchangeNotified = none := by
  have hwaiting : waitingNode.log.currentRequests ≠ [] := by decide +kernel
  exact (viewchangeNotified_panics_iff isRun_waitingRun (by decide +kernel)).2 (.inl hwaiting)

/-- What is logged at any point of a run is still there at its end, whatever checkpoints have become stable. -/
theorem messages_prefix_of_isRun (h : IsRun (step X me) (Node.new f db keypair) run n) :
    ∀ before t after, run = before ++ t :: after → ∀ key,
      t.pre.log.messages.listAt key <+: n.log.messages.listAt key := by
  intro before t after hsplit key
  have hmem : t ∈ run := hsplit ▸ List.mem_append_right _ List.mem_cons_self
  have hlater := (h.after hsplit).related_of_forall
    (fun n n' : Node ↦ n.log.messages.listAt key <+: n'.log.messages.listAt key) (fun _ ↦ List.prefix_rfl)
    (fun _ _ _ hfirst hlast ↦ hfirst.trans hlast) fun t' ht' ↦
      (turn_of_isRun h t' (hsplit ▸ List.mem_append_right _ (List.mem_cons_of_mem _ ht'))).messages key
  exact ((turn_of_isRun h t hmem).messages key).trans hlater.1

/-- A CheckPoint for the first number. -/
def firstCheckpoint (peer : UInt8) : CheckPoint :=
  { currentMaxNumber := 1, checkpointStateDigest := "d", fromPeerId := [peer], signature := "" }

/-- The first request and its votes, a checkpoint over them that becomes stable, and the second request. -/
def votedEvents : List Event :=
  [.message (.prePrepare (clientPreprepare 1)), .message (.commit (clientCommit 1 11 1)),
    .message (.commit (clientCommit 2 12 1)), .message (.checkPoint (firstCheckpoint 1)),
    .message (.checkPoint (firstCheckpoint 2)), .message (.prePrepare (clientPreprepare 2)),
    .message (.commit (clientCommit 1 11 2))]

def votedRun : ExecutorRun := transitions (step .transparent [3]) (Node.new 1 peerKeys [13]) votedEvents

def votedNode : Node := final (step .transparent [3]) (Node.new 1 peerKeys [13]) votedEvents

theorem messages_prefix_of_voted :
    (∃ t ∈ votedRun, (t.pre.log.messages.listAt (clientCommitKey 1)).length = 2 ∧
      t.pre.state.stableCheckpoint.1 = 0 ∧ t.post.state.stableCheckpoint.1 = 1) ∧
      (votedNode.log.messages.listAt (clientCommitKey 1)).length = 2 ∧
      (votedNode.log.messages.listAt (clientCommitKey 2)).length = 1 ∧
      ∀ before t after, votedRun = before ++ t :: after → ∀ key,
        t.pre.log.messages.listAt key <+: votedNode.log.messages.listAt key := by
  have hrun : IsRun (step .transparent [3]) (Node.new 1 peerKeys [13]) votedRun votedNode :=
    IsRun.of_isSome (by decide +kernel)
  exact ⟨by decide +kernel, by decide +kernel, by decide +kernel, messages_prefix_of_isRun hrun⟩

end Runs

end BFTDiagnosis.PbftExecutor
