import BFTDiagnosis.HotstuffNode.EventLoop
import BFTDiagnosis.Lib.Channel
import BFTDiagnosis.Lib.Simulation

/-!
# From the executor to the network

The loop of the node changes the mode and the permits of its executor, and the calls of the executor read neither.
So what a run of the node makes of its executor is a run of the executor alone on the calls of the loop, and what
leaves the channel is what the executor has sent, in the order in which it was sent.
-/

namespace BFTDiagnosis.HotstuffNode

open Components Utils Word Hotstuff BasicHotstuff

namespace Executor

variable {X : BasicHotstuff.Externals} {e e' : Executor} {me : Bytes} {sent : List MessageType}

/-- The executor with another mode and other permits. -/
def retag (e : Executor) (mode : Mode) (consensusNotify viewTimeoutNotify : Bool) : Executor :=
  { e with
    state := { e.state with mode := mode }
    consensusNotify := consensusNotify
    viewTimeoutNotify := viewTimeoutNotify }

/-- Two executors that differ in the mode and the permits only. -/
def SameProtocol (e e' : Executor) : Prop := ∃ mode notify timeout, e' = e.retag mode notify timeout

/-- A call that neither reads the mode nor reads or writes the permits, and writes the mode by a function of it. -/
structure Retags {α : Type} (change : Mode → Mode) (f : Executor → Option (Executor × α)) (e e' : Executor) (out : α) :
    Prop where
  same : ∀ mode notify timeout, f (e.retag mode notify timeout) = some (e'.retag (change mode) notify timeout, out)
  mode : e'.state.mode = change e.state.mode
  consensusNotify : e'.consensusNotify = e.consensusNotify
  viewTimeoutNotify : e'.viewTimeoutNotify = e.viewTimeoutNotify

theorem changeLeader_retag {viewNum : UInt64} {next : Executor} (h : e.changeLeader viewNum = some next) :
    (∃ primary, next = { e with state := { e.state with primary := primary } }) ∧
      ∀ mode notify timeout, (e.retag mode notify timeout).changeLeader viewNum =
        some (next.retag mode notify timeout) := by
  simp only [changeLeader, bind, pure] at h
  split at h
  case isTrue => cases h
  case isFalse hcount =>
    obtain ⟨primary, hprimary, h⟩ := Option.bind_eq_some_iff.1 h
    obtain rfl := Option.some.inj h
    refine ⟨⟨primary, rfl⟩, fun mode notify timeout ↦ ?_⟩
    exact (if_neg hcount).trans (Option.bind_eq_some_iff.2 ⟨primary, hprimary, rfl⟩)

theorem retags_newview (h : e.newview X me = some (e', sent)) : Retags id (newview X · me) e e' sent := by
  obtain ⟨nextView, hview, h⟩ := Option.bind_eq_some_iff.1 h
  obtain ⟨next, hnext, h⟩ := Option.bind_eq_some_iff.1 h
  obtain ⟨leader, hleader, h⟩ := Option.bind_eq_some_iff.1 h
  obtain ⟨rfl, rfl⟩ := Prod.mk.inj (Option.some.inj h)
  obtain ⟨⟨primary, hprimary⟩, hretag⟩ := changeLeader_retag hnext
  refine ⟨fun mode notify timeout ↦ ?_, by rw [hprimary]; rfl, by rw [hprimary], by rw [hprimary]⟩
  exact Option.bind_eq_some_iff.2 ⟨nextView, hview, Option.bind_eq_some_iff.2
    ⟨next.retag mode notify timeout, hretag mode notify timeout, Option.bind_eq_some_iff.2 ⟨leader, hleader, rfl⟩⟩⟩

theorem retags_collectVote {phase : Phase} {vote : Vote} {qc : Option QC}
    (h : e.collectVote X phase vote = some (e', qc)) : Retags id (collectVote X · phase vote) e e' qc := by
  obtain ⟨pkInfo, hpk, h⟩ := Option.bind_eq_some_iff.1 h
  split at h
  case isTrue hinvalid =>
    obtain ⟨rfl, rfl⟩ := Prod.mk.inj (Option.some.inj h)
    exact ⟨fun _ _ _ ↦ Option.bind_eq_some_iff.2 ⟨pkInfo, hpk, if_pos hinvalid⟩, rfl, rfl, rfl⟩
  case isFalse hvalid =>
    obtain ⟨threshold, hthreshold, h⟩ := Option.bind_eq_some_iff.1 h
    split at h
    case isTrue hcount =>
      obtain ⟨rfl, rfl⟩ := Prod.mk.inj (Option.some.inj h)
      refine ⟨fun _ _ _ ↦ Option.bind_eq_some_iff.2 ⟨pkInfo, hpk, (if_neg hvalid).trans ?_⟩, rfl, rfl, rfl⟩
      exact Option.bind_eq_some_iff.2 ⟨threshold, hthreshold, if_pos hcount⟩
    case isFalse hcount =>
      obtain ⟨shares, hshares, h⟩ := Option.bind_eq_some_iff.1 h
      obtain ⟨keypair, hkeypair, h⟩ := Option.bind_eq_some_iff.1 h
      obtain ⟨signature, hsignature, h⟩ := Option.bind_eq_some_iff.1 h
      obtain ⟨rfl, rfl⟩ := Prod.mk.inj (Option.some.inj h)
      refine ⟨fun _ _ _ ↦ Option.bind_eq_some_iff.2 ⟨pkInfo, hpk, (if_neg hvalid).trans ?_⟩, rfl, rfl, rfl⟩
      refine Option.bind_eq_some_iff.2 ⟨threshold, hthreshold, (if_neg hcount).trans ?_⟩
      exact Option.bind_eq_some_iff.2 ⟨shares, hshares, Option.bind_eq_some_iff.2 ⟨keypair, hkeypair,
        Option.bind_eq_some_iff.2 ⟨signature, hsignature, rfl⟩⟩⟩

theorem retags_handleNewview {msg : NewView} (h : e.handleNewview msg = some (e', sent)) :
    ∃ change, (change = id ∨ change = Mode.proposing) ∧ Retags change (handleNewview · msg) e e' sent := by
  obtain ⟨threshold, hthreshold, h⟩ := Option.bind_eq_some_iff.1 h
  split at h
  case isTrue hcount =>
    obtain ⟨highQC, hhigh, h⟩ := Option.bind_eq_some_iff.1 h
    obtain ⟨rfl, rfl⟩ := Prod.mk.inj (Option.some.inj h)
    refine ⟨Mode.proposing, .inr rfl, fun mode notify timeout ↦ ?_, rfl, rfl, rfl⟩
    exact Option.bind_eq_some_iff.2 ⟨threshold, hthreshold, (if_pos hcount).trans
      (Option.bind_eq_some_iff.2 ⟨highQC, hhigh, rfl⟩)⟩
  case isFalse hcount =>
    obtain ⟨rfl, rfl⟩ := Prod.mk.inj (Option.some.inj h)
    refine ⟨id, .inl rfl, fun mode notify timeout ↦ ?_, rfl, rfl, rfl⟩
    exact Option.bind_eq_some_iff.2 ⟨threshold, hthreshold, if_neg hcount⟩

theorem retags_handlePrepare {msg : Prepare} (h : some (e.handlePrepare X msg me) = some (e', sent)) :
    Retags id (fun e ↦ some (e.handlePrepare X msg me)) e e' sent := by
  unfold handlePrepare at h
  split at h
  case isTrue hcheck =>
    obtain ⟨rfl, rfl⟩ := Prod.mk.inj (Option.some.inj h)
    exact ⟨fun _ _ _ ↦ congrArg some (if_pos hcheck), rfl, rfl, rfl⟩
  case isFalse hcheck =>
    obtain ⟨rfl, rfl⟩ := Prod.mk.inj (Option.some.inj h)
    exact ⟨fun _ _ _ ↦ congrArg some (if_neg hcheck), rfl, rfl, rfl⟩

theorem retags_handlePrecommit {msg : PreCommit} (h : e.handlePrecommit X msg me = some (e', sent)) :
    Retags id (handlePrecommit X · msg me) e e' sent := by
  obtain ⟨justify, hcheck, h⟩ := Option.bind_eq_some_iff.1 h
  cases justify <;>
  · obtain ⟨rfl, rfl⟩ := Prod.mk.inj (Option.some.inj h)
    exact ⟨fun _ _ _ ↦ Option.bind_eq_some_iff.2 ⟨_, hcheck, rfl⟩, rfl, rfl, rfl⟩

theorem retags_handleCommit {msg : Commit} (h : e.handleCommit X msg me = some (e', sent)) :
    Retags id (handleCommit X · msg me) e e' sent := by
  obtain ⟨justify, hcheck, h⟩ := Option.bind_eq_some_iff.1 h
  cases justify <;>
  · obtain ⟨rfl, rfl⟩ := Prod.mk.inj (Option.some.inj h)
    exact ⟨fun _ _ _ ↦ Option.bind_eq_some_iff.2 ⟨_, hcheck, rfl⟩, rfl, rfl, rfl⟩

theorem retags_handleDecide {msg : Decide} (h : e.handleDecide X msg me = some (e', sent)) :
    Retags id (handleDecide X · msg me) e e' sent := by
  obtain ⟨justify, hcheck, h⟩ := Option.bind_eq_some_iff.1 h
  cases justify with
  | none =>
    obtain ⟨rfl, rfl⟩ := Prod.mk.inj (Option.some.inj h)
    exact ⟨fun _ _ _ ↦ Option.bind_eq_some_iff.2 ⟨_, hcheck, rfl⟩, rfl, rfl, rfl⟩
  | some justify =>
    obtain ⟨⟨next, newviews⟩, hnew, h⟩ := Option.bind_eq_some_iff.1 h
    obtain ⟨rfl, rfl⟩ := Prod.mk.inj (Option.some.inj h)
    have hretags := retags_newview hnew
    refine ⟨fun mode notify timeout ↦ ?_, hretags.mode, hretags.consensusNotify, hretags.viewTimeoutNotify⟩
    exact Option.bind_eq_some_iff.2 ⟨_, hcheck, Option.bind_eq_some_iff.2 ⟨_, hretags.same mode notify timeout, rfl⟩⟩

theorem retags_handlePrepareVote {vote : Vote} (h : e.handlePrepareVote X vote = some (e', sent)) :
    Retags id (handlePrepareVote X · vote) e e' sent := by
  obtain ⟨⟨next, qc⟩, hcollect, h⟩ := Option.bind_eq_some_iff.1 h
  have hretags := retags_collectVote hcollect
  cases qc <;>
  · obtain ⟨rfl, rfl⟩ := Prod.mk.inj (Option.some.inj h)
    refine ⟨fun mode notify timeout ↦ ?_, hretags.mode, hretags.consensusNotify, hretags.viewTimeoutNotify⟩
    exact Option.bind_eq_some_iff.2 ⟨_, hretags.same mode notify timeout, rfl⟩

theorem retags_handlePrecommitVote {vote : Vote} (h : e.handlePrecommitVote X vote = some (e', sent)) :
    Retags id (handlePrecommitVote X · vote) e e' sent := by
  obtain ⟨⟨next, qc⟩, hcollect, h⟩ := Option.bind_eq_some_iff.1 h
  have hretags := retags_collectVote hcollect
  cases qc <;>
  · obtain ⟨rfl, rfl⟩ := Prod.mk.inj (Option.some.inj h)
    refine ⟨fun mode notify timeout ↦ ?_, hretags.mode, hretags.consensusNotify, hretags.viewTimeoutNotify⟩
    exact Option.bind_eq_some_iff.2 ⟨_, hretags.same mode notify timeout, rfl⟩

theorem retags_handleCommitVote {vote : Vote} (h : e.handleCommitVote X vote me = some (e', sent)) :
    Retags id (handleCommitVote X · vote me) e e' sent := by
  obtain ⟨⟨next, qc⟩, hcollect, h⟩ := Option.bind_eq_some_iff.1 h
  have hretags := retags_collectVote hcollect
  cases qc with
  | none =>
    obtain ⟨rfl, rfl⟩ := Prod.mk.inj (Option.some.inj h)
    refine ⟨fun mode notify timeout ↦ ?_, hretags.mode, hretags.consensusNotify, hretags.viewTimeoutNotify⟩
    exact Option.bind_eq_some_iff.2 ⟨_, hretags.same mode notify timeout, rfl⟩
  | some qc =>
    obtain ⟨⟨next', newviews⟩, hnew, h⟩ := Option.bind_eq_some_iff.1 h
    obtain ⟨rfl, rfl⟩ := Prod.mk.inj (Option.some.inj h)
    have hnewview := retags_newview hnew
    refine ⟨fun mode notify timeout ↦ ?_, hnewview.mode.trans hretags.mode,
      hnewview.consensusNotify.trans hretags.consensusNotify,
      hnewview.viewTimeoutNotify.trans hretags.viewTimeoutNotify⟩
    exact Option.bind_eq_some_iff.2 ⟨_, hretags.same mode notify timeout, Option.bind_eq_some_iff.2
      ⟨_, hnewview.same mode notify timeout, rfl⟩⟩

theorem foldlM_storeNode_retag {order : List (Bytes × ConsensusNodePKInfo)}
    (h : order.foldlM (storeNode X) e = some e') :
    e'.state = e.state ∧ e'.consensusNotify = e.consensusNotify ∧ e'.viewTimeoutNotify = e.viewTimeoutNotify ∧
      ∀ mode notify timeout, order.foldlM (storeNode X) (e.retag mode notify timeout) =
        some (e'.retag mode notify timeout) := by
  induction order generalizing e with
  | nil =>
    obtain rfl := Option.some.inj h
    exact ⟨rfl, rfl, rfl, fun _ _ _ ↦ rfl⟩
  | cons entry order ih =>
    rw [List.foldlM_cons] at h
    obtain ⟨next, hstore, h⟩ := Option.bind_eq_some_iff.1 h
    obtain ⟨key, hkey, hstore⟩ := Option.bind_eq_some_iff.1 hstore
    obtain ⟨peer, hpeer, hstore⟩ := Option.bind_eq_some_iff.1 hstore
    obtain rfl := Option.some.inj hstore
    obtain ⟨hstate, hnotify, htimeout, hsame⟩ := ih h
    refine ⟨hstate, hnotify, htimeout, fun mode notify timeout ↦ ?_⟩
    rw [List.foldlM_cons]
    refine Option.bind_eq_some_iff.2 ⟨_, ?_, hsame mode notify timeout⟩
    exact Option.bind_eq_some_iff.2 ⟨key, hkey, Option.bind_eq_some_iff.2 ⟨peer, hpeer, rfl⟩⟩

/-- A call changes the mode when it completes a quorum of NewViews, and otherwise neither mode nor permits. -/
theorem retags_step {c : Call} (h : step X me e c = some (e', sent)) :
    ∃ change, (change = id ∨ change = Mode.proposing) ∧ Retags change (step X me · c) e e' sent := by
  cases c with
  | viewTimeout =>
    obtain ⟨timeout, htimeout, hnew⟩ := Option.bind_eq_some_iff.1 h
    have hretags := retags_newview hnew
    refine ⟨id, .inl rfl, fun mode notify timer ↦ ?_, hretags.mode, hretags.consensusNotify,
      hretags.viewTimeoutNotify⟩
    exact Option.bind_eq_some_iff.2 ⟨timeout, htimeout, hretags.same mode notify timer⟩
  | message msg order =>
    cases msg with
    | request msg =>
      obtain ⟨rfl, rfl⟩ := Prod.mk.inj (Option.some.inj h)
      exact ⟨id, .inl rfl, fun _ _ _ ↦ rfl, rfl, rfl, rfl⟩
    | newView msg => exact retags_handleNewview h
    | prepare msg => exact ⟨id, .inl rfl, retags_handlePrepare h⟩
    | commit msg => exact ⟨id, .inl rfl, retags_handleCommit h⟩
    | preCommit msg => exact ⟨id, .inl rfl, retags_handlePrecommit h⟩
    | decide msg => exact ⟨id, .inl rfl, retags_handleDecide h⟩
    | prepareVote vote => exact ⟨id, .inl rfl, retags_handlePrepareVote h⟩
    | commitVote vote => exact ⟨id, .inl rfl, retags_handleCommitVote h⟩
    | preCommitVote vote => exact ⟨id, .inl rfl, retags_handlePrecommitVote h⟩
    | «end» requestHash =>
      obtain ⟨rfl, rfl⟩ := Prod.mk.inj (Option.some.inj h)
      exact ⟨id, .inl rfl, fun _ _ _ ↦ rfl, rfl, rfl, rfl⟩
    | tblsKey key =>
      obtain ⟨next, hstore, h⟩ := Option.map_eq_some_iff.1 h
      obtain ⟨peer, hpeer, hstore⟩ := Option.bind_eq_some_iff.1 hstore
      obtain rfl := Option.some.inj hstore
      obtain ⟨rfl, rfl⟩ := Prod.mk.inj h
      refine ⟨id, .inl rfl, fun mode notify timeout ↦ ?_, rfl, rfl, rfl⟩
      exact Option.map_eq_some_iff.2 ⟨_, Option.bind_eq_some_iff.2 ⟨peer, hpeer, rfl⟩, rfl⟩
    | consensusNodePKsInfo entries =>
      simp only [step, messageHandler, storageConsensusNodePk] at h
      split at h
      case isFalse => cases h
      case isTrue hlisting =>
        obtain ⟨next, hfold, hnew⟩ := Option.bind_eq_some_iff.1 h
        obtain ⟨hstate, hnotify, htimeout, hsame⟩ := foldlM_storeNode_retag hfold
        have hretags := retags_newview hnew
        refine ⟨id, .inl rfl, fun mode notify timeout ↦ ?_, hretags.mode.trans (congrArg State.mode hstate),
          hretags.consensusNotify.trans hnotify, hretags.viewTimeoutNotify.trans htimeout⟩
        exact (if_pos hlisting).trans (Option.bind_eq_some_iff.2
          ⟨_, hsame mode notify timeout, hretags.same mode notify timeout⟩)

end Executor

/-! ## Turns of the loop -/

abbrev LoopTurn := Transition ConsensusNode LoopEvent (List (SendType Payload))

section Turns

variable (X : NodeExternals)

/-- The call of the executor that a turn makes, if it makes one. -/
def executorCall (t : LoopTurn) : Option Executor.Call :=
  match t.event with
  | .consensusNotify order =>
    if t.pre.executor.consensusNotify then do
      let data ← (firstRequest t.pre.requests).join
      return .message (← X.deserialize data) order
    else none
  | .viewTimeoutNotify => if t.pre.executor.viewTimeoutNotify then some .viewTimeout else none
  | .unicast data order => (X.deserialize data).map fun msg ↦ .message msg order
  | .gossip data order =>
    match X.deserialize data with
    | some (.request _) => none
    | some msg => some (.message msg order)
    | none => none
  | .receive | .proposalStateCheck | .viewTimer => none

/-- The message that a turn takes out of the channel. -/
def takenMessages (t : LoopTurn) : List MessageType :=
  match t.event with
  | .receive => t.pre.channel.take 1
  | _ => []

/-- A turn calls the executor, whose messages go into the channel, or it changes nothing but the mode and the permits
and sends what it takes out of the channel. -/
inductive Turned (me : Bytes) (t : LoopTurn) : Prop
  | calls {c : Executor.Call} {e : Executor} {sent : List MessageType} (call : executorCall X t = some c)
      (same : t.pre.executor.SameProtocol e)
      (taken : Executor.step X.toHotstuff me e c = some (t.post.executor, sent))
      (channel : t.post.channel = t.pre.channel ++ sent) (room : t.post.channel.length ≤ channelCapacity)
      (none_taken : takenMessages t = []) (out : t.out = [])
  | other (call : executorCall X t = none) (same : t.pre.executor.SameProtocol t.post.executor)
      (channel : t.pre.channel = takenMessages t ++ t.post.channel)
      (out : t.out = (takenMessages t).filterMap (MessageType.sendTo t.pre.executor.state.primary))

end Turns

variable {X : NodeExternals} {me : Bytes} {n n' : ConsensusNode} {out : List (SendType Payload)}

theorem Executor.SameProtocol.refl (e : Executor) : e.SameProtocol e :=
  ⟨e.state.mode, e.consensusNotify, e.viewTimeoutNotify, rfl⟩

theorem Executor.SameProtocol.trans {e e' e'' : Executor} (h : e.SameProtocol e') (h' : e'.SameProtocol e'') :
    e.SameProtocol e'' := by
  obtain ⟨_, _, _, rfl⟩ := h
  obtain ⟨mode, notify, timeout, rfl⟩ := h'
  exact ⟨mode, notify, timeout, rfl⟩

theorem Executor.SameProtocol.symm {e e' : Executor} (h : e.SameProtocol e') : e'.SameProtocol e := by
  obtain ⟨_, _, _, rfl⟩ := h
  exact ⟨e.state.mode, e.consensusNotify, e.viewTimeoutNotify, rfl⟩

theorem ConsensusNode.call_cases {c : Executor.Call} (h : n.call X me c = some n') :
    ∃ sent, Executor.step X.toHotstuff me n.executor c = some (n'.executor, sent) ∧
      n'.channel = n.channel ++ sent ∧ n'.channel.length ≤ channelCapacity ∧
        n'.requestBuffer = n.requestBuffer ∧ n'.requestBufferMap = n.requestBufferMap := by
  obtain ⟨⟨e, sent⟩, hstep, h⟩ := Option.bind_eq_some_iff.1 h
  dsimp only at h
  split at h
  case isFalse => cases h
  case isTrue hroom =>
    obtain rfl := Option.some.inj h
    exact ⟨sent, hstep, rfl, by rwa [List.length_append], rfl, rfl⟩

/-- A message goes where the executor's leader is, and the end of a request to the request buffer. -/
theorem ConsensusNode.forward_cases {msg : MessageType} (h : n.forward X msg = some (n', out)) :
    n.executor.SameProtocol n'.executor ∧ n'.channel = n.channel ∧
      out = [msg].filterMap (MessageType.sendTo n.executor.state.primary) := by
  have hvote (hmsg : (do
        let leader ← X.peerIdFromBytes n.executor.state.primary
        return (n, (msg.sendTo leader).toList)) = some (n', out)) :
      n.executor.SameProtocol n'.executor ∧ n'.channel = n.channel ∧
        out = [msg].filterMap (MessageType.sendTo n.executor.state.primary) := by
    obtain ⟨leader, hleader, hmsg⟩ := Option.bind_eq_some_iff.1 hmsg
    obtain rfl := Platform.eq_of_peerIdFromBytes hleader
    obtain ⟨rfl, rfl⟩ := Prod.mk.inj (Option.some.inj hmsg)
    refine ⟨.refl _, rfl, ?_⟩
    cases hsend : msg.sendTo n.executor.state.primary <;> simp [hsend]
  cases msg with
  | newView msg => exact hvote h
  | prepareVote vote => exact hvote h
  | preCommitVote vote => exact hvote h
  | commitVote vote => exact hvote h
  | «end» requestHash =>
    obtain ⟨node, -, h⟩ := Option.map_eq_some_iff.1 h
    obtain ⟨rfl, rfl⟩ := Prod.mk.inj h
    exact ⟨⟨node.mode, node.consensusNotify, n.executor.viewTimeoutNotify, rfl⟩, rfl, rfl⟩
  | request | prepare | commit | preCommit | decide | tblsKey | consensusNodePKsInfo =>
    obtain ⟨rfl, rfl⟩ := Prod.mk.inj (Option.some.inj h)
    exact ⟨.refl _, rfl, rfl⟩

/-- What every turn is. -/
theorem turned_of_loopStep {event : LoopEvent} (h : loopStep X me n event = some (n', out)) :
    Turned X me ⟨n, event, out, n'⟩ := by
  cases event with
  | consensusNotify order =>
    simp only [loopStep] at h
    split at h
    case isFalse hpermit =>
      obtain ⟨rfl, rfl⟩ := Prod.mk.inj (Option.some.inj h)
      exact .other (if_neg hpermit) (.refl _) rfl rfl
    case isTrue hpermit =>
      obtain ⟨started, hstart, h⟩ := Option.map_eq_some_iff.1 h
      obtain ⟨rfl, rfl⟩ := Prod.mk.inj h
      obtain ⟨data, hfirst, hstart⟩ := Option.bind_eq_some_iff.1 hstart
      have hfirst' : firstRequest n.requests = some data := hfirst
      cases data with
      | none =>
        obtain rfl := Option.some.inj hstart
        refine .other ((if_pos hpermit).trans ?_) ⟨n.executor.state.mode, false, n.executor.viewTimeoutNotify, rfl⟩
          rfl rfl
        rw [hfirst']
        rfl
      | some data =>
        obtain ⟨msg, hmsg, hcall⟩ := Option.bind_eq_some_iff.1 hstart
        obtain ⟨sent, hstep, hchannel, hroom, -, -⟩ := ConsensusNode.call_cases hcall
        refine .calls ((if_pos hpermit).trans ?_)
          ⟨n.executor.state.mode, false, n.executor.viewTimeoutNotify, rfl⟩ hstep hchannel hroom rfl rfl
        simp only [hfirst', bind, pure, Option.join_some, Option.bind_some, hmsg]
  | viewTimeoutNotify =>
    simp only [loopStep] at h
    split at h
    case isFalse hpermit =>
      obtain ⟨rfl, rfl⟩ := Prod.mk.inj (Option.some.inj h)
      exact .other (if_neg hpermit) (.refl _) rfl rfl
    case isTrue hpermit =>
      obtain ⟨called, hcall, h⟩ := Option.map_eq_some_iff.1 h
      obtain ⟨rfl, rfl⟩ := Prod.mk.inj h
      obtain ⟨sent, hstep, hchannel, hroom, -, -⟩ := ConsensusNode.call_cases hcall
      exact .calls (if_pos hpermit)
        ⟨n.executor.state.mode, n.executor.consensusNotify, false, rfl⟩ hstep hchannel hroom rfl rfl
  | receive =>
    simp only [loopStep] at h
    split at h
    case h_1 hempty =>
      obtain ⟨rfl, rfl⟩ := Prod.mk.inj (Option.some.inj h)
      exact .other rfl (.refl _) (by simp [takenMessages, hempty]) (by simp [takenMessages, hempty])
    case h_2 msg rest hcons =>
      obtain ⟨hsame, hchannel, hout⟩ := ConsensusNode.forward_cases h
      exact .other rfl hsame (by simp [takenMessages, hcons, hchannel]) (by simp [takenMessages, hcons, hout])
  | unicast data order =>
    obtain ⟨msg, hmsg, h⟩ := Option.bind_eq_some_iff.1 h
    obtain ⟨called, hcall, h⟩ := Option.bind_eq_some_iff.1 h
    obtain ⟨rfl, rfl⟩ := Prod.mk.inj (Option.some.inj h)
    obtain ⟨sent, hstep, hchannel, hroom, -, -⟩ := ConsensusNode.call_cases hcall
    exact .calls (Option.map_eq_some_iff.2 ⟨msg, hmsg, rfl⟩) (.refl _) hstep hchannel hroom rfl rfl
  | gossip data order =>
    obtain ⟨received, hreceive, h⟩ := Option.map_eq_some_iff.1 h
    obtain ⟨rfl, rfl⟩ := Prod.mk.inj h
    obtain ⟨msg, hmsg, hreceive⟩ := Option.bind_eq_some_iff.1 hreceive
    cases msg with
    | request request =>
      obtain ⟨node, -, rfl⟩ := Option.map_eq_some_iff.1 hreceive
      exact .other (by simp only [executorCall, hmsg])
        ⟨node.mode, node.consensusNotify, n.executor.viewTimeoutNotify, rfl⟩ rfl rfl
    | newView | prepare | commit | preCommit | decide | prepareVote | commitVote | preCommitVote | «end» | tblsKey
    | consensusNodePKsInfo =>
      obtain ⟨sent, hstep, hchannel, hroom, -, -⟩ := ConsensusNode.call_cases hreceive
      exact .calls (by simp only [executorCall, hmsg]) (.refl _) hstep hchannel hroom rfl rfl
  | proposalStateCheck =>
    obtain ⟨rfl, rfl⟩ := Prod.mk.inj (Option.some.inj h)
    exact .other rfl ⟨_, _, n.executor.viewTimeoutNotify, rfl⟩ rfl rfl
  | viewTimer =>
    obtain ⟨rfl, rfl⟩ := Prod.mk.inj (Option.some.inj h)
    exact .other rfl ⟨_, _, true, rfl⟩ rfl rfl

/-! ## Runs of the node -/

/-- The messages that a turn puts into the channel. -/
def putMessages (X : NodeExternals) (t : LoopTurn) : List MessageType :=
  match executorCall X t with
  | some _ => t.post.channel.drop t.pre.channel.length
  | none => []

abbrev ExecutorTurn := Transition Executor Executor.Call (List MessageType)

/-- A turn of the loop and what it is for the executor alone. -/
def ForExecutor (X : NodeExternals) (t : LoopTurn) (piece : List ExecutorTurn) : Prop :=
  (executorCall X t = none ∧ piece = []) ∨
    ∃ u, piece = [u] ∧ executorCall X t = some u.event ∧ t.post.channel = t.pre.channel ++ u.out ∧
      u.post.SameProtocol t.post.executor

/-- A call of an executor with another mode and other permits returns the same messages. -/
theorem Executor.SameProtocol.step {Y : BasicHotstuff.Externals} {e e' x : Executor} {c : Executor.Call}
    {sent : List MessageType} (h : e.SameProtocol x) (hstep : Executor.step Y me x c = some (e', sent)) :
    ∃ e'', Executor.step Y me e c = some (e'', sent) ∧ e''.SameProtocol e' := by
  obtain ⟨change, -, hretags⟩ := Executor.retags_step hstep
  obtain ⟨mode, notify, timeout, rfl⟩ := h.symm
  exact ⟨_, hretags.same mode notify timeout, (Executor.SameProtocol.symm ⟨_, _, _, rfl⟩)⟩

theorem putMessages_eq {t : LoopTurn} {piece : List ExecutorTurn} (h : ForExecutor X t piece) :
    putMessages X t = piece.flatMap Transition.out := by
  unfold putMessages
  rcases h with ⟨hcall, rfl⟩ | ⟨u, rfl, hcall, hchannel, -⟩
  · rw [hcall]
    rfl
  · rw [hcall, hchannel]
    simp

/-- The messages in the channel and those put into it are those taken out of it and those left in it. -/
theorem channel_conserved {t : LoopTurn} (h : Turned X me t) :
    t.pre.channel ++ putMessages X t = takenMessages t ++ t.post.channel := by
  cases h with
  | calls call _ _ channel _ none_taken _ =>
    rw [none_taken, List.nil_append, putMessages, call, channel]
    simp
  | other call _ channel _ =>
    rw [putMessages, call, List.append_nil, channel]

/-- Every turn of the loop is matched by the executor alone. -/
theorem forExecutor_of_turned {t : LoopTurn} {e : Executor} (hsame : e.SameProtocol t.pre.executor)
    (h : Turned X me t) :
    ∃ piece e', IsRun (Executor.step X.toHotstuff me) e piece e' ∧ e'.SameProtocol t.post.executor ∧
      ForExecutor X t piece := by
  cases h with
  | calls call same taken channel =>
    obtain ⟨e', hstep, hsame'⟩ := (hsame.trans same).step taken
    exact ⟨_, e', .single hstep, hsame', .inr ⟨_, rfl, call, channel, hsame'⟩⟩
  | other call same =>
    exact ⟨[], e, .nil, hsame.trans same, .inl ⟨call, rfl⟩⟩

theorem map_event_of_forExecutor {run : List LoopTurn} {pieces : List (List ExecutorTurn)}
    (h : List.Forall₂ (ForExecutor X) run pieces) :
    pieces.flatten.map Transition.event = run.filterMap (executorCall X) := by
  induction h with
  | nil => rfl
  | @cons t piece run pieces hfirst _ ih =>
    rw [List.flatten_cons, List.map_append, ih]
    rcases hfirst with ⟨hcall, rfl⟩ | ⟨u, rfl, hcall, -⟩
    · rw [List.filterMap_cons_none hcall, List.map_nil, List.nil_append]
    · rw [List.filterMap_cons_some hcall, List.map_singleton, List.singleton_append]

/-- What a run of the node makes of its executor is a run of the executor alone. -/
theorem exists_forExecutor {f : UInt64} {run : List LoopTurn} (h : IsRun (loopStep X me) (ConsensusNode.new f) run n) :
    ∃ pieces e, IsRun (Executor.step X.toHotstuff me) (Executor.new f) pieces.flatten e ∧
      e.SameProtocol n.executor ∧ List.Forall₂ (ForExecutor X) run pieces := by
  refine IsRun.simulated (fun n e ↦ Executor.SameProtocol e n.executor) (ForExecutor X) (fun t e hsame _ taken ↦ ?_)
    (.refl _) h (fun t _ ↦ trivial)
  exact forExecutor_of_turned hsame (turned_of_loopStep taken)

/-- What a run of the node makes of its executor is a run of the executor alone on the calls of the loop, up to the
mode and the permits. What it sends is what the executor sent: the messages that have left the channel and those
still in it are the messages of that run, in its order, and each goes where its leader was when it left. -/
theorem exists_executor_run {f : UInt64} {run : List LoopTurn}
    (h : IsRun (loopStep X me) (ConsensusNode.new f) run n) :
    ∃ run' e, IsRun (Executor.step X.toHotstuff me) (Executor.new f) run' e ∧
      run'.map Transition.event = run.filterMap (executorCall X) ∧ e.SameProtocol n.executor ∧
      run.flatMap takenMessages ++ n.channel = run'.flatMap Transition.out ∧
      ∀ t ∈ run, t.out = (takenMessages t).filterMap (MessageType.sendTo t.pre.executor.state.primary) := by
  obtain ⟨pieces, e, hrun, hsame, hmatched⟩ := exists_forExecutor h
  refine ⟨pieces.flatten, e, hrun, map_event_of_forExecutor hmatched, hsame, ?_, fun t ht ↦ ?_⟩
  · calc run.flatMap takenMessages ++ n.channel
        = [] ++ run.flatMap (putMessages X) :=
          (IsRun.conserves ConsensusNode.channel (putMessages X) takenMessages
            (fun t (_ : True) taken ↦ channel_conserved (turned_of_loopStep taken)) h fun t _ ↦ trivial).symm
      _ = run.flatMap (putMessages X) := List.nil_append _
      _ = pieces.flatten.flatMap Transition.out := by
          exact flatMap_eq_of_matched (fun _ _ hmatch ↦ putMessages_eq hmatch) hmatched
  · cases turned_of_loopStep (h.taken t ht) with
    | calls _ _ _ _ _ none_taken out => rw [out, none_taken, List.filterMap_nil]
    | other _ _ _ out => exact out

/-! ## The node and the ported protocol -/

/-- The channel is empty when the executor is called. -/
def Drained (X : NodeExternals) (t : LoopTurn) : Prop := (executorCall X t).isSome = true → t.pre.channel = []

instance Drained.decidable (X : NodeExternals) (t : LoopTurn) : Decidable (Drained X t) :=
  inferInstanceAs (Decidable (_ = true → _ = []))

/-- What the messages in the channel will be sent as, if the leader stays. -/
def ConsensusNode.pendingSends (n : ConsensusNode) : List (SendType Payload) :=
  n.channel.filterMap (MessageType.sendTo n.executor.state.primary)

theorem Executor.SameProtocol.primary_eq {e e' : Executor} (h : e.SameProtocol e') :
    e'.state.primary = e.state.primary := by
  obtain ⟨_, _, _, rfl⟩ := h
  rfl

/-- With a drained channel, what is sent and what is pending is what the calls of the executor have asked for. -/
theorem pendingSends_conserved {t : LoopTurn} (hdrained : Drained X t) (h : Turned X me t) :
    t.pre.pendingSends ++ (putMessages X t).filterMap (MessageType.sendTo t.post.executor.state.primary) =
      t.out ++ t.post.pendingSends := by
  cases h with
  | calls call _ _ channel _ _ out =>
    have hempty : t.pre.channel = [] := hdrained (by rw [call]; rfl)
    rw [out, putMessages, call, ConsensusNode.pendingSends, ConsensusNode.pendingSends, hempty]
    rfl
  | other call same channel out =>
    rw [putMessages, call, out, ConsensusNode.pendingSends, ConsensusNode.pendingSends, same.primary_eq, channel,
      List.filterMap_append]
    exact List.append_nil _

/-- A node that empties its channel between the calls of its executor sends what the ported protocol sends on the
same calls, in the same order and to the same peers, and reaches the same state. -/
theorem sends_as_ported {f : UInt64} {run : List LoopTurn} {peerId : String}
    {ported : List (Transition BasicHotstuffProtocol BasicHotstuff.Event Answer)} {p : BasicHotstuffProtocol}
    (h : IsRun (loopStep X me) (ConsensusNode.new f) run n) (hdrained : ∀ t ∈ run, Drained X t)
    (hcalls : ∀ call ∈ run.filterMap (executorCall X), call.Apart)
    (hported : exec (BasicHotstuff.step X.toHotstuff me) (BasicHotstuffProtocol.new f peerId)
      ((run.filterMap (executorCall X)).map Executor.Call.ported) = some (ported, p)) :
    run.flatMap Transition.out ++ n.pendingSends =
      ported.flatMap (fun t ↦ t.out.queue.filterMap nonEmptySend) ∧ ∃ r, p = n.executor.ported r := by
  obtain ⟨pieces, e, hrun, hsame, hmatched⟩ := exists_forExecutor h
  obtain ⟨run', e', hexec, ⟨r, hprotocol, -⟩, halike⟩ :=
    Executor.exec_of_ported (Executor.corresponds_new f peerId) hcalls hported
  have hexec' := hrun.exec_eq
  rw [map_event_of_forExecutor hmatched, hexec] at hexec'
  obtain ⟨rfl, rfl⟩ := Prod.mk.inj (Option.some.inj hexec')
  have hput (t : LoopTurn) (piece : List ExecutorTurn) (hmatch : ForExecutor X t piece) :
      (putMessages X t).filterMap (MessageType.sendTo t.post.executor.state.primary) =
        piece.flatMap fun u ↦ u.out.filterMap (MessageType.sendTo u.post.state.primary) := by
    rw [putMessages_eq hmatch]
    rcases hmatch with ⟨-, rfl⟩ | ⟨u, rfl, -, -, hpost⟩
    · rfl
    · rw [List.flatMap_singleton, List.flatMap_singleton, hpost.primary_eq]
  refine ⟨?_, r, ?_⟩
  · calc run.flatMap Transition.out ++ n.pendingSends
        = [] ++ run.flatMap fun t ↦ (putMessages X t).filterMap (MessageType.sendTo t.post.executor.state.primary) :=
          (IsRun.conserves ConsensusNode.pendingSends _ Transition.out
            (fun t hcondition taken ↦ pendingSends_conserved hcondition (turned_of_loopStep taken)) h hdrained).symm
      _ = pieces.flatten.flatMap fun u ↦ u.out.filterMap (MessageType.sendTo u.post.state.primary) :=
          flatMap_eq_of_matched hput hmatched
      _ = ported.flatMap fun t ↦ t.out.queue.filterMap nonEmptySend :=
          (flatMap_eq_of_alike (fun t u hanswered ↦ hanswered.2.sends.symm) halike).symm
  · obtain ⟨_, _, _, hretag⟩ := hsame
    rw [hprotocol, hretag]
    rfl

/-! ## The second of four nodes -/

/-- Externals under which a byte stands for a message of a list. -/
def NodeExternals.listed (messages : List MessageType) : NodeExternals where
  toHotstuff := .transparent
  deserialize
    | [i] => messages[i.toNat]?
    | _ => none

def Executor.Call.messageOf : Executor.Call → Option MessageType
  | .message msg _ => some msg
  | .viewTimeout => none

/-- The messages that the leader handles: its keys, three NewViews, a request and three votes of every phase. -/
def leaderMessages : NodeExternals := .listed (leaderCalls.filterMap Executor.Call.messageOf)

/-- A message of another node, after which the channel is emptied. -/
def handledMessage (i : UInt8) (order : List (Bytes × ConsensusNodePKInfo)) : List LoopEvent :=
  [.unicast [i] order, .receive, .receive, .receive]

/-- The request is gossiped and proposed when there is a quorum of NewViews, and the view after it times out. -/
def leaderTurns : List LoopEvent :=
  handledMessage 0 [] ++ handledMessage 1 fourTable ++ .gossip [5] [] ::
    ([2, 3, 4].flatMap (handledMessage · [])) ++
    [.proposalStateCheck, .consensusNotify [], .receive] ++
    ([6, 7, 8, 9, 10, 11, 12, 13, 14].flatMap (handledMessage · [])) ++
    [.viewTimer, .viewTimeoutNotify, .receive]

theorem isRun_leaderTurns : IsRun (loopStep leaderMessages [2]) (ConsensusNode.new 1)
    (transitions (loopStep leaderMessages [2]) (ConsensusNode.new 1) leaderTurns)
    (final (loopStep leaderMessages [2]) (ConsensusNode.new 1) leaderTurns) :=
  .of_isSome (by decide +kernel)

theorem exists_executor_run_leader :
    ∃ run n, IsRun (loopStep leaderMessages [2]) (ConsensusNode.new 1) run n ∧
      (run.flatMap takenMessages).length = 7 ∧
      ∃ run' e, IsRun (Executor.step leaderMessages.toHotstuff [2]) (Executor.new 1) run' e ∧
        run'.map Transition.event = run.filterMap (executorCall leaderMessages) ∧ e.SameProtocol n.executor ∧
        run.flatMap takenMessages ++ n.channel = run'.flatMap Transition.out ∧
        ∀ t ∈ run, t.out = (takenMessages t).filterMap (MessageType.sendTo t.pre.executor.state.primary) :=
  ⟨_, _, isRun_leaderTurns, by decide +kernel, exists_executor_run isRun_leaderTurns⟩

theorem sends_as_ported_leader :
    ∃ (run : List LoopTurn) (n : ConsensusNode)
      (ported : List (Transition BasicHotstuffProtocol BasicHotstuff.Event Answer)) (p : BasicHotstuffProtocol),
      IsRun (loopStep leaderMessages [2]) (ConsensusNode.new 1) run n ∧ ported.length = 16 ∧
        run.flatMap Transition.out ++ n.pendingSends =
          ported.flatMap (fun t ↦ t.out.queue.filterMap nonEmptySend) ∧ ∃ r, p = n.executor.ported r := by
  let run := transitions (loopStep leaderMessages [2]) (ConsensusNode.new 1) leaderTurns
  have hdrained : ∀ t ∈ run, Drained leaderMessages t := by decide +kernel
  have hcalls : ∀ call ∈ run.filterMap (executorCall leaderMessages), call.Apart := by decide +kernel
  have hported : exec (BasicHotstuff.step leaderMessages.toHotstuff [2]) (BasicHotstuffProtocol.new 1 "")
      ((run.filterMap (executorCall leaderMessages)).map Executor.Call.ported) = some _ :=
    exec_eq_of_isSome (by decide +kernel)
  exact ⟨run, _, _, _, isRun_leaderTurns, by decide +kernel, sends_as_ported isRun_leaderTurns hdrained hcalls hported⟩

end BFTDiagnosis.HotstuffNode
