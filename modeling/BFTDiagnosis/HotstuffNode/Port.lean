import BFTDiagnosis.BasicHotstuff.Protocol
import BFTDiagnosis.HotstuffNode.Executor
import BFTDiagnosis.Lib.Drain
import BFTDiagnosis.Lib.Simulation

/-!
# The port of the HotStuff executor

`protocols/src/basic_hotstuff` is the executor of the standalone node, taken out of its node: a handler returns its
messages in a queue, addressed to the leader, where the executor puts them into the channel of the node; it answers
`Complete` where the executor sends the end of the request to its own node, and `Over` where the executor turns the
mode to proposing. The protocol replaces its table of public keys when a new one arrives, the executor adds to its
database. Whatever the protocol does on a sequence of calls the executor does as well, as long as no two peers of
one table share a database key.
-/

namespace BFTDiagnosis.HotstuffNode

open Components Utils Word Hotstuff BasicHotstuff
open PbftExecutor (dbKey)

/-! ## What is ported to what -/

def Vote.ported (vote : Vote) : BasicHotstuff.Vote where
  viewNum := vote.viewNum
  block := vote.block
  partialSignature := some vote.partialSignature
  fromPeerId := vote.fromPeerId

def MessageType.ported : MessageType → BasicHotstuff.MessageType
  | .request msg => .request msg
  | .newView msg => .newView msg
  | .prepare msg => .prepare msg
  | .commit msg => .commit msg
  | .preCommit msg => .preCommit msg
  | .decide msg => .decide msg
  | .prepareVote msg => .prepareVote msg.ported
  | .commitVote msg => .commitVote msg.ported
  | .preCommitVote msg => .preCommitVote msg.ported
  | .end requestHash => .end requestHash
  | .tblsKey key => .tblsKey key
  | .consensusNodePKsInfo entries => .consensusNodePKsInfo entries

def Executor.Call.ported : Executor.Call → BasicHotstuff.Event
  | .message msg order => .message msg.ported order
  | .viewTimeout => .viewTimeout

/-- Where the node sends a message of the channel: votes and NewViews to the leader, the end of a request nowhere,
and the rest to everyone. -/
def MessageType.sendTo (primary : PeerId) : MessageType → Option (SendType Payload)
  | .end _ => none
  | .newView msg => some (.unicast primary (.message ⟨.newView msg⟩))
  | .prepareVote msg => some (.unicast primary (.message ⟨.prepareVote msg.ported⟩))
  | .preCommitVote msg => some (.unicast primary (.message ⟨.preCommitVote msg.ported⟩))
  | .commitVote msg => some (.unicast primary (.message ⟨.commitVote msg.ported⟩))
  | msg => some (.broadcast (.message ⟨msg.ported⟩))

def MessageType.endedRequest : MessageType → Option String
  | .end requestHash => some requestHash
  | _ => none

/-- An entry of a queue, unless it has no bytes. -/
def nonEmptySend : SendType Payload → Option (SendType Payload)
  | .broadcast .empty => none
  | send => some send

/-- What the protocol keeps and the executor does not. -/
structure Surplus where
  currentRequest : Request
  peerId : String
  consensusNodes : HashMap String PeerId
  consensusNodePks : HashMap Bytes ConsensusNodePKInfo

/-- The protocol in the state of the executor. -/
def Executor.ported (e : Executor) (r : Surplus) : BasicHotstuffProtocol where
  state :=
    { view := e.state.view
      highQC := e.state.highQC
      prepareQC := e.state.prepareQC
      lockedQC := e.state.lockedQC
      primary := e.state.primary
      faultToleranceCount := e.state.faultToleranceCount
      tf := e.state.tf
      currentViewTimeout := e.state.currentViewTimeout
      currentRequest := r.currentRequest }
  log := e.log
  peerId := r.peerId
  keypair := e.keypair
  consensusNodes := r.consensusNodes
  pkConsensusNodes := e.consensusNodes
  consensusNodePks := r.consensusNodePks

/-- The public keys of the protocol are in the database of the executor. -/
def Stored (db : HashMap ℕ ConsensusNodePKInfo) (pks : HashMap Bytes ConsensusNodePKInfo) : Prop :=
  ∀ peer pkInfo, pks.lookup peer = some pkInfo → ∃ key, dbKey peer = some key ∧ db.lookup key = some pkInfo

/-- The peers of a table have database keys of their own. -/
def KeysApart (entries : List (Bytes × ConsensusNodePKInfo)) : Prop :=
  (∀ entry ∈ entries, (dbKey entry.1).isSome = true) ∧
    ∀ entry ∈ entries, ∀ entry' ∈ entries, dbKey entry.1 = dbKey entry'.1 → entry.1 = entry'.1

instance KeysApart.decidable (entries : List (Bytes × ConsensusNodePKInfo)) : Decidable (KeysApart entries) :=
  inferInstanceAs (Decidable ((∀ entry ∈ entries, _) ∧ ∀ entry ∈ entries, ∀ entry' ∈ entries, _ → _))

def Executor.Call.Apart : Executor.Call → Prop
  | .message (.consensusNodePKsInfo entries) _ => KeysApart entries
  | _ => True

instance Executor.Call.Apart.decidable (call : Executor.Call) : Decidable call.Apart :=
  match call with
  | .message (.consensusNodePKsInfo entries) _ => inferInstanceAs (Decidable (KeysApart entries))
  | .message (.request _) _ | .message (.newView _) _ | .message (.prepare _) _ | .message (.commit _) _
  | .message (.preCommit _) _ | .message (.decide _) _ | .message (.prepareVote _) _ | .message (.commitVote _) _
  | .message (.preCommitVote _) _ | .message (.end _) _ | .message (.tblsKey _) _ | .viewTimeout => .isTrue trivial

/-- The request of a completed block, as the node is told that it has ended. -/
def completedRequest (X : Platform) : Answer → List String
  | .complete request _ => [getRequestHash X request]
  | _ => []

def signalsNext : Answer → Bool
  | .over _ => true
  | _ => false

/-- A call of the executor and an answer of the protocol agree: the same messages go to the same peers in the same
order, requests end where the protocol completes them, and the node may propose where the protocol says so. -/
structure AnsweredAs (X : Platform) (e e' : Executor) (sent : List MessageType) (answer : Answer) : Prop where
  sends : sent.filterMap (MessageType.sendTo e'.state.primary) = answer.queue.filterMap nonEmptySend
  ends : sent.filterMap MessageType.endedRequest = completedRequest X answer
  mode : e'.state.mode = if signalsNext answer then e.state.mode.proposing else e.state.mode

/-- The executor returns as well, in the same state, and agrees with the answer. -/
def Reproduces (X : Platform) (e : Executor) (r : Surplus) (result : Option (Executor × List MessageType))
    (p' : BasicHotstuffProtocol) (answer : Answer) : Prop :=
  ∃ e' sent, result = some (e', sent) ∧ p' = e'.ported r ∧ e'.db = e.db ∧ AnsweredAs X e e' sent answer

variable {X : BasicHotstuff.Externals} {e : Executor} {r : Surplus} {p' : BasicHotstuffProtocol} {me : Bytes}
  {answer : Answer}

namespace Executor

/-! ## Helpers -/

@[simp] theorem ported_state_view : (e.ported r).state.view = e.state.view := rfl

@[simp] theorem ported_state_primary : (e.ported r).state.primary = e.state.primary := rfl

@[simp] theorem ported_log : (e.ported r).log = e.log := rfl

@[simp] theorem ported_keypair : (e.ported r).keypair = e.keypair := rfl

@[simp] theorem ported_pkConsensusNodes : (e.ported r).pkConsensusNodes = e.consensusNodes := rfl

theorem changeLeader_ported (viewNum : UInt64) :
    (e.ported r).changeLeader viewNum = (e.changeLeader viewNum).map (·.ported r) := by
  simp only [BasicHotstuffProtocol.changeLeader, changeLeader, ported_pkConsensusNodes, bind, pure]
  by_cases hcount : e.consensusNodes.len = 0
  · simp [hcount]
  · simp only [hcount, if_false]
    cases e.consensusNodes.lookup (viewNum % UInt64.ofNat e.consensusNodes.len) <;> rfl

/-- A new view, as the protocol answers it. -/
theorem newview_ported :
    (e.ported r).newview X me = (e.newview X me).map fun result ↦
      (result.1.ported r, .continueExecute (result.2.filterMap (MessageType.sendTo result.1.state.primary))) := by
  simp only [BasicHotstuffProtocol.newview, newview, bind, pure, ported_state_view]
  cases checkedAdd e.state.view 1 with
  | none => rfl
  | some nextView =>
    simp only [Option.bind_some, changeLeader_ported]
    cases e.changeLeader nextView with
    | none => rfl
    | some next =>
      simp only [Option.map_some, Option.bind_some, ported_state_primary]
      cases hleader : X.peerIdFromBytes next.state.primary with
      | none => rfl
      | some leader =>
        obtain rfl := Platform.eq_of_peerIdFromBytes hleader
        simp only [Option.bind_some, Option.map_some]
        by_cases hself : next.state.primary = me
        · simp only [hself, if_true]
          rfl
        · simp only [hself, if_false]
          rfl

theorem filterMap_nonEmptySend (primary : PeerId) (sent : List MessageType) :
    (sent.filterMap (MessageType.sendTo primary)).filterMap nonEmptySend =
      sent.filterMap (MessageType.sendTo primary) := by
  rw [List.filterMap_filterMap]
  congr 1
  funext msg
  cases msg <;> rfl

/-- A new view keeps the keys and the mode and ends no request. -/
theorem newview_effect {e' : Executor} {sent : List MessageType}
    (h : e.newview X me = some (e', sent)) :
    e'.db = e.db ∧ e'.state.mode = e.state.mode ∧ sent.filterMap MessageType.endedRequest = [] := by
  simp only [newview, changeLeader, bind, pure, Option.bind_eq_some_iff, Option.some.injEq, Prod.mk.injEq] at h
  obtain ⟨nextView, -, next, hnext, leader, -, rfl, rfl⟩ := h
  split at hnext
  case isTrue => cases hnext
  case isFalse =>
    obtain ⟨primary, -, hnext⟩ := Option.bind_eq_some_iff.1 hnext
    obtain rfl := Option.some.inj hnext
    refine ⟨rfl, rfl, ?_⟩
    split <;> rfl

/-- A new view of the protocol is one of the executor. -/
theorem reproduces_newview (h : (e.ported r).newview X me = some (p', answer)) :
    Reproduces X.toPlatform e r (e.newview X me) p' answer ∧ signalsNext answer = false ∧
      completedRequest X.toPlatform answer = [] := by
  rw [newview_ported] at h
  obtain ⟨⟨e', sent⟩, hnew, heq⟩ := Option.map_eq_some_iff.1 h
  obtain ⟨rfl, rfl⟩ := Prod.mk.inj heq
  obtain ⟨hdb, hmode, hends⟩ := newview_effect hnew
  exact ⟨⟨e', sent, hnew, rfl, hdb, (filterMap_nonEmptySend _ _).symm, hends, hmode⟩, rfl, rfl⟩

/-- The vote of the protocol is the one of the executor, with the leader as the receiver. -/
theorem sendVote_ported {phase : Phase} {viewNum : UInt64} {block : Block}
    (h : (e.ported r).sendVote X me phase viewNum block = some answer) :
    AnsweredAs X.toPlatform e e (e.sendVote X me phase viewNum block) answer := by
  simp only [BasicHotstuffProtocol.sendVote, ported_keypair, ported_state_primary] at h
  unfold sendVote
  cases hkeypair : e.keypair with
  | none =>
    rw [hkeypair] at h
    obtain rfl := Option.some.inj h
    exact ⟨rfl, rfl, rfl⟩
  | some keypair =>
    rw [hkeypair] at h
    obtain ⟨leader, hleader, hanswer⟩ := Option.bind_eq_some_iff.1 h
    obtain rfl := Platform.eq_of_peerIdFromBytes hleader
    obtain rfl := Option.some.inj hanswer
    cases phase <;> exact ⟨rfl, rfl, rfl⟩

/-- The executor verifies, records and combines as the protocol does. -/
theorem collectVote_ported {phase : Phase} {vote : Vote} {qc : Option QC} (hstored : Stored e.db r.consensusNodePks)
    (h : (e.ported r).collectVote X phase vote.ported = some (p', qc)) :
    ∃ log, e.collectVote X phase vote = some ({ e with log := log }, qc) ∧ p' = { e with log := log }.ported r := by
  simp only [BasicHotstuffProtocol.collectVote, BasicHotstuffProtocol.getPublicKeyInfoByPeerId, bind, pure,
    Option.bind_eq_some_iff] at h
  obtain ⟨pkInfo, hpk, share, hshare, h⟩ := h
  obtain ⟨key, hkey, hlookup⟩ := hstored _ _ hpk
  obtain rfl := Option.some.inj hshare
  have hinfo : e.getPublicKeyInfoByPeerId vote.fromPeerId = some pkInfo := by
    rw [getPublicKeyInfoByPeerId, show dbKey vote.fromPeerId = some key from hkey]
    exact hlookup
  simp only [collectVote, bind, pure, hinfo, Option.bind_some]
  split at h
  case isTrue hinvalid =>
    obtain ⟨rfl, rfl⟩ := Prod.mk.inj (Option.some.inj h)
    exact ⟨e.log, if_pos hinvalid, rfl⟩
  case isFalse hvalid =>
    obtain ⟨threshold, hthreshold, h⟩ := Option.bind_eq_some_iff.1 h
    have hsize : quorumSize e.state.faultToleranceCount = some threshold := hthreshold
    simp only [hsize, Option.bind_some]
    refine ⟨e.log.recordMessgaePartialSignature (voteHash X phase vote.viewNum vote.block) pkInfo.number
      vote.partialSignature, ?_⟩
    split at h
    case isTrue hcount =>
      obtain ⟨rfl, rfl⟩ := Prod.mk.inj (Option.some.inj h)
      exact ⟨(if_neg hvalid).trans (if_pos hcount), rfl⟩
    case isFalse hcount =>
      obtain ⟨shares, hshares, h⟩ := Option.bind_eq_some_iff.1 h
      obtain ⟨keypair, hkeypair, h⟩ := Option.bind_eq_some_iff.1 h
      obtain ⟨signature, hsignature, h⟩ := Option.bind_eq_some_iff.1 h
      obtain ⟨rfl, rfl⟩ := Prod.mk.inj (Option.some.inj h)
      refine ⟨(if_neg hvalid).trans ((if_neg hcount).trans ?_), rfl⟩
      refine Option.bind_eq_some_iff.2 ⟨shares, hshares, Option.bind_eq_some_iff.2 ⟨keypair, hkeypair, ?_⟩⟩
      exact Option.bind_eq_some_iff.2 ⟨signature, hsignature, rfl⟩

/-- A certificate is for the block of the vote that completes it. -/
theorem block_of_collectVote {phase : Phase} {vote : Vote} {e' : Executor} {qc : QC}
    (h : e.collectVote X phase vote = some (e', some qc)) : qc.block = vote.block := by
  simp only [collectVote, bind, pure, Option.bind_eq_some_iff] at h
  obtain ⟨pkInfo, -, h⟩ := h
  split at h
  case isTrue => cases h
  case isFalse =>
    obtain ⟨threshold, -, h⟩ := Option.bind_eq_some_iff.1 h
    split at h
    case isTrue => cases h
    case isFalse =>
      simp only [Option.bind_eq_some_iff, Option.some.injEq, Prod.mk.injEq] at h
      obtain ⟨-, -, -, -, -, -, -, rfl⟩ := h
      rfl

/-! ## Handlers -/

theorem reproduces_handleNewview {msg : NewView} (h : (e.ported r).handleNewview msg = some (p', answer)) :
    Reproduces X.toPlatform e r (e.handleNewview msg) p' answer := by
  obtain ⟨threshold, hthreshold, h⟩ := Option.bind_eq_some_iff.1 h
  simp only [handleNewview, bind, pure]
  rw [show quorumSize e.state.faultToleranceCount = some threshold from hthreshold, Option.bind_some]
  split at h
  case isTrue hcount =>
    obtain ⟨highQC, hhigh, h⟩ := Option.bind_eq_some_iff.1 h
    obtain ⟨rfl, rfl⟩ := Prod.mk.inj (Option.some.inj h)
    refine ⟨_, [], (if_pos hcount).trans (Option.bind_eq_some_iff.2 ⟨highQC, hhigh, rfl⟩), rfl, rfl, rfl, rfl, rfl⟩
  case isFalse hcount =>
    obtain ⟨rfl, rfl⟩ := Prod.mk.inj (Option.some.inj h)
    exact ⟨_, [], if_neg hcount, rfl, rfl, rfl, rfl, rfl⟩

theorem reproduces_handlePrepare {msg : Prepare} (h : (e.ported r).handlePrepare X msg me = some (p', answer)) :
    Reproduces X.toPlatform e r (some (e.handlePrepare X msg me)) p' answer := by
  unfold BasicHotstuffProtocol.handlePrepare at h
  unfold handlePrepare
  split at h
  case isTrue hcheck =>
    rw [if_pos (show e.checkPrepare X msg = true from hcheck)]
    obtain ⟨vote, hvote, h⟩ := Option.bind_eq_some_iff.1 h
    obtain ⟨rfl, rfl⟩ := Prod.mk.inj (Option.some.inj h)
    have hsent := sendVote_ported (e := { e with state := { e.state with primary := msg.fromPeerId } }) hvote
    exact ⟨_, _, rfl, rfl, rfl, hsent.sends, hsent.ends, hsent.mode⟩
  case isFalse hcheck =>
    rw [if_neg (show ¬ e.checkPrepare X msg = true from hcheck)]
    obtain ⟨rfl, rfl⟩ := Prod.mk.inj (Option.some.inj h)
    exact ⟨_, _, rfl, rfl, rfl, rfl, rfl, rfl⟩

theorem reproduces_handlePrecommit {msg : PreCommit}
    (h : (e.ported r).handlePrecommit X msg me = some (p', answer)) :
    Reproduces X.toPlatform e r (e.handlePrecommit X msg me) p' answer := by
  obtain ⟨justify, hcheck, h⟩ := Option.bind_eq_some_iff.1 h
  have hcheck' : e.checkQC X .prepare msg.justify = some justify := hcheck
  simp only [handlePrecommit, bind, pure, hcheck', Option.bind_some]
  cases justify with
  | none =>
    obtain ⟨rfl, rfl⟩ := Prod.mk.inj (Option.some.inj h)
    exact ⟨_, _, rfl, rfl, rfl, rfl, rfl, rfl⟩
  | some justify =>
    obtain ⟨vote, hvote, h⟩ := Option.bind_eq_some_iff.1 h
    obtain ⟨rfl, rfl⟩ := Prod.mk.inj (Option.some.inj h)
    have hsent := sendVote_ported (e := { e with state := { e.state with prepareQC := some justify } }) hvote
    exact ⟨_, _, rfl, rfl, rfl, hsent.sends, hsent.ends, hsent.mode⟩

theorem reproduces_handleCommit {msg : Commit} (h : (e.ported r).handleCommit X msg me = some (p', answer)) :
    Reproduces X.toPlatform e r (e.handleCommit X msg me) p' answer := by
  obtain ⟨justify, hcheck, h⟩ := Option.bind_eq_some_iff.1 h
  have hcheck' : e.checkQC X .preCommit msg.justify = some justify := hcheck
  simp only [handleCommit, bind, pure, hcheck', Option.bind_some]
  cases justify with
  | none =>
    obtain ⟨rfl, rfl⟩ := Prod.mk.inj (Option.some.inj h)
    exact ⟨_, _, rfl, rfl, rfl, rfl, rfl, rfl⟩
  | some justify =>
    obtain ⟨vote, hvote, h⟩ := Option.bind_eq_some_iff.1 h
    obtain ⟨rfl, rfl⟩ := Prod.mk.inj (Option.some.inj h)
    have hsent := sendVote_ported (e := { e with state := { e.state with lockedQC := some justify } }) hvote
    exact ⟨_, _, rfl, rfl, rfl, hsent.sends, hsent.ends, hsent.mode⟩

/-- A completed block of the protocol ends its request in the node before the next view. -/
theorem reproduces_handleDecide {msg : Decide} (h : (e.ported r).handleDecide X msg me = some (p', answer)) :
    Reproduces X.toPlatform e r (e.handleDecide X msg me) p' answer := by
  obtain ⟨justify, hcheck, h⟩ := Option.bind_eq_some_iff.1 h
  have hcheck' : e.checkQC X .commit msg.justify = some justify := hcheck
  simp only [handleDecide, bind, pure, hcheck', Option.bind_some]
  cases justify with
  | none =>
    obtain ⟨rfl, rfl⟩ := Prod.mk.inj (Option.some.inj h)
    exact ⟨_, _, rfl, rfl, rfl, rfl, rfl, rfl⟩
  | some justify =>
    obtain ⟨⟨p₁, newviews⟩, hnew, h⟩ := Option.bind_eq_some_iff.1 h
    obtain ⟨rfl, rfl⟩ := Prod.mk.inj (Option.some.inj h)
    obtain ⟨⟨e', sent, hnew', rfl, hdb, hsent⟩, hsignal, hends⟩ := reproduces_newview (e := e.viewTimeoutStop) hnew
    refine ⟨e', _, Option.bind_eq_some_iff.2 ⟨(e', sent), hnew', rfl⟩, rfl, hdb, hsent.sends, ?_, ?_⟩
    · exact congrArg (getRequestHash X.toPlatform ⟨justify.block.cmd⟩ :: ·) (hsent.ends.trans hends)
    · exact hsent.mode.trans (by rw [hsignal]; rfl)

theorem reproduces_handlePrepareVote {msg : Vote} (hstored : Stored e.db r.consensusNodePks)
    (h : (e.ported r).handlePrepareVote X msg.ported = some (p', answer)) :
    Reproduces X.toPlatform e r (e.handlePrepareVote X msg) p' answer := by
  obtain ⟨⟨p₁, qc⟩, hcollect, h⟩ := Option.bind_eq_some_iff.1 h
  obtain ⟨log, hcollect', rfl⟩ := collectVote_ported hstored hcollect
  simp only [handlePrepareVote, bind, pure, hcollect', Option.bind_some]
  cases qc <;>
  · obtain ⟨rfl, rfl⟩ := Prod.mk.inj (Option.some.inj h)
    exact ⟨_, _, rfl, rfl, rfl, rfl, rfl, rfl⟩

theorem reproduces_handlePrecommitVote {msg : Vote} (hstored : Stored e.db r.consensusNodePks)
    (h : (e.ported r).handlePrecommitVote X msg.ported = some (p', answer)) :
    Reproduces X.toPlatform e r (e.handlePrecommitVote X msg) p' answer := by
  obtain ⟨⟨p₁, qc⟩, hcollect, h⟩ := Option.bind_eq_some_iff.1 h
  obtain ⟨log, hcollect', rfl⟩ := collectVote_ported hstored hcollect
  simp only [handlePrecommitVote, bind, pure, hcollect', Option.bind_some]
  cases qc <;>
  · obtain ⟨rfl, rfl⟩ := Prod.mk.inj (Option.some.inj h)
    exact ⟨_, _, rfl, rfl, rfl, rfl, rfl, rfl⟩

theorem reproduces_handleCommitVote {msg : Vote} (hstored : Stored e.db r.consensusNodePks)
    (h : (e.ported r).handleCommitVote X msg.ported me = some (p', answer)) :
    Reproduces X.toPlatform e r (e.handleCommitVote X msg me) p' answer := by
  obtain ⟨⟨p₁, qc⟩, hcollect, h⟩ := Option.bind_eq_some_iff.1 h
  obtain ⟨log, hcollect', rfl⟩ := collectVote_ported hstored hcollect
  simp only [handleCommitVote, bind, pure, hcollect', Option.bind_some]
  cases qc with
  | none =>
    obtain ⟨rfl, rfl⟩ := Prod.mk.inj (Option.some.inj h)
    exact ⟨_, _, rfl, rfl, rfl, rfl, rfl, rfl⟩
  | some qc =>
    obtain ⟨⟨p₁, newviews⟩, hnew, h⟩ := Option.bind_eq_some_iff.1 h
    obtain ⟨rfl, rfl⟩ := Prod.mk.inj (Option.some.inj h)
    obtain ⟨⟨e', sent, hnew', rfl, hdb, hsent⟩, hsignal, hends⟩ :=
      reproduces_newview (e := viewTimeoutStop { e with log := log }) hnew
    have hblock : qc.block = msg.block := block_of_collectVote hcollect'
    refine ⟨e', _, Option.bind_eq_some_iff.2 ⟨(e', sent), hnew', rfl⟩, rfl, hdb, ?_, ?_, ?_⟩
    · exact congrArg (SendType.broadcast _ :: ·) hsent.sends
    · rw [hblock]
      exact congrArg (getRequestHash X.toPlatform ⟨msg.block.cmd⟩ :: ·) (hsent.ends.trans hends)
    · exact hsent.mode.trans (by rw [hsignal]; rfl)

/-! ## Public keys -/

/-- The loop over a table fills the map of the protocol and stores every key of the table. -/
theorem foldlM_storeNode {order : List (Bytes × ConsensusNodePKInfo)} {nodes : HashMap UInt64 Bytes}
    (hsome : ∀ entry ∈ order, (dbKey entry.1).isSome = true)
    (hapart : order.Pairwise fun entry entry' ↦ dbKey entry.1 ≠ dbKey entry'.1)
    (h : order.foldlM (storeNumber X.toExternals) e.consensusNodes = some nodes) :
    ∃ db, order.foldlM (storeNode X) e = some { e with db := db, consensusNodes := nodes } ∧
      (∀ entry ∈ order, ∃ key, dbKey entry.1 = some key ∧ db.lookup key = some entry.2) ∧
        ∀ key, (∀ entry ∈ order, dbKey entry.1 ≠ some key) → db.lookup key = e.db.lookup key := by
  induction order generalizing e with
  | nil =>
    obtain rfl := Option.some.inj h
    exact ⟨e.db, rfl, List.forall_mem_nil _, fun key _ ↦ rfl⟩
  | cons entry order ih =>
    obtain ⟨hfirst, hrest⟩ := List.pairwise_cons.1 hapart
    obtain ⟨key, hkey⟩ := Option.isSome_iff_exists.1 (hsome entry List.mem_cons_self)
    rw [List.foldlM_cons] at h ⊢
    obtain ⟨nodes₁, hstore, h⟩ := Option.bind_eq_some_iff.1 h
    obtain ⟨peer, hpeer, rfl⟩ := Option.map_eq_some_iff.1 hstore
    have hnext : storeNode X e entry = some
        { e with
          db := e.db.insert key entry.2
          consensusNodes := e.consensusNodes.insert entry.2.number entry.1 } := by
      simp only [storeNode, bind, pure, hkey, hpeer, Option.bind_some]
    obtain ⟨db, hfold, hin, hout⟩ := ih
      (e := { e with
        db := e.db.insert key entry.2
        consensusNodes := e.consensusNodes.insert entry.2.number entry.1 })
      (fun entry' hentry' ↦ hsome entry' (List.mem_cons_of_mem _ hentry')) hrest h
    refine ⟨db, ?_, List.forall_mem_cons.2 ⟨⟨key, hkey, ?_⟩, hin⟩, fun other hother ↦ ?_⟩
    · rw [hnext]
      exact hfold
    · rw [hout key fun entry' hentry' heq ↦ hfirst entry' hentry' (hkey.trans heq.symm)]
      exact Finmap.lookup_insert _
    · obtain ⟨hhere, hlater⟩ := List.forall_mem_cons.1 hother
      rw [hout other hlater]
      exact Finmap.lookup_insert_of_ne _ fun heq ↦ hhere (hkey.trans (congrArg some heq.symm))

/-- A walk over a table whose peers have keys of their own. -/
theorem pairwise_of_listing {entries order : List (Bytes × ConsensusNodePKInfo)} (hkeys : KeysApart entries)
    (hlisting : (HashMap.ofEntries entries).Listing order) :
    (∀ entry ∈ order, (dbKey entry.1).isSome = true) ∧
      order.Pairwise fun entry entry' ↦ dbKey entry.1 ≠ dbKey entry'.1 := by
  have hmem : ∀ entry ∈ order, entry ∈ entries := fun entry hentry ↦
    HashMap.mem_of_lookup_ofEntries ((HashMap.mem_listing hlisting).1 hentry)
  have hnodup : (order.map Prod.fst).Nodup := by
    rw [← Multiset.coe_nodup, ← Multiset.map_coe, hlisting.coe_eq]
    exact HashMap.nodup_keys_toMultiset _
  refine ⟨fun entry hentry ↦ hkeys.1 entry (hmem entry hentry), ?_⟩
  refine (List.pairwise_map.1 hnodup).imp_of_mem fun {entry entry'} hentry hentry' hne heq ↦ ?_
  exact hne (hkeys.2 entry (hmem entry hentry) entry' (hmem entry' hentry') heq)

/-- A table replaces the one of the protocol and is added to the database of the executor. -/
theorem reproduces_storageConsensusNodePk {entries order : List (Bytes × ConsensusNodePKInfo)}
    (hkeys : KeysApart entries)
    (h : BasicHotstuffProtocol.storageConsensusNodePk X
      (e.ported { r with consensusNodePks := HashMap.ofEntries entries }) order (HashMap.ofEntries entries) me =
        some (p', answer)) :
    ∃ e' sent, e.storageConsensusNodePk X order (HashMap.ofEntries entries) me = some (e', sent) ∧
      p' = e'.ported { r with consensusNodePks := HashMap.ofEntries entries } ∧
        Stored e'.db (HashMap.ofEntries entries) ∧ AnsweredAs X.toPlatform e e' sent answer := by
  unfold BasicHotstuffProtocol.storageConsensusNodePk at h
  split at h
  case isFalse => cases h
  case isTrue hlisting =>
    obtain ⟨nodes, hnodes, hnew⟩ := Option.bind_eq_some_iff.1 h
    obtain ⟨hsome, hapart⟩ := pairwise_of_listing hkeys hlisting
    obtain ⟨db, hfold, hin, -⟩ := foldlM_storeNode hsome hapart hnodes
    obtain ⟨⟨e', sent, hnew', rfl, hdb, hsent⟩, hsignal, -⟩ :=
      reproduces_newview (e := { e with db := db, consensusNodes := nodes }) hnew
    have hcall : e.storageConsensusNodePk X order (HashMap.ofEntries entries) me = some (e', sent) :=
      (if_pos hlisting).trans (Option.bind_eq_some_iff.2 ⟨_, hfold, hnew'⟩)
    refine ⟨e', sent, hcall, rfl, fun peer pkInfo hlookup ↦ ?_, hsent.sends, hsent.ends, hsent.mode⟩
    rw [hdb]
    exact hin (peer, pkInfo) ((HashMap.mem_listing hlisting).2 hlookup)

/-! ## Calls -/

/-- What the protocol does on one call the executor does on it, too. -/
theorem step_of_ported {call : Call} (hstored : Stored e.db r.consensusNodePks) (hcall : call.Apart)
    (h : BasicHotstuff.step X me (e.ported r) call.ported = some (p', answer)) :
    ∃ e' sent, step X me e call = some (e', sent) ∧ AnsweredAs X.toPlatform e e' sent answer ∧
      ∃ r', p' = e'.ported r' ∧ Stored e'.db r'.consensusNodePks := by
  have hkept {result : Option (Executor × List MessageType)} {c : Surplus}
      (hpks : c.consensusNodePks = r.consensusNodePks) (hresult : Reproduces X.toPlatform e c result p' answer) :
      ∃ e' sent, result = some (e', sent) ∧ AnsweredAs X.toPlatform e e' sent answer ∧
        ∃ r', p' = e'.ported r' ∧ Stored e'.db r'.consensusNodePks := by
    obtain ⟨e', sent, hstep, hprotocol, hdb, hsent⟩ := hresult
    exact ⟨e', sent, hstep, hsent, c, hprotocol, by rwa [hdb, hpks]⟩
  cases call with
  | viewTimeout =>
    obtain ⟨timeout, htimeout, hnew⟩ := Option.bind_eq_some_iff.1 h
    have hnewview := (reproduces_newview
      (e := { e with state := { e.state with currentViewTimeout := timeout } }) hnew).1
    obtain ⟨e', sent, hstep, hprotocol, hdb, hsent⟩ := hnewview
    exact hkept rfl ⟨e', sent, Option.bind_eq_some_iff.2 ⟨timeout, htimeout, hstep⟩, hprotocol, hdb,
      hsent.sends, hsent.ends, hsent.mode⟩
  | message msg order =>
    cases msg with
    | request msg =>
      obtain ⟨rfl, rfl⟩ := Prod.mk.inj (Option.some.inj h)
      exact hkept (c := { r with currentRequest := msg }) rfl ⟨e, _, rfl, rfl, rfl, rfl, rfl, rfl⟩
    | newView msg => exact hkept rfl (reproduces_handleNewview h)
    | prepare msg => exact hkept rfl (reproduces_handlePrepare h)
    | commit msg => exact hkept rfl (reproduces_handleCommit h)
    | preCommit msg => exact hkept rfl (reproduces_handlePrecommit h)
    | decide msg => exact hkept rfl (reproduces_handleDecide h)
    | prepareVote vote => exact hkept rfl (reproduces_handlePrepareVote hstored h)
    | commitVote vote => exact hkept rfl (reproduces_handleCommitVote hstored h)
    | preCommitVote vote => exact hkept rfl (reproduces_handlePrecommitVote hstored h)
    | «end» requestHash =>
      obtain ⟨rfl, rfl⟩ := Prod.mk.inj (Option.some.inj h)
      exact hkept rfl ⟨e, [], rfl, rfl, rfl, rfl, rfl, rfl⟩
    | tblsKey key =>
      obtain ⟨peer, hpeer, h⟩ := Option.bind_eq_some_iff.1 h
      obtain ⟨rfl, rfl⟩ := Prod.mk.inj (Option.some.inj h)
      have hstep : step X me e (.message (.tblsKey key) order) = some ({ e with keypair := some key }, []) := by
        simp only [step, messageHandler, storageTblsKey, bind, pure, hpeer, Option.bind_some, Option.map_some]
      exact hkept rfl ⟨_, [], hstep, rfl, rfl, rfl, rfl, rfl⟩
    | consensusNodePKsInfo entries =>
      obtain ⟨peer, hpeer, hstore⟩ := Option.bind_eq_some_iff.1 h
      obtain rfl := Platform.eq_of_peerIdFromBytes hpeer
      obtain ⟨e', sent, hstep, hprotocol, hstored', hsent⟩ :=
        reproduces_storageConsensusNodePk (e := e) (r := r) hcall hstore
      exact ⟨e', sent, hstep, hsent, _, hprotocol, hstored'⟩

/-- The protocol holds what the executor holds, and the same public keys. -/
def Corresponds (p : BasicHotstuffProtocol) (e : Executor) : Prop :=
  ∃ r, p = e.ported r ∧ Stored e.db r.consensusNodePks

theorem corresponds_new (f : UInt64) (peerId : String) :
    Corresponds (BasicHotstuffProtocol.new f peerId) (Executor.new f) := by
  refine ⟨⟨⟨"None"⟩, peerId, ∅, ∅⟩, rfl, ?_⟩
  intro peer pkInfo hlookup
  cases (Finmap.lookup_empty _).symm.trans hlookup

/-- A run of the protocol goes along with one of the executor. -/
theorem exec_of_ported {calls : List Call} {p₀ : BasicHotstuffProtocol} {e₀ : Executor}
    {run : List (Transition BasicHotstuffProtocol BasicHotstuff.Event Answer)} {p : BasicHotstuffProtocol}
    (hstart : Corresponds p₀ e₀) (hcalls : ∀ call ∈ calls, call.Apart)
    (h : exec (BasicHotstuff.step X me) p₀ (calls.map Call.ported) = some (run, p)) :
    ∃ run' e, exec (step X me) e₀ calls = some (run', e) ∧ Corresponds p e ∧
      List.Forall₂ (fun t t' ↦ (∃ r, t.post = t'.post.ported r) ∧
        AnsweredAs X.toPlatform t'.pre t'.post t'.out t.out) run run' := by
  have hstep (p : BasicHotstuffProtocol) (e : Executor) (call : Call) (p' : BasicHotstuffProtocol) (answer : Answer)
      (hrel : Corresponds p e) (hcall : call.Apart)
      (htaken : BasicHotstuff.step X me p call.ported = some (p', answer)) :
      ∃ e' sent, step X me e call = some (e', sent) ∧ Corresponds p' e' ∧
        (∃ r, p' = e'.ported r) ∧ AnsweredAs X.toPlatform e e' sent answer := by
    obtain ⟨r, rfl, hstored⟩ := hrel
    obtain ⟨e', sent, hstep, hsent, r', hprotocol, hstored'⟩ := step_of_ported hstored hcall htaken
    exact ⟨e', sent, hstep, ⟨r', hprotocol, hstored'⟩, ⟨r', hprotocol⟩, hsent⟩
  exact exec_of_stepwise _ Call.ported
    (fun t t' ↦ (∃ r, t.post = t'.post.ported r) ∧ AnsweredAs X.toPlatform t'.pre t'.post t'.out t.out)
    Call.Apart hstep hstart hcalls h

/-- Every run of the ported protocol is a run of the executor that it was ported from: on the same calls the executor
returns as well, in the same states, it sends the same messages to the same peers, ends the requests that the
protocol completes and turns to proposing where the protocol asks for the next request. -/
theorem reproduces_ported_run {calls : List Call} {f : UInt64} {peerId : String}
    {run : List (Transition BasicHotstuffProtocol BasicHotstuff.Event Answer)} {p : BasicHotstuffProtocol}
    (hcalls : ∀ call ∈ calls, call.Apart)
    (h : exec (BasicHotstuff.step X me) (BasicHotstuffProtocol.new f peerId) (calls.map Call.ported) =
      some (run, p)) :
    ∃ run' e, exec (step X me) (Executor.new f) calls = some (run', e) ∧ (∃ r, p = e.ported r) ∧
      List.Forall₂ (fun t t' ↦ (∃ r, t.post = t'.post.ported r) ∧
        AnsweredAs X.toPlatform t'.pre t'.post t'.out t.out) run run' := by
  obtain ⟨run', e, hexec, ⟨r, hprotocol, -⟩, halike⟩ := exec_of_ported (corresponds_new f peerId) hcalls h
  exact ⟨run', e, hexec, ⟨r, hprotocol⟩, halike⟩

end Executor

/-! ## The second of four nodes -/

def fourTable : List (Bytes × ConsensusNodePKInfo) := fourKeys.map pkInfoOf

/-- The first block, in the view that the second node leads. -/
def firstBlock : Block := { cmd := "a", parentHash := "" }

/-- The vote of a node, signed with its own share. -/
def fourVoteCall (phase : Phase) (node : Fin 4) : Executor.Call :=
  .message (voteMessage phase
    { viewNum := 1
      block := firstBlock
      partialSignature := (fourNodes.key .transparent node).sign BasicHotstuff.Externals.transparent.toBlsttc
        (asBytes (voteHash .transparent phase 1 firstBlock))
      fromPeerId := fourNodes.peerId node }) []

/-- The keys, a quorum of NewViews, a request, a quorum of votes of every phase and a timeout. -/
def leaderCalls : List Executor.Call :=
  [.message (.tblsKey (fourNodes.key .transparent 1)) [], .message (.consensusNodePKsInfo fourTable) fourTable] ++
    ([1, 3, 4].map fun id ↦ .message (.newView { viewNum := 0, justify := none, fromPeerId := [id] }) []) ++
    .message (.request ⟨"a"⟩) [] ::
      ([0, 1, 2].map (fourVoteCall .prepare) ++ [0, 1, 2].map (fourVoteCall .preCommit) ++
        [0, 1, 2].map (fourVoteCall .commit) ++ [.viewTimeout])

theorem reproduces_ported_run_leader :
    ∃ (run : List (Transition BasicHotstuffProtocol BasicHotstuff.Event Answer)) (p : BasicHotstuffProtocol)
      (run' : List (Transition Executor Executor.Call (List MessageType))) (e : Executor),
      exec (BasicHotstuff.step .transparent [2]) (BasicHotstuffProtocol.new 1 "")
        (leaderCalls.map Executor.Call.ported) = some (run, p) ∧
      run.length = 16 ∧
      exec (Executor.step .transparent [2]) (Executor.new 1) leaderCalls = some (run', e) ∧
      (∃ r, p = e.ported r) ∧
      List.Forall₂ (fun t t' ↦ (∃ r, t.post = t'.post.ported r) ∧
        AnsweredAs BasicHotstuff.Externals.transparent.toPlatform t'.pre t'.post t'.out t.out) run run' := by
  have happart : ∀ call ∈ leaderCalls, call.Apart := by decide +kernel
  have hexec : exec (BasicHotstuff.step .transparent [2]) (BasicHotstuffProtocol.new 1 "")
      (leaderCalls.map Executor.Call.ported) = some _ := exec_eq_of_isSome (by decide +kernel)
  obtain ⟨run', e, hexec', hprotocol, halike⟩ := Executor.reproduces_ported_run happart hexec
  exact ⟨_, _, run', e, hexec, by decide +kernel, hexec', hprotocol, halike⟩

end BFTDiagnosis.HotstuffNode
