import BFTDiagnosis.PbftExecutor.Executor

/-!
# What one call of the standalone executor does to its checkpoints

A Commit that completes its quorum adds one to the number of committed requests, and a CheckPoint is sent when
that is a multiple of fifty. A CheckPoint that completes its quorum sets the stable checkpoint. No other call
touches the two or announces one of them.
-/

namespace BFTDiagnosis.PbftExecutor

open Word
open Pbft (PrePrepare Prepare Commit CheckPoint PublicKey ProofMessages LogPhaseState)

def MessageType.checkpoint : MessageType → Option CheckPoint
  | .checkPoint msg => some msg
  | _ => none

/-- The number of the request that a Reply is about. -/
def MessageType.repliedNumber : MessageType → Option UInt64
  | .reply msg => some msg.number
  | _ => none

/-- The CheckPoints that are broadcast. -/
def sentCheckpoints (out : List MessageType) : List CheckPoint := out.filterMap MessageType.checkpoint

/-- The numbers of the requests that are committed, which are those that are replied to. -/
def committed (out : List MessageType) : List UInt64 := out.filterMap MessageType.repliedNumber

/-- The CheckPoint is the last one missing of the equal ones that make a checkpoint stable. -/
def Completes (n : Node) (msg : CheckPoint) : Prop :=
  n.log.getCheckpointCount msg.currentMaxNumber msg.checkpointStateDigest + 1 = 2 * n.state.faultToleranceCount.toNat

instance Completes.decidable (n : Node) (msg : CheckPoint) : Decidable (Completes n msg) :=
  inferInstanceAs (Decidable (_ = _))

/-- The Commit is the last one missing of the equal ones that commit its request. -/
structure CompletesCommit (X : Externals) (n : Node) (msg : Commit) : Prop where
  normal : n.state.mode = .normal
  checked : n.checkVote X msg.fromPeerId msg.signature (getMessageKey X (.commit msg)) msg.mHash .commited
    msg.view msg.number = some true
  known : n.requestOf X msg.number msg.mHash ≠ none
  count : n.log.getLocalMessagesCountByHash (getMessageKey X (.commit msg)) + 1 =
    2 * n.state.faultToleranceCount.toNat

/-- A call that is to commit a request. -/
def CommitsRequest (X : Externals) (t : Transition Node Event (List MessageType)) : Prop :=
  ∃ msg, t.event = .message (.commit msg) ∧ CompletesCommit X t.pre msg

/-- The number of the checkpoint that a call has made stable. -/
def stabilized (t : Transition Node Event (List MessageType)) : Option UInt64 :=
  match t.event with
  | .message (.checkPoint msg) => if Completes t.pre msg then some msg.currentMaxNumber else none
  | _ => none

/-- The sequence numbers that are accepted. -/
def InWindow (n : Node) (number : UInt64) : Prop :=
  n.state.stableCheckpoint.1.toNat < number.toNat ∧ number.toNat ≤ n.state.stableCheckpoint.1.toNat + 100

/-! ## What one call does -/

section Step

variable {X : Externals} {me : Bytes} {n n' : Node} {out : List MessageType}

/-- Neither the stable checkpoint nor the number of committed requests changes, and none is announced. -/
structure Quiet (n n' : Node) (out : List MessageType) : Prop where
  stable : n'.state.stableCheckpoint = n.state.stableCheckpoint
  count : n'.state.currentCommitedRequestCount = n.state.currentCommitedRequestCount
  checkpoints : sentCheckpoints out = []
  replies : committed out = []

/-- One request is committed, and a CheckPoint is sent when they are a multiple of fifty by then. -/
structure Commits (n n' : Node) (out : List MessageType) : Prop where
  stable : n'.state.stableCheckpoint = n.state.stableCheckpoint
  count : n'.state.currentCommitedRequestCount.toNat = n.state.currentCommitedRequestCount.toNat + 1
  replies : ∃ number, committed out = [number] ∧ InWindow n number
  checkpoints : if 50 ∣ n'.state.currentCommitedRequestCount.toNat then
      ∃ msg, sentCheckpoints out = [msg] ∧ msg.currentMaxNumber.toNat = n.state.stableCheckpoint.1.toNat + 50
    else sentCheckpoints out = []

/-- A handler that returns early. -/
theorem Quiet.of_return (h : some (n, []) = some (n', out)) : Quiet n n' out := by
  obtain ⟨rfl, rfl⟩ := Prod.mk.inj (Option.some.inj h)
  exact ⟨rfl, rfl, rfl, rfl⟩

/-- A handler that only writes to the log is followed by what it goes on with. -/
theorem Quiet.of_log {log : NodeLog} (h : Quiet { n with log := log } n' out) : Quiet n n' out :=
  ⟨h.stable, h.count, h.checkpoints, h.replies⟩

theorem Commits.of_log {log : NodeLog} (h : Commits { n with log := log } n' out) : Commits n n' out :=
  ⟨h.stable, h.count, h.replies, h.checkpoints⟩

theorem handleRequest_quiet {request : Request} (h : n.handleRequest X me request = some (n', out)) :
    Quiet n n' out := by
  obtain ⟨number, -, h⟩ := Option.bind_eq_some_iff.1 h
  obtain ⟨rfl, rfl⟩ := Prod.mk.inj (Option.some.inj h)
  exact ⟨rfl, rfl, rfl, rfl⟩

theorem handlePreprepare_quiet {msg : PrePrepare} (h : n.handlePreprepare X me msg = some (n', out)) :
    Quiet n n' out := by
  obtain ⟨signed, -, h⟩ := Option.bind_eq_some_iff.1 h
  split at h
  · exact .of_return h
  obtain ⟨inWindow, -, h⟩ := Option.bind_eq_some_iff.1 h
  split at h
  · exact .of_return h
  split at h
  · exact .of_return h
  obtain ⟨m, -, h⟩ := Option.bind_eq_some_iff.1 h
  obtain ⟨rfl, rfl⟩ := Prod.mk.inj (Option.some.inj h)
  exact ⟨rfl, rfl, rfl, rfl⟩

theorem handlePrepare_quiet {msg : Prepare} (h : n.handlePrepare X me msg = some (n', out)) : Quiet n n' out := by
  obtain ⟨checked, -, h⟩ := Option.bind_eq_some_iff.1 h
  split at h
  · exact .of_return h
  split at h
  · exact .of_return h
  obtain ⟨threshold, -, h⟩ := Option.bind_eq_some_iff.1 h
  split at h
  · obtain ⟨rfl, rfl⟩ := Prod.mk.inj (Option.some.inj h)
    exact ⟨rfl, rfl, rfl, rfl⟩
  · exact .of_log (.of_return h)

theorem handleReply_quiet {msg : Reply} (h : n.handleReply X msg = some (n', out)) : Quiet n n' out := by
  unfold Node.handleReply at h
  split at h
  · exact .of_return h
  obtain ⟨signed, -, h⟩ := Option.bind_eq_some_iff.1 h
  split at h
  · exact .of_return h
  obtain ⟨threshold, -, h⟩ := Option.bind_eq_some_iff.1 h
  split at h
  · split at h
    · obtain ⟨rfl, rfl⟩ := Prod.mk.inj (Option.some.inj h)
      exact ⟨rfl, rfl, rfl, rfl⟩
    · cases h
  · exact .of_log (.of_return h)

theorem broadcastViewchange_quiet (h : n.broadcastViewchange X me = some (n', out)) : Quiet n n' out := by
  unfold Node.broadcastViewchange at h
  split at h
  · exact .of_return h
  obtain ⟨threshold, -, h⟩ := Option.bind_eq_some_iff.1 h
  obtain ⟨proofMessages, -, h⟩ := Option.bind_eq_some_iff.1 h
  obtain ⟨newView, -, h⟩ := Option.bind_eq_some_iff.1 h
  obtain ⟨rfl, rfl⟩ := Prod.mk.inj (Option.some.inj h)
  exact ⟨rfl, rfl, rfl, rfl⟩

theorem handleViewchange_quiet {msg : ViewChange MessageType}
    (h : n.handleViewchange X me msg = some (n', out)) : Quiet n n' out := by
  unfold Node.handleViewchange at h
  split at h
  · exact .of_return h
  dsimp only at h
  split at h
  · exact .of_log (broadcastViewchange_quiet h)
  obtain ⟨quorum, -, h⟩ := Option.bind_eq_some_iff.1 h
  split at h
  · obtain ⟨newview, -, h⟩ := Option.bind_eq_some_iff.1 h
    obtain ⟨rfl, rfl⟩ := Prod.mk.inj (Option.some.inj h)
    exact ⟨rfl, rfl, rfl, rfl⟩
  · exact .of_log (.of_return h)

theorem handleNewview_quiet {msg : NewView MessageType} (h : n.handleNewview X me msg = some (n', out)) :
    Quiet n n' out := by
  obtain ⟨valid, -, h⟩ := Option.bind_eq_some_iff.1 h
  split at h
  · exact .of_return h
  obtain ⟨rfl, rfl⟩ := Prod.mk.inj (Option.some.inj h)
  refine ⟨rfl, rfl, ?_, ?_⟩
  · rw [sentCheckpoints, List.filterMap_map]
    exact List.filterMap_eq_nil_iff.2 fun _ _ ↦ rfl
  · rw [committed, List.filterMap_map]
    exact List.filterMap_eq_nil_iff.2 fun _ _ ↦ rfl

theorem storagePublicKeyByPeerId_quiet {key : PublicKey}
    (h : n.storagePublicKeyByPeerId X key = some (n', out)) : Quiet n n' out := by
  obtain ⟨entry, -, h⟩ := Option.bind_eq_some_iff.1 h
  obtain ⟨peer, -, h⟩ := Option.bind_eq_some_iff.1 h
  obtain ⟨rfl, rfl⟩ := Prod.mk.inj (Option.some.inj h)
  exact ⟨rfl, rfl, rfl, rfl⟩

theorem getCheckpointCount_recordCheckpoint (log : NodeLog) (msg : CheckPoint) :
    (log.recordCheckpoint msg).getCheckpointCount msg.currentMaxNumber msg.checkpointStateDigest =
      log.getCheckpointCount msg.currentMaxNumber msg.checkpointStateDigest + 1 := by
  simp only [NodeLog.getCheckpointCount, NodeLog.recordCheckpoint, HashMap.listAt_pushAt_self, List.length_append,
    List.length_singleton]

/-- A CheckPoint sets the stable checkpoint when it is the last one missing, and else it is only logged. -/
theorem handleCheckpoint_cases {msg : CheckPoint} (h : n.handleCheckpoint X msg = some (n', out)) :
    sentCheckpoints out = [] ∧ committed out = [] ∧
      n'.state.currentCommitedRequestCount = n.state.currentCommitedRequestCount ∧
      n'.state.stableCheckpoint.1 =
        if Completes n msg then msg.currentMaxNumber else n.state.stableCheckpoint.1 := by
  obtain ⟨threshold, hthreshold, h⟩ := Option.bind_eq_some_iff.1 h
  have htwice := toNat_of_checkedMul hthreshold
  have hcompletes : Completes n msg ↔ (n.log.recordMessageHandler X (.checkPoint msg)).getCheckpointCount
      msg.currentMaxNumber msg.checkpointStateDigest = threshold.toNat := by
    rw [Completes, htwice]
    exact Eq.congr_left (getCheckpointCount_recordCheckpoint n.log msg).symm
  rw [if_congr hcompletes rfl rfl]
  split at h
  case isTrue hcount =>
    obtain ⟨rfl, rfl⟩ := Prod.mk.inj (Option.some.inj h)
    exact ⟨rfl, rfl, rfl, (if_pos hcount).symm⟩
  case isFalse hcount =>
    obtain ⟨rfl, rfl⟩ := Prod.mk.inj (Option.some.inj h)
    exact ⟨rfl, rfl, rfl, (if_neg hcount).symm⟩

/-- A CheckPoint is due when the number of committed requests is a positive multiple of fifty. -/
theorem dueCheckpoints_cases {due : List MessageType} (hpos : 0 < n.state.currentCommitedRequestCount.toNat)
    (h : n.dueCheckpoints me = some due) :
    committed due = [] ∧ if 50 ∣ n.state.currentCommitedRequestCount.toNat then
        ∃ msg, sentCheckpoints due = [msg] ∧ msg.currentMaxNumber.toNat = n.state.stableCheckpoint.1.toNat + 50
      else sentCheckpoints due = [] := by
  have hmultiple : (n.state.currentCommitedRequestCount ≠ 0 ∧
      n.state.currentCommitedRequestCount % stableCheckpointDelta = 0) ↔
        50 ∣ n.state.currentCommitedRequestCount.toNat := by
    rw [Nat.dvd_iff_mod_eq_zero, Ne, ← UInt64.toNat_inj, ← UInt64.toNat_inj, UInt64.toNat_mod]
    exact and_iff_right hpos.ne'
  unfold Node.dueCheckpoints at h
  rw [if_congr hmultiple rfl rfl] at h
  split at h
  case isTrue hdvd =>
    obtain ⟨msg, hmsg, rfl⟩ := Option.map_eq_some_iff.1 h
    obtain ⟨number, hnumber, hfields⟩ := Option.bind_eq_some_iff.1 hmsg
    obtain rfl := Option.some.inj hfields
    rw [if_pos hdvd]
    exact ⟨rfl, _, rfl, toNat_of_checkedAdd hnumber⟩
  case isFalse hnot =>
    obtain rfl := Option.some.inj h
    rw [if_neg hnot]
    exact ⟨rfl, rfl⟩

theorem completeCommit_commits {msg : Commit} {m : Request} (hwindow : InWindow n msg.number)
    (h : n.completeCommit X me msg m = some (n', out)) : Commits n n' out := by
  obtain ⟨count, hcount, h⟩ := Option.bind_eq_some_iff.1 h
  obtain ⟨due, hdue, h⟩ := Option.bind_eq_some_iff.1 h
  obtain ⟨rfl, rfl⟩ := Prod.mk.inj (Option.some.inj h)
  have hnext : count.toNat = n.state.currentCommitedRequestCount.toNat + 1 := toNat_of_checkedAdd hcount
  obtain ⟨hreplies, hcheckpoints⟩ := dueCheckpoints_cases (hnext ▸ Nat.succ_pos _) hdue
  refine ⟨rfl, hnext, ⟨msg.number, ?_, hwindow⟩, ?_⟩
  · rw [committed, List.filterMap_append]
    exact congrArg (· ++ [msg.number]) hreplies
  · have hreply : sentCheckpoints (due ++ [.reply (n.signedReply X me msg m)]) = sentCheckpoints due := by
      rw [sentCheckpoints, List.filterMap_append]
      exact List.append_nil _
    exact hreply ▸ hcheckpoints

theorem inWindow_of_checkSequenceNumber {number : UInt64} (h : n.checkSequenceNumber number = some true) :
    InWindow n number := by
  obtain ⟨high, hhigh, h⟩ := Option.bind_eq_some_iff.1 h
  have hbounds := Option.some.inj h
  simp only [Bool.not_eq_true', Bool.or_eq_false_iff, decide_eq_false_iff_not, UInt64.lt_iff_toNat_lt,
    UInt64.le_iff_toNat_le, toNat_of_checkedAdd hhigh] at hbounds
  exact ⟨Nat.not_le.1 hbounds.1, Nat.not_lt.1 hbounds.2⟩

theorem checkSequenceNumber_of_checkVote {fromPeerId signature : Bytes} {keyStr mHash : String}
    {done : LogPhaseState} {view number : UInt64}
    (h : n.checkVote X fromPeerId signature keyStr mHash done view number = some true) :
    n.checkSequenceNumber number = some true := by
  obtain ⟨signed, -, h⟩ := Option.bind_eq_some_iff.1 h
  split at h
  · cases h
  split at h
  · cases h
  obtain ⟨inWindow, hwindow, h⟩ := Option.bind_eq_some_iff.1 h
  rw [hwindow, (Bool.and_eq_true_iff.1 (Option.some.inj h)).1]

/-- A Commit that completes the quorum commits its request, any other one is at most logged. -/
theorem handleCommit_cases {msg : Commit} (hmode : n.state.mode = .normal)
    (h : n.handleCommit X me msg = some (n', out)) :
    (CompletesCommit X n msg ∧ Commits n n' out) ∨ (¬ CompletesCommit X n msg ∧ Quiet n n' out) := by
  obtain ⟨checked, hchecked, h⟩ := Option.bind_eq_some_iff.1 h
  split at h
  case isTrue hfailed =>
    refine .inr ⟨fun hcompletes ↦ ?_, .of_return h⟩
    rw [Option.some.inj (hchecked.symm.trans hcompletes.checked)] at hfailed
    cases hfailed
  case isFalse hpassed =>
    rw [Bool.not_eq_true', Bool.not_eq_false] at hpassed
    subst hpassed
    split at h
    case h_1 hunknown => exact .inr ⟨fun hcompletes ↦ hcompletes.known hunknown, .of_return h⟩
    case h_2 m hm =>
      obtain ⟨threshold, hthreshold, h⟩ := Option.bind_eq_some_iff.1 h
      have htwice : threshold.toNat = 2 * n.state.faultToleranceCount.toNat := toNat_of_checkedMul hthreshold
      have hgrown : (n.log.recordMessageHandler X (.commit msg)).getLocalMessagesCountByHash
          (getMessageKey X (.commit msg)) =
            n.log.getLocalMessagesCountByHash (getMessageKey X (.commit msg)) + 1 := by
        simp only [NodeLog.getLocalMessagesCountByHash, NodeLog.recordMessageHandler, NodeLog.recordKeyed,
          HashMap.listAt_pushAt_self, List.length_append, List.length_singleton]
      dsimp only at h
      rw [hgrown, htwice] at h
      split at h
      case isTrue hcount =>
        have hwindow : InWindow { n with log := n.log.recordMessageHandler X (.commit msg) } msg.number :=
          inWindow_of_checkSequenceNumber (n := n) (checkSequenceNumber_of_checkVote hchecked)
        refine .inl ⟨⟨hmode, hchecked, ?_, hcount⟩, .of_log (completeCommit_commits hwindow h)⟩
        rw [hm]
        exact Option.some_ne_none m
      case isFalse hcount => exact .inr ⟨fun hcompletes ↦ hcount hcompletes.count, .of_log (.of_return h)⟩

/-- What one call does to the stable checkpoint and the number of committed requests, and what it announces. -/
structure Outcome (X : Externals) (t : Transition Node Event (List MessageType)) : Prop where
  stable : t.post.state.stableCheckpoint.1 = (stabilized t).getD t.pre.state.stableCheckpoint.1
  count : t.post.state.currentCommitedRequestCount.toNat =
    t.pre.state.currentCommitedRequestCount.toNat + (committed t.out).length
  replies : (CommitsRequest X t ∧ ∃ number, committed t.out = [number] ∧ InWindow t.pre number) ∨
    (¬ CommitsRequest X t ∧ committed t.out = [])
  checkpoints : (CommitsRequest X t ∧ 50 ∣ t.post.state.currentCommitedRequestCount.toNat ∧
      ∃ msg, sentCheckpoints t.out = [msg] ∧
        msg.currentMaxNumber.toNat = t.pre.state.stableCheckpoint.1.toNat + 50) ∨
    (¬ (CommitsRequest X t ∧ 50 ∣ t.post.state.currentCommitedRequestCount.toNat) ∧ sentCheckpoints t.out = [])

theorem Quiet.outcome {event : Event} (h : Quiet n n' out) (hcommits : ¬ CommitsRequest X ⟨n, event, out, n'⟩)
    (hstabilized : stabilized ⟨n, event, out, n'⟩ = none) : Outcome X ⟨n, event, out, n'⟩ where
  stable := by rw [hstabilized, h.stable, Option.getD_none]
  count := by rw [h.count, h.replies, List.length_nil, Nat.add_zero]
  replies := .inr ⟨hcommits, h.replies⟩
  checkpoints := .inr ⟨fun hdue ↦ hcommits hdue.1, h.checkpoints⟩

theorem Commits.outcome {msg : Commit} (h : Commits n n' out) (hcompletes : CompletesCommit X n msg) :
    Outcome X ⟨n, .message (.commit msg), out, n'⟩ where
  stable := congrArg Prod.fst h.stable
  count := by
    obtain ⟨number, hreplies, -⟩ := h.replies
    rw [h.count, hreplies, List.length_singleton]
  replies := .inl ⟨⟨msg, rfl, hcompletes⟩, h.replies⟩
  checkpoints := by
    have hcheckpoints := h.checkpoints
    split at hcheckpoints
    case isTrue hdvd => exact .inl ⟨⟨msg, rfl, hcompletes⟩, hdvd, hcheckpoints⟩
    case isFalse hnot => exact .inr ⟨fun hdue ↦ hnot hdue.2, hcheckpoints⟩

theorem handleCheckpoint_outcome {msg : CheckPoint} (h : n.handleCheckpoint X msg = some (n', out)) :
    Outcome X ⟨n, .message (.checkPoint msg), out, n'⟩ := by
  obtain ⟨hcheckpoints, hreplies, hcount, hstable⟩ := handleCheckpoint_cases h
  have hcommits : ¬ CommitsRequest X ⟨n, .message (.checkPoint msg), out, n'⟩ := by
    rintro ⟨msg', hevent, -⟩
    cases hevent
  refine ⟨?_, ?_, .inr ⟨hcommits, hreplies⟩, .inr ⟨fun hdue ↦ hcommits hdue.1, hcheckpoints⟩⟩
  · show n'.state.stableCheckpoint.1 = (stabilized ⟨n, .message (.checkPoint msg), out, n'⟩).getD _
    rw [hstable]
    simp only [stabilized]
    split <;> rfl
  · show n'.state.currentCommitedRequestCount.toNat = _ + (committed out).length
    rw [hcount, hreplies, List.length_nil, Nat.add_zero]

/-- A call that is not about a Commit or a CheckPoint. -/
theorem Quiet.outcome_of_event {event : Event} (hcommit : ∀ msg, event ≠ .message (.commit msg))
    (hcheckpoint : ∀ msg, event ≠ .message (.checkPoint msg)) (h : Quiet n n' out) :
    Outcome X ⟨n, event, out, n'⟩ := by
  have hcommits : ¬ CommitsRequest X ⟨n, event, out, n'⟩ := fun ⟨msg, hevent, _⟩ ↦ hcommit msg hevent
  refine h.outcome hcommits ?_
  unfold stabilized
  split
  case h_1 msg hevent => exact absurd hevent (hcheckpoint msg)
  case h_2 => rfl

theorem messageHandler_outcome {msg : MessageType} (h : n.messageHandler X me msg = some (n', out)) :
    Outcome X ⟨n, .message msg, out, n'⟩ := by
  unfold Node.messageHandler at h
  split at h
  case h_1 hmode =>
    cases msg with
    | request m => exact (handleRequest_quiet h).outcome_of_event nofun nofun
    | prePrepare m => exact (handlePreprepare_quiet h).outcome_of_event nofun nofun
    | prepare m => exact (handlePrepare_quiet h).outcome_of_event nofun nofun
    | commit m =>
      rcases handleCommit_cases hmode h with ⟨hcompletes, hcommits⟩ | ⟨hnot, hquiet⟩
      · exact hcommits.outcome hcompletes
      · refine hquiet.outcome ?_ rfl
        rintro ⟨msg, hevent, hcompletes⟩
        cases hevent
        exact hnot hcompletes
    | reply m => exact (handleReply_quiet h).outcome_of_event nofun nofun
    | checkPoint m => exact handleCheckpoint_outcome h
    | viewChange m => exact (handleViewchange_quiet h).outcome_of_event nofun nofun
    | newView m => exact (handleNewview_quiet h).outcome_of_event nofun nofun
    | publicKey m => exact (storagePublicKeyByPeerId_quiet h).outcome_of_event nofun nofun
    | distributePK =>
      obtain ⟨rfl, rfl⟩ := Prod.mk.inj (Option.some.inj h)
      exact Quiet.outcome_of_event nofun nofun ⟨rfl, rfl, rfl, rfl⟩
  case h_2 hmode =>
    -- nothing is committed while the view is being changed
    have hcommits : ¬ CommitsRequest X ⟨n, .message msg, out, n'⟩ := fun ⟨_, _, hcompletes⟩ ↦ by
      rw [hcompletes.normal] at hmode
      cases hmode
    cases msg with
    | checkPoint m => exact handleCheckpoint_outcome h
    | viewChange m => exact (handleViewchange_quiet h).outcome hcommits rfl
    | newView m => exact (handleNewview_quiet h).outcome hcommits rfl
    | request m | prePrepare m | prepare m | commit m | reply m | publicKey m | distributePK =>
      exact (Quiet.of_return h).outcome hcommits rfl

theorem step_outcome {event : Event} (h : step X me n event = some (n', out)) : Outcome X ⟨n, event, out, n'⟩ := by
  cases event with
  | message msg => exact messageHandler_outcome h
  | viewchangeNotified => exact (broadcastViewchange_quiet h).outcome_of_event nofun nofun

end Step

end BFTDiagnosis.PbftExecutor
