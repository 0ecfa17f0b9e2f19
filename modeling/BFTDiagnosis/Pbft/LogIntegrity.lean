import BFTDiagnosis.Pbft.QuorumDistinct

/-!
# What the PBFT log holds, and what a rejected message leaves behind

A Prepare or a Commit is logged only after its handler has compared it with the request logged for
its number, and that request stays until the log as a whole is cleared, by a completed request or by
a completed round of Replies. So every logged vote belongs to the request that is logged now.

A message that its handler rejects should leave no trace. This holds for votes and Replies, which are
checked first; `handle_preprepare` has already marked the request as taken and the sender as primary
when its checks begin.
-/

namespace BFTDiagnosis.Pbft

open Components Word PBFTProtocol

variable {X : Externals}

abbrev PbftRun := List (Transition PBFTProtocol Event Answer)

/-! ## Logged requests -/

theorem lookup_recordRequest_of_logged {log : ConsensusLog} {number number' : UInt64}
    {request request' : Request} (h : log.requests.lookup number = some request) :
    (log.recordRequest number' request').requests.lookup number = some request := by
  unfold ConsensusLog.recordRequest
  split
  case isTrue => exact h
  case isFalse hfresh =>
    have hne : number ≠ number' := by
      intro heq
      exact hfresh (heq ▸ Finmap.mem_of_lookup_eq_some h)
    rwa [Finmap.lookup_insert_of_ne _ hne]

/-- The log as a completed request or a completed round leaves it. -/
structure ConsensusLog.Cleared (log : ConsensusLog) : Prop where
  requests : log.requests = ∅
  messages : log.messages = ∅
  requestPhaseState : log.requestPhaseState = ∅

/-- A completed request and a completed round clear the log. -/
def resetsLog : Answer → Bool
  | .complete _ _ => true
  | .over _ => true
  | _ => false

section Step

variable {me : Bytes} {p p' : PBFTProtocol} {event : Event} {out : Answer}

theorem step_cleared (h : step X me p event = some (p', out)) (hreset : resetsLog out = true) :
    p'.log.Cleared := by
  cases step_effect h with
  | commitQuorum => exact ⟨rfl, rfl, rfl⟩
  | replyQuorum => exact ⟨rfl, rfl, rfl⟩
  | _ => cases hreset

/-- A logged request stays until the log is cleared. -/
theorem step_requests_kept (h : step X me p event = some (p', out)) (hreset : resetsLog out = false)
    {number : UInt64} {request : Request} (hlogged : p.log.requests.lookup number = some request) :
    p'.log.requests.lookup number = some request := by
  cases step_effect h with
  | request request number preprepare hnumber => exact lookup_recordRequest_of_logged hlogged
  | preprepare msg request hjson haccepted => exact lookup_recordRequest_of_logged hlogged
  | commitQuorum => cases hreset
  | replyQuorum => cases hreset
  | newview msg =>
    rw [← hlogged]
    exact congrArg (Finmap.lookup number)
      (recordPreprepares_requests msg.preprepares p.log.clearCurrentRequest)
  | _ => exact hlogged

end Step

/-! ## Logged votes -/

/-- The number and the request hash that a Prepare or a Commit carries. -/
def MessageType.votedRequest : MessageType → Option (UInt64 × String)
  | .prepare msg => some (msg.number, msg.mHash)
  | .commit msg => some (msg.number, msg.mHash)
  | _ => none

/-- The request logged for the number has this hash. -/
def LoggedRequest (X : Externals) (p : PBFTProtocol) (number : UInt64) (mHash : String) : Prop :=
  ∃ request, p.log.requests.lookup number = some request ∧ requestHash X request = mHash

/-- Every Prepare and Commit in the log stands under its key, is signed by a registered key, and is
for the request that is logged for its number. -/
structure LogIntegrity (X : Externals) (p : PBFTProtocol) : Prop where
  keyed : ∀ key, ∀ vote ∈ p.log.messages.listAt key, vote.votedRequest.isSome = true →
    getMessageKey X vote = key
  signed : ∀ key, ∀ vote ∈ p.log.messages.listAt key, vote.votedRequest.isSome = true →
    ValidlySigned X p vote
  logged : ∀ key, ∀ vote ∈ p.log.messages.listAt key, ∀ entry ∈ vote.votedRequest,
    LoggedRequest X p entry.1 entry.2

theorem votedRequest_prePrepare (msg : PrePrepare) :
    (MessageType.prePrepare msg).votedRequest = none := rfl

/-- An accepted vote is for the request logged for its number. -/
theorem acceptedVote_logged {p : PBFTProtocol} {event : Event} {vote : MessageType}
    (h : acceptedVote X p event = some vote) :
    ∀ entry ∈ vote.votedRequest, LoggedRequest X p entry.1 entry.2 := by
  intro entry hentry
  rcases acceptedVote_cases h with ⟨msg, -, rfl, haccepted⟩ | ⟨msg, -, rfl, haccepted⟩
  · rw [← Option.some.inj hentry]
    exact (verifyPrepare_eq_true haccepted).2.2.2
  · rw [← Option.some.inj hentry]
    exact (verifyCommit_eq_true haccepted).2.2.2

section Step

variable {me : Bytes} {p p' : PBFTProtocol} {event : Event} {out : Answer}

/-- A vote that is in the log after a call was there before it, or is accepted by it. -/
theorem step_logged_vote (h : step X me p event = some (p', out)) {key : String} {vote : MessageType}
    (hmem : vote ∈ p'.log.messages.listAt key) (hvote : vote.votedRequest.isSome = true) :
    vote ∈ p.log.messages.listAt key ∨
      (acceptedVote X p event = some vote ∧ key = getMessageKey X vote) := by
  generalize hafter : p'.log.messages.listAt key = after at hmem
  cases hafter ▸ step_messages h key with
  | cleared => cases hmem
  | preprepares extra hextra =>
    rcases List.mem_append.1 hmem with hold | hnew
    · exact .inl hold
    · obtain ⟨preprepare, rfl, -⟩ := hextra vote hnew
      rw [votedRequest_prePrepare] at hvote
      cases hvote
  | vote msg haccepted hkey =>
    rcases List.mem_append.1 hmem with hold | hnew
    · exact .inl hold
    · rw [List.mem_singleton.1 hnew]
      exact .inr ⟨haccepted, hkey⟩

theorem LogIntegrity.step (htaken : step X me p event = some (p', out)) (h : LogIntegrity X p) :
    LogIntegrity X p' where
  keyed := by
    intro key vote hmem hvote
    rcases step_logged_vote htaken hmem hvote with hold | ⟨-, hkey⟩
    · exact h.keyed key vote hold hvote
    · exact hkey.symm
  signed := by
    intro key vote hmem hvote
    rcases step_logged_vote htaken hmem hvote with hold | ⟨haccepted, -⟩
    · exact (h.signed key vote hold hvote).step htaken
    · exact (acceptedVote_signed haccepted).step htaken
  logged := by
    intro key vote hmem entry hentry
    cases hreset : resetsLog out with
    | true =>
      rw [(step_cleared htaken hreset).messages, HashMap.listAt_empty] at hmem
      cases hmem
    | false =>
      have hbefore : LoggedRequest X p entry.1 entry.2 := by
        rcases step_logged_vote htaken hmem (Option.isSome_of_mem hentry) with hold | ⟨haccepted, -⟩
        · exact h.logged key vote hold entry hentry
        · exact acceptedVote_logged haccepted entry hentry
      obtain ⟨request, hlogged, hhash⟩ := hbefore
      exact ⟨request, step_requests_kept htaken hreset hlogged, hhash⟩

end Step

/-- A request completes as it is logged for the number of the Commit that completes it, and with the
hash that this Commit and every Commit recorded for the number carry. -/
def CompletesLogged (X : Externals) (t : Transition PBFTProtocol Event Answer) : Prop :=
  ∀ request queue, t.out = .complete request queue →
    ∃ commit, t.event = .message (.commit commit) ∧
      t.pre.log.requests.lookup commit.number = some request ∧
      requestHash X request = commit.mHash ∧
      ∀ key recorded, .commit recorded ∈ t.pre.log.messages.listAt key →
        recorded.number = commit.number → requestHash X request = recorded.mHash

theorem LogIntegrity.completesLogged {me : Bytes} {t : Transition PBFTProtocol Event Answer}
    (htaken : Pbft.step X me t.pre t.event = some (t.post, t.out)) (h : LogIntegrity X t.pre) :
    CompletesLogged X t := by
  intro request queue hout
  rw [hout] at htaken
  obtain ⟨commit, hevent, haccepted, hrequest, -⟩ := step_complete htaken
  obtain ⟨request', hlogged, hhash⟩ := (verifyCommit_eq_true haccepted).2.2.2
  obtain rfl : request = request' := Option.some.inj (hrequest.symm.trans hlogged)
  refine ⟨commit, hevent, hrequest, hhash, ?_⟩
  intro key recorded hmem hnumber
  obtain ⟨request', hrecorded, hhash'⟩ := h.logged key _ hmem (recorded.number, recorded.mHash) rfl
  rw [hnumber, hrequest] at hrecorded
  rw [Option.some.inj hrecorded]
  exact hhash'

/-- The log keeps its integrity along every run, and so completes only what it has logged. -/
theorem logIntegrity_of_isRun {f : UInt64} {keypair me : Bytes} {run : PbftRun} {p : PBFTProtocol}
    (hrun : IsRun (step X me) (PBFTProtocol.new f keypair) run p) :
    LogIntegrity X p ∧ ∀ t ∈ run, CompletesLogged X t := by
  have hinitial : LogIntegrity X (PBFTProtocol.new f keypair) := by
    have hempty (key : String) : (PBFTProtocol.new f keypair).log.messages.listAt key = [] :=
      HashMap.listAt_empty key
    refine ⟨?_, ?_, ?_⟩ <;>
    · intro key vote hmem
      rw [hempty key] at hmem
      cases hmem
  have hstep : ∀ t : Transition PBFTProtocol Event Answer, LogIntegrity X t.pre → True →
      step X me t.pre t.event = some (t.post, t.out) → LogIntegrity X t.post :=
    fun t h _ htaken ↦ h.step htaken
  have hpre := IsRun.invariant_pre_of_forall _ hinitial hstep hrun fun _ _ ↦ trivial
  refine ⟨IsRun.invariant_of_forall _ hinitial hstep hrun fun _ _ ↦ trivial, ?_⟩
  intro t ht
  exact (hpre t ht).completesLogged (hrun.taken t ht)

/-- The request that an answer reports as completed. -/
def completedRequest : Answer → Option Request
  | .complete request _ => some request
  | _ => none

/-- One request is completed, and then proposed and prepared again. -/
def reopenedEvents : List Event :=
  roundEvents.take 8 ++
    [.message (.prePrepare (roundPreprepare [2] ⟨"a"⟩)), .message (.prepare (roundPrepare [2] ⟨"a"⟩))]

theorem logIntegrity_of_isRun_round :
    ∃ run p, IsRun (step .transparent [1]) (PBFTProtocol.new 1 [1]) run p ∧
      run.filterMap (completedRequest ·.out) = [⟨"a"⟩] ∧
      (p.log.messages.listAt (getMessageKey .transparent (.prepare (roundPrepare [2] ⟨"a"⟩)))).length = 1 ∧
      LogIntegrity .transparent p ∧ ∀ t ∈ run, CompletesLogged .transparent t := by
  have hrun : IsRun (step .transparent [1]) (PBFTProtocol.new 1 [1])
      (transitions (step .transparent [1]) (PBFTProtocol.new 1 [1]) reopenedEvents) _ :=
    .of_isSome (by decide +kernel)
  exact ⟨_, _, hrun, by decide +kernel, by decide +kernel, logIntegrity_of_isRun hrun⟩

/-! ## Rejected messages -/

/-- The handler of the message turns it down at one of its checks. A PrePrepare is read before it is
checked, so one whose request cannot be read is not rejected: the handler panics on it. -/
def Rejects (X : Externals) (p : PBFTProtocol) : MessageType → Prop
  | .prePrepare msg =>
    (X.requestOfJson msg.m).isSome = true ∧ p.verifyPreprepare X msg = some false
  | .prepare msg => p.verifyPrepare X msg = some false
  | .commit msg => p.verifyCommit X msg = some false
  | .reply msg => p.verifyReply X msg = some false
  | _ => False

/-- A PrePrepare comes from the known primary and is for a request that is taken already. -/
def TakenAlready (X : Externals) (p : PBFTProtocol) : MessageType → Prop
  | .prePrepare msg => msg.fromPeerId = p.state.primary ∧
      ∀ request ∈ X.requestOfJson msg.m, X.requestBytes request ∈ p.takenRequests
  | _ => True

/-- Taking a PrePrepare changes nothing exactly when it was taken already. -/
theorem takePreprepare_eq_self_iff {p : PBFTProtocol} {msg : PrePrepare} {request : Request} :
    p.takePreprepare X msg request = p ↔
      msg.fromPeerId = p.state.primary ∧ X.requestBytes request ∈ p.takenRequests := by
  constructor
  · intro h
    have hprimary := congrArg (fun p : PBFTProtocol ↦ p.state.primary) h
    have htaken := congrArg PBFTProtocol.takenRequests h
    exact ⟨hprimary, Finset.insert_eq_self.1 htaken⟩
  · rintro ⟨hprimary, htaken⟩
    unfold takePreprepare
    rw [hprimary, Finset.insert_eq_of_mem htaken]

theorem handlePreprepare_of_rejected {p : PBFTProtocol} {me : Bytes} {msg : PrePrepare}
    {request : Request} (hjson : X.requestOfJson msg.m = some request)
    (h : p.verifyPreprepare X msg = some false) :
    p.handlePreprepare X me msg = some (p.takePreprepare X msg request, silent) := by
  -- The checks read neither the taken requests nor the primary.
  have hrejected : (p.takePreprepare X msg request).verifyPreprepare X msg = some false := h
  simp only [handlePreprepare, hjson, hrejected, bind, pure, Option.bind_some, Bool.false_eq_true,
    if_false]

theorem handlePrepare_of_rejected {p : PBFTProtocol} {me : Bytes} {msg : Prepare}
    (h : p.verifyPrepare X msg = some false) : p.handlePrepare X me msg = some (p, silent) := by
  simp only [handlePrepare, h, bind, pure, Option.bind_some, Bool.false_eq_true, if_false]

theorem handleCommit_of_rejected {p : PBFTProtocol} {me : Bytes} {msg : Commit}
    (h : p.verifyCommit X msg = some false) : p.handleCommit X me msg = some (p, silent) := by
  simp only [handleCommit, h, bind, pure, Option.bind_some]

/-- The handler of a rejected message returns with an empty queue, and leaves the protocol as it was
exactly when the message is no PrePrepare or was taken already. -/
theorem rejected_unchanged_iff_takenAlready {p : PBFTProtocol} {me : Bytes} {msg : MessageType}
    (hrejected : Rejects X p msg) :
    ∃ p' out, step X me p (.message msg) = some (p', out) ∧
      ((p' = p ∧ out.queue = []) ↔ TakenAlready X p msg) := by
  cases msg with
  | prePrepare msg =>
    obtain ⟨hsome, hfalse⟩ := hrejected
    obtain ⟨request, hjson⟩ := Option.isSome_iff_exists.1 hsome
    refine ⟨_, _, handlePreprepare_of_rejected hjson hfalse, ?_⟩
    have hqueue : silent.queue = [] := rfl
    simp only [hqueue, and_true, takePreprepare_eq_self_iff, TakenAlready, hjson, Option.mem_some_iff,
      forall_eq']
  | prepare msg =>
    exact ⟨p, silent, handlePrepare_of_rejected hrejected, iff_of_true ⟨rfl, rfl⟩ trivial⟩
  | commit msg =>
    exact ⟨p, silent, handleCommit_of_rejected hrejected, iff_of_true ⟨rfl, rfl⟩ trivial⟩
  | reply msg =>
    have hhandled : p.handleReply X msg = some (p, silent) := by
      have hfalse : p.verifyReply X msg = some false := hrejected
      simp only [handleReply, hfalse, bind, pure, Option.bind_some, Bool.false_eq_true, if_false]
    exact ⟨p, silent, hhandled, iff_of_true ⟨rfl, rfl⟩ trivial⟩
  | _ => exact hrejected.elim

/-- A node that has started and knows no public key yet. -/
def startedNode : PBFTProtocol :=
  final (step .transparent [1]) (PBFTProtocol.new 1 [1]) [.initialStart {[1], [2], [3], [4]}]

theorem isRun_startedNode :
    ∃ run, IsRun (step .transparent [1]) (PBFTProtocol.new 1 [1]) run startedNode :=
  ⟨_, .of_isSome (by decide +kernel)⟩

/-- A Prepare of an unknown peer is rejected and leaves no trace. -/
theorem rejected_unchanged_iff_takenAlready_prepare :
    (∃ run, IsRun (step .transparent [1]) (PBFTProtocol.new 1 [1]) run startedNode) ∧
      Rejects .transparent startedNode (.prepare (roundPrepare [4] ⟨"a"⟩)) ∧
      TakenAlready .transparent startedNode (.prepare (roundPrepare [4] ⟨"a"⟩)) ∧
      ∃ p' out, step .transparent [1] startedNode (.message (.prepare (roundPrepare [4] ⟨"a"⟩))) =
        some (p', out) ∧ p' = startedNode ∧ out.queue = [] := by
  have hrejected : Rejects .transparent startedNode (.prepare (roundPrepare [4] ⟨"a"⟩)) := by
    change startedNode.verifyPrepare .transparent (roundPrepare [4] ⟨"a"⟩) = some false
    decide +kernel
  obtain ⟨p', out, hstep, hiff⟩ := @rejected_unchanged_iff_takenAlready _ _ [1] _ hrejected
  exact ⟨isRun_startedNode, hrejected, trivial, p', out, hstep, hiff.2 trivial⟩

/-- A PrePrepare of an unknown peer is rejected, but the peer is the primary now. -/
theorem not_unchanged_of_forged_preprepare :
    (∃ run, IsRun (step .transparent [1]) (PBFTProtocol.new 1 [1]) run startedNode) ∧
      Rejects .transparent startedNode (.prePrepare (roundPreprepare [4] ⟨"a"⟩)) ∧
      ∃ p' out, step .transparent [1] startedNode
          (.message (.prePrepare (roundPreprepare [4] ⟨"a"⟩))) = some (p', out) ∧
        startedNode.state.primary = [1] ∧ p'.state.primary = [4] ∧
        startedNode.takenRequests = ∅ ∧ p'.takenRequests ≠ ∅ ∧ ¬ (p' = startedNode ∧ out.queue = []) := by
  refine ⟨isRun_startedNode, ⟨by decide +kernel, by decide +kernel⟩, _, _, rfl, rfl, rfl, rfl,
    Finset.insert_ne_empty _ _, ?_⟩
  rintro ⟨hsame, -⟩
  have hprimary := congrArg (fun p : PBFTProtocol ↦ p.state.primary) hsame
  revert hprimary
  decide +kernel

end BFTDiagnosis.Pbft
