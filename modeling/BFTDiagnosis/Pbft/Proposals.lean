import BFTDiagnosis.Pbft.LogIntegrity

/-!
# Proposals of a primary and Prepares of a replica

`handle_request` proposes under the number after `current_sequence_number`, a counter that no handler
advances: every request gets number 1. The log keeps the first request of a number, so a second
request is proposed under a number that stands for another one.

`handle_preprepare` copies the hash that a PrePrepare carries into the Prepare that answers it. It does
not compare the hash with the request in the PrePrepare, nor with the request that the log keeps.

For both the exact condition on the inputs is given under which the primary, and the replica, does not
contradict itself.
-/

namespace BFTDiagnosis.Pbft

open Components Word PBFTProtocol

variable {X : Externals}

/-! ## Sequence numbers -/

/-- The counter of sequence numbers is never advanced. -/
theorem step_currentSequenceNumber {me : Bytes} {p p' : PBFTProtocol} {event : Event} {out : Answer}
    (h : step X me p event = some (p', out)) :
    p'.state.currentSequenceNumber = p.state.currentSequenceNumber := by
  cases step_effect h <;> rfl

theorem currentSequenceNumber_of_isRun {f : UInt64} {keypair me : Bytes} {run : PbftRun}
    {p : PBFTProtocol} (hrun : IsRun (step X me) (PBFTProtocol.new f keypair) run p) :
    ∀ t ∈ run, t.pre.state.currentSequenceNumber = 0 := by
  apply IsRun.invariant_pre_of_forall (fun p ↦ p.state.currentSequenceNumber = 0) rfl ?_ hrun
  · exact fun _ _ ↦ trivial
  · intro t hzero _ htaken
    rw [step_currentSequenceNumber htaken]
    exact hzero

theorem lookup_recordRequest_self (log : ConsensusLog) (number : UInt64) (request : Request) :
    (log.recordRequest number request).requests.lookup number =
      some ((log.requests.lookup number).getD request) := by
  unfold ConsensusLog.recordRequest
  split
  case isTrue hmem =>
    obtain ⟨logged, hlogged⟩ := Finmap.mem_iff.1 hmem
    rw [hlogged, Option.getD_some]
  case isFalse hfresh =>
    rw [Finmap.lookup_insert, Finmap.lookup_eq_none.2 hfresh, Option.getD_none]

/-- The PrePrepare with which a primary proposes a request. -/
structure ProposalOf (X : Externals) (p : PBFTProtocol) (request : Request) (msg : PrePrepare) : Prop where
  view : msg.view = p.state.view
  number : checkedAdd p.state.currentSequenceNumber 1 = some msg.number
  mHash : msg.mHash = requestHash X request

/-- A request is proposed by one PrePrepare, and logged for its number if none is. -/
theorem step_request {me : Bytes} {p p' : PBFTProtocol} {request : Request} {out : Answer}
    (h : step X me p (.message (.request request)) = some (p', out)) :
    ∃ msg, ProposalOf X p request msg ∧ out.queue = [.broadcast (.message ⟨.prePrepare msg⟩)] ∧
      p'.log.requests.lookup msg.number =
        some ((p.log.requests.lookup msg.number).getD request) := by
  change p.handleRequest X me request = _ at h
  simp only [handleRequest, bind, pure, Option.bind_eq_some_iff, Option.some.injEq,
    Prod.mk.injEq] at h
  obtain ⟨number, hnumber, rfl, rfl⟩ := h
  exact ⟨_, ⟨rfl, hnumber, rfl⟩, rfl, lookup_recordRequest_self p.log number request⟩

def Event.request : Event → Option Request
  | .message (.request request) => some request
  | _ => none

theorem Event.request_eq_some {event : Event} {request : Request} (h : event.request = some request) :
    event = .message (.request request) := by
  unfold Event.request at h
  split at h
  case h_1 request' => rw [Option.some.inj h]
  case h_2 => cases h

/-- The call of `handle_request` broadcasts the PrePrepare. -/
def Proposes (t : Transition PBFTProtocol Event Answer) (request : Request) (msg : PrePrepare) : Prop :=
  t.event.request = some request ∧ .broadcast (.message ⟨.prePrepare msg⟩) ∈ t.out.queue

/-- No two requests are proposed under one view and number, and the number of a proposal is one whose
logged request is the proposed one. -/
structure UniqueNumbers (run : PbftRun) : Prop where
  distinct : ∀ t ∈ run, ∀ t' ∈ run, ∀ request msg request' msg', Proposes t request msg →
    Proposes t' request' msg' → msg.view = msg'.view → msg.number = msg'.number → request = request'
  logged : ∀ t ∈ run, ∀ request msg, Proposes t request msg →
    t.post.log.requests.lookup msg.number = some request

/-- Requests that are handled in one view are equal. -/
def OneRequestPerView (t t' : Transition PBFTProtocol Event Answer) : Prop :=
  ∀ request ∈ t.event.request, ∀ request' ∈ t'.event.request,
    t.pre.state.view = t'.pre.state.view → request = request'

/-- A request finds no other request logged for number 1. -/
def FirstNumberFree (t : Transition PBFTProtocol Event Answer) : Prop :=
  ∀ request ∈ t.event.request, ∀ logged ∈ t.pre.log.requests.lookup 1, logged = request

section Run

variable {f : UInt64} {keypair me : Bytes} {run : PbftRun} {p : PBFTProtocol}

/-- Every request of a run is proposed in the view of the primary, under number 1. -/
theorem proposes_of_request (hrun : IsRun (step X me) (PBFTProtocol.new f keypair) run p)
    {t : Transition PBFTProtocol Event Answer} (ht : t ∈ run) {request : Request}
    (hrequest : t.event.request = some request) :
    (∃ msg, Proposes t request msg) ∧
      t.post.log.requests.lookup 1 = some ((t.pre.log.requests.lookup 1).getD request) ∧
      ∀ request' msg, Proposes t request' msg → msg.view = t.pre.state.view ∧ msg.number = 1 := by
  have htaken := hrun.taken t ht
  rw [Event.request_eq_some hrequest] at htaken
  obtain ⟨msg, hmsg, hqueue, hlogged⟩ := step_request htaken
  have hnumber : msg.number = 1 := by
    have hadd := hmsg.number
    rw [currentSequenceNumber_of_isRun hrun t ht] at hadd
    exact (Option.some.inj hadd).symm
  rw [hnumber] at hlogged
  refine ⟨⟨msg, hrequest, hqueue ▸ List.mem_singleton.2 rfl⟩, hlogged, ?_⟩
  intro request' msg' hproposes
  have hmem : SendType.broadcast (.message ⟨.prePrepare msg'⟩) ∈ t.out.queue := hproposes.2
  rw [hqueue, List.mem_singleton] at hmem
  have hsame : msg' = msg := by simpa using hmem
  rw [hsame]
  exact ⟨hmsg.view, hnumber⟩

/-- The logged request is the proposed one exactly when the number was free for it. -/
theorem getD_eq_iff {logged : Option Request} {request : Request} :
    logged.getD request = request ↔ ∀ other ∈ logged, other = request := by
  cases logged with
  | none => simp
  | some other => simp

/-- A primary numbers its proposals uniquely exactly in the runs that handle one request per view and
find number 1 free for it. -/
theorem uniqueNumbers_iff_oneRequestPerView
    (hrun : IsRun (step X me) (PBFTProtocol.new f keypair) run p) :
    UniqueNumbers run ↔
      (∀ t ∈ run, ∀ t' ∈ run, OneRequestPerView t t') ∧ ∀ t ∈ run, FirstNumberFree t := by
  constructor
  · intro h
    refine ⟨?_, ?_⟩
    · intro t ht t' ht' request hrequest request' hrequest' hview
      obtain ⟨⟨msg, hmsg⟩, -, hfields⟩ := proposes_of_request hrun ht hrequest
      obtain ⟨⟨msg', hmsg'⟩, -, hfields'⟩ := proposes_of_request hrun ht' hrequest'
      have hsameView : msg.view = msg'.view := by
        rw [(hfields request msg hmsg).1, (hfields' request' msg' hmsg').1, hview]
      have hsameNumber : msg.number = msg'.number := by
        rw [(hfields request msg hmsg).2, (hfields' request' msg' hmsg').2]
      exact h.distinct t ht t' ht' request msg request' msg' hmsg hmsg' hsameView hsameNumber
    · intro t ht request hrequest
      obtain ⟨⟨msg, hmsg⟩, hlogged, hfields⟩ := proposes_of_request hrun ht hrequest
      have hproposed := h.logged t ht request msg hmsg
      rw [(hfields request msg hmsg).2, hlogged] at hproposed
      exact getD_eq_iff.1 (Option.some.inj hproposed)
  · rintro ⟨hone, hfree⟩
    refine ⟨?_, ?_⟩
    · intro t ht t' ht' request msg request' msg' hmsg hmsg' hview _
      obtain ⟨-, -, hfields⟩ := proposes_of_request hrun ht hmsg.1
      obtain ⟨-, -, hfields'⟩ := proposes_of_request hrun ht' hmsg'.1
      apply hone t ht t' ht' request hmsg.1 request' hmsg'.1
      rw [← (hfields request msg hmsg).1, ← (hfields' request' msg' hmsg').1, hview]
    · intro t ht request msg hmsg
      obtain ⟨-, hlogged, hfields⟩ := proposes_of_request hrun ht hmsg.1
      rw [(hfields request msg hmsg).2, hlogged, getD_eq_iff.2 (hfree t ht request hmsg.1)]

end Run

instance OneRequestPerView.decidable (t t' : Transition PBFTProtocol Event Answer) :
    Decidable (OneRequestPerView t t') :=
  inferInstanceAs (Decidable (∀ request ∈ t.event.request, ∀ request' ∈ t'.event.request, _ → _ = _))

instance FirstNumberFree.decidable (t : Transition PBFTProtocol Event Answer) :
    Decidable (FirstNumberFree t) :=
  inferInstanceAs (Decidable (∀ request ∈ t.event.request, ∀ logged ∈ t.pre.log.requests.lookup 1, _ = _))

/-- Requests, handled by one primary without anything between them. -/
def requestEvents (cmds : List String) : List Event := cmds.map fun cmd ↦ .message (.request ⟨cmd⟩)

/-- A primary that handles one request twice. -/
theorem uniqueNumbers_iff_oneRequestPerView_same :
    ∃ run p, IsRun (step .transparent [1]) (PBFTProtocol.new 1 [1]) run p ∧
      run.filterMap (·.event.request) = [⟨"a"⟩, ⟨"a"⟩] ∧
      (∀ t ∈ run, ∀ t' ∈ run, OneRequestPerView t t') ∧ (∀ t ∈ run, FirstNumberFree t) ∧
      UniqueNumbers run := by
  have hrun : IsRun (step .transparent [1]) (PBFTProtocol.new 1 [1])
      (transitions (step .transparent [1]) (PBFTProtocol.new 1 [1]) (requestEvents ["a", "a"])) _ :=
    .of_isSome (by decide +kernel)
  have hone : ∀ t ∈ transitions (step .transparent [1]) (PBFTProtocol.new 1 [1])
      (requestEvents ["a", "a"]), ∀ t' ∈ transitions (step .transparent [1]) (PBFTProtocol.new 1 [1])
      (requestEvents ["a", "a"]), OneRequestPerView t t' := by decide +kernel
  have hfree : ∀ t ∈ transitions (step .transparent [1]) (PBFTProtocol.new 1 [1])
      (requestEvents ["a", "a"]), FirstNumberFree t := by decide +kernel
  exact ⟨_, _, hrun, by decide +kernel, hone, hfree,
    (uniqueNumbers_iff_oneRequestPerView hrun).2 ⟨hone, hfree⟩⟩

/-- Two requests are proposed under one number, and the second is not the one logged for it. -/
theorem not_uniqueNumbers_of_two_requests :
    ∃ run p, IsRun (step .transparent [1]) (PBFTProtocol.new 1 [1]) run p ∧
      run.filterMap (·.event.request) = [⟨"a"⟩, ⟨"b"⟩] ∧
      p.log.requests.lookup 1 = some ⟨"a"⟩ ∧ ¬ UniqueNumbers run := by
  refine ⟨transitions (step .transparent [1]) (PBFTProtocol.new 1 [1]) (requestEvents ["a", "b"]), _,
    .of_isSome (by decide +kernel), by decide +kernel, by decide +kernel, ?_⟩
  intro h
  let first := (transitions (step .transparent [1]) (PBFTProtocol.new 1 [1])
    (requestEvents ["a", "b"])).get ⟨0, by decide +kernel⟩
  let second := (transitions (step .transparent [1]) (PBFTProtocol.new 1 [1])
    (requestEvents ["a", "b"])).get ⟨1, by decide +kernel⟩
  have hfirst : Proposes first ⟨"a"⟩ (roundPreprepare [1] ⟨"a"⟩) := ⟨rfl, List.mem_singleton.2 rfl⟩
  have hsecond : Proposes second ⟨"b"⟩ (roundPreprepare [1] ⟨"b"⟩) := ⟨rfl, List.mem_singleton.2 rfl⟩
  have hsame := h.distinct first (List.get_mem _ _) second (List.get_mem _ _) _ _ _ _ hfirst hsecond
    rfl rfl
  revert hsame
  decide

/-! ## Prepares -/

/-- The PrePrepare that a call accepts, with the request it carries. -/
def acceptedPreprepare (X : Externals) (p : PBFTProtocol) : Event → Option (PrePrepare × Request)
  | .message (.prePrepare msg) =>
    if p.verifyPreprepare X msg = some true then (X.requestOfJson msg.m).map (msg, ·) else none
  | _ => none

theorem acceptedPreprepare_eq_some {p : PBFTProtocol} {event : Event} {msg : PrePrepare}
    {request : Request} (h : acceptedPreprepare X p event = some (msg, request)) :
    event = .message (.prePrepare msg) ∧ p.verifyPreprepare X msg = some true ∧
      X.requestOfJson msg.m = some request := by
  unfold acceptedPreprepare at h
  split at h
  case h_1 msg' =>
    split at h
    case isTrue haccepted =>
      obtain ⟨request', hjson, hpair⟩ := Option.map_eq_some_iff.1 h
      obtain ⟨rfl, rfl⟩ := Prod.mk.inj hpair
      exact ⟨rfl, haccepted, hjson⟩
    case isFalse => cases h
  case h_2 => cases h

section Step

variable {me : Bytes} {p p' : PBFTProtocol} {event : Event} {out : Answer}

/-- An accepted PrePrepare is answered with one Prepare, and its request is logged unless the number
has one. -/
theorem step_acceptedPreprepare (h : step X me p event = some (p', out)) {msg : PrePrepare}
    {request : Request} (haccepted : acceptedPreprepare X p event = some (msg, request)) :
    sentMessages out = [.prepare (p.signedPrepare X me msg)] ∧ resetsLog out = false ∧
      p'.log.requests.lookup msg.number =
        some ((p.log.requests.lookup msg.number).getD request) := by
  obtain ⟨rfl, htrue, hjson⟩ := acceptedPreprepare_eq_some haccepted
  obtain ⟨request', hjson', ⟨-, haccept⟩ | ⟨hfalse, -⟩⟩ := handlePreprepare_cases h
  · obtain rfl : request' = request := Option.some.inj (hjson'.symm.trans hjson)
    obtain ⟨rfl, rfl⟩ := Prod.mk.inj haccept
    exact ⟨rfl, rfl, lookup_recordRequest_self p.log msg.number request'⟩
  · have hsame : some true = some false := htrue.symm.trans hfalse
    cases hsame

/-- A Prepare is sent exactly in answer to an accepted PrePrepare. -/
theorem sent_prepare_iff (h : step X me p event = some (p', out)) {prepare : Prepare} :
    .prepare prepare ∈ sentMessages out ↔
      ∃ msg request, acceptedPreprepare X p event = some (msg, request) ∧
        prepare = p.signedPrepare X me msg := by
  constructor
  · intro hsent
    obtain ⟨msg, request, rfl, hjson, haccepted, hprepare⟩ := step_sent_prepare h hsent
    refine ⟨msg, request, ?_, hprepare⟩
    simp only [acceptedPreprepare, if_pos haccepted, hjson, Option.map_some]
  · rintro ⟨msg, request, haccepted, rfl⟩
    rw [(step_acceptedPreprepare h haccepted).1]
    exact List.mem_singleton.2 rfl

end Step

/-- Every Prepare carries the hash of the request that the replica has logged for its number, and
between two resets of the log all Prepares of a view and number carry one hash. -/
structure PreparesConsistently (X : Externals) (run : PbftRun) : Prop where
  logged : ∀ t ∈ run, ∀ prepare, .prepare prepare ∈ sentMessages t.out →
    LoggedRequest X t.post prepare.number prepare.mHash
  oneHash : ∀ before t middle t' after, run = before ++ t :: (middle ++ t' :: after) →
    (∀ s ∈ middle, resetsLog s.out = false) → ∀ prepare prepare',
      .prepare prepare ∈ sentMessages t.out → .prepare prepare' ∈ sentMessages t'.out →
        prepare.view = prepare'.view → prepare.number = prepare'.number → prepare.mHash = prepare'.mHash

/-- An accepted PrePrepare carries the hash of the request logged for its number, and of its own
request when none is logged. -/
def MatchesLogged (X : Externals) (t : Transition PBFTProtocol Event Answer) : Prop :=
  ∀ entry ∈ acceptedPreprepare X t.pre t.event,
    requestHash X ((t.pre.log.requests.lookup entry.1.number).getD entry.2) = entry.1.mHash

section Run

variable {f : UInt64} {keypair me : Bytes} {run : PbftRun} {p : PBFTProtocol}

/-- A logged request stays along a run that does not reset the log. -/
theorem requests_kept_of_isRun {p p' : PBFTProtocol} (hrun : IsRun (step X me) p run p')
    (hreset : ∀ t ∈ run, resetsLog t.out = false) {number : UInt64} {request : Request}
    (hlogged : p.log.requests.lookup number = some request) :
    p'.log.requests.lookup number = some request := by
  apply IsRun.invariant_of_forall (fun p : PBFTProtocol ↦ p.log.requests.lookup number = some request)
    hlogged ?_ hrun hreset
  intro t hbefore hkeeps htaken
  exact step_requests_kept htaken hkeeps hbefore

/-- The Prepare of a call is for the logged request exactly when its PrePrepare matches it. -/
theorem sent_logged_iff {t : Transition PBFTProtocol Event Answer}
    (htaken : step X me t.pre t.event = some (t.post, t.out)) :
    (∀ prepare, .prepare prepare ∈ sentMessages t.out →
      LoggedRequest X t.post prepare.number prepare.mHash) ↔ MatchesLogged X t := by
  constructor
  · rintro h ⟨msg, request⟩ haccepted
    obtain ⟨-, -, hlogged⟩ := step_acceptedPreprepare htaken haccepted
    have hsent := (sent_prepare_iff htaken).2 ⟨msg, request, haccepted, rfl⟩
    obtain ⟨stored, hstored, hhash⟩ := h _ hsent
    have hsame : stored = (t.pre.log.requests.lookup msg.number).getD request :=
      Option.some.inj (hstored.symm.trans hlogged)
    rw [← hsame]
    exact hhash
  · intro h prepare hsent
    obtain ⟨msg, request, haccepted, rfl⟩ := (sent_prepare_iff htaken).1 hsent
    obtain ⟨-, -, hlogged⟩ := step_acceptedPreprepare htaken haccepted
    exact ⟨_, hlogged, h (msg, request) haccepted⟩

/-- A replica does not contradict itself in its Prepares exactly in the runs whose accepted PrePrepares
carry the hash of the request that the log keeps for their number. -/
theorem preparesConsistently_iff_matchesLogged
    (hrun : IsRun (step X me) (PBFTProtocol.new f keypair) run p) :
    PreparesConsistently X run ↔ ∀ t ∈ run, MatchesLogged X t := by
  have hiff (t : Transition PBFTProtocol Event Answer) (ht : t ∈ run) :=
    sent_logged_iff (hrun.taken t ht)
  constructor
  · intro h t ht
    exact (hiff t ht).1 (h.logged t ht)
  · intro h
    have hlogged : ∀ t ∈ run, ∀ prepare, .prepare prepare ∈ sentMessages t.out →
        LoggedRequest X t.post prepare.number prepare.mHash := fun t ht ↦ (hiff t ht).2 (h t ht)
    refine ⟨hlogged, ?_⟩
    intro before t middle t' after hsplit hreset prepare prepare' hsent hsent' _ hnumber
    have ht : t ∈ run := by simp [hsplit]
    have ht' : t' ∈ run := by simp [hsplit]
    have hmiddle : IsRun (step X me) t.post middle t'.pre := ((hrun.after hsplit).before rfl).1
    -- The request behind the first Prepare is still logged when the second one is sent.
    obtain ⟨request, hstored, hhash⟩ := hlogged t ht prepare hsent
    obtain ⟨request', hstored', hhash'⟩ := hlogged t' ht' prepare' hsent'
    have hkept : t'.post.log.requests.lookup prepare.number = some request := by
      apply step_requests_kept (hrun.taken t' ht')
      · obtain ⟨msg, request'', haccepted, -⟩ := (sent_prepare_iff (hrun.taken t' ht')).1 hsent'
        exact (step_acceptedPreprepare (hrun.taken t' ht') haccepted).2.1
      · exact requests_kept_of_isRun hmiddle hreset hstored
    rw [hnumber, hstored'] at hkept
    rw [← hhash, ← hhash', Option.some.inj hkept]

end Run

instance MatchesLogged.decidable (X : Externals) (t : Transition PBFTProtocol Event Answer) :
    Decidable (MatchesLogged X t) :=
  inferInstanceAs (Decidable (∀ entry ∈ acceptedPreprepare X t.pre t.event, _ = _))

/-- A registered peer proposes the given requests under number 1. -/
def proposalEvents (cmds : List String) : List Event :=
  .message (.publicKey ⟨[2], [2]⟩) ::
    cmds.map fun cmd ↦ .message (.prePrepare (roundPreprepare [2] ⟨cmd⟩))

/-- One proposal, delivered twice. -/
theorem preparesConsistently_iff_matchesLogged_same :
    ∃ run p, IsRun (step .transparent [1]) (PBFTProtocol.new 1 [1]) run p ∧
      (run.flatMap (sentMessages ·.out)).length = 2 ∧
      (∀ t ∈ run, MatchesLogged .transparent t) ∧ PreparesConsistently .transparent run := by
  have hrun : IsRun (step .transparent [1]) (PBFTProtocol.new 1 [1])
      (transitions (step .transparent [1]) (PBFTProtocol.new 1 [1]) (proposalEvents ["a", "a"])) _ :=
    .of_isSome (by decide +kernel)
  have hmatches : ∀ t ∈ transitions (step .transparent [1]) (PBFTProtocol.new 1 [1])
      (proposalEvents ["a", "a"]), MatchesLogged .transparent t := by decide +kernel
  exact ⟨_, _, hrun, by decide +kernel, hmatches,
    (preparesConsistently_iff_matchesLogged hrun).2 hmatches⟩

/-- Two proposals for one number: the replica prepares both, and has logged the first. -/
theorem not_preparesConsistently_of_two_proposals :
    ∃ run p, IsRun (step .transparent [1]) (PBFTProtocol.new 1 [1]) run p ∧
      (∀ t ∈ run, resetsLog t.out = false) ∧
      p.log.requests.lookup 1 = some ⟨"a"⟩ ∧
      (run.flatMap (sentMessages ·.out)).filterMap MessageType.votedRequest =
        [(1, requestHash .transparent ⟨"a"⟩), (1, requestHash .transparent ⟨"b"⟩)] ∧
      requestHash .transparent ⟨"a"⟩ ≠ requestHash .transparent ⟨"b"⟩ ∧
      (¬ ∀ t ∈ run, ∀ prepare, .prepare prepare ∈ sentMessages t.out →
        LoggedRequest .transparent t.post prepare.number prepare.mHash) ∧
      ¬ PreparesConsistently .transparent run := by
  have hlogged : ¬ ∀ t ∈ transitions (step .transparent [1]) (PBFTProtocol.new 1 [1])
      (proposalEvents ["a", "b"]), ∀ prepare, .prepare prepare ∈ sentMessages t.out →
        LoggedRequest .transparent t.post prepare.number prepare.mHash := by
    intro h
    let last := (transitions (step .transparent [1]) (PBFTProtocol.new 1 [1])
      (proposalEvents ["a", "b"])).get ⟨2, by decide +kernel⟩
    have hsent : .prepare (roundPrepare [1] ⟨"b"⟩) ∈ sentMessages last.out := List.mem_singleton.2 rfl
    obtain ⟨request, hstored, hhash⟩ := h last (List.get_mem _ _) _ hsent
    have hfirst : last.post.log.requests.lookup 1 = some ⟨"a"⟩ := by decide +kernel
    obtain rfl : request = ⟨"a"⟩ := Option.some.inj (hstored.symm.trans hfirst)
    revert hhash
    decide +kernel
  exact ⟨transitions (step .transparent [1]) (PBFTProtocol.new 1 [1]) (proposalEvents ["a", "b"]), _,
    .of_isSome (by decide +kernel), by decide +kernel, by decide +kernel, by decide +kernel,
    by decide +kernel, hlogged, fun h ↦ hlogged h.logged⟩

end BFTDiagnosis.Pbft
