import BFTDiagnosis.BasicHotstuff.Steps

/-!
# How a leader collects votes

The handlers of a vote record a verified share under the hash of its phase, view and block, and act
when `2 * f + 1` voters are recorded. Two results about every run of a leader:

* every QC it forms is combined from exactly `2 * f + 1` shares, each of which verified when it was
  recorded, under the key registered for its voter, on the hash of this very phase, view and block;
* it acts on a QC at most once, provided that no voter is recorded again while the quorum is just
  complete. Recording a voter again leaves the number of voters as it is, so the handler would act
  a second time, and a third; a repeated commit vote also moves the leader to another view.
-/

namespace BFTDiagnosis.BasicHotstuff

open Components Utils Word Hotstuff BasicHotstuffProtocol

variable {X : Externals}

/-! ## Recorded shares -/

/-- The phase of a vote message, with the vote. -/
def MessageType.vote : MessageType → Option (Phase × Vote)
  | .prepareVote vote => some (.prepare, vote)
  | .preCommitVote vote => some (.preCommit, vote)
  | .commitVote vote => some (.commit, vote)
  | _ => none

/-- The hash, the key number and the share that a call is about to record. -/
def recordedShare (X : Externals) (p : BasicHotstuffProtocol) : Event → Option (String × UInt64 × Bytes)
  | .message msg _ => do
    let (phase, vote) ← msg.vote
    let pkInfo ← p.consensusNodePks.lookup vote.fromPeerId
    let share ← vote.partialSignature
    let msgHash := voteHash X phase vote.viewNum vote.block
    if X.verifyShare pkInfo.publicKey share (asBytes msgHash) then
      return (msgHash, pkInfo.number, share)
    none
  | _ => none

@[simp] theorem vote_voteMessage (phase : Phase) (vote : Vote) :
    (phase.voteMessage vote).vote = some (phase, vote) := by
  cases phase <;> rfl

theorem recordedShare_of_verified {p : BasicHotstuffProtocol} {phase : Phase} {vote : Vote}
    {pkInfo : ConsensusNodePKInfo} {share : Bytes} (h : VerifiedShare X p phase vote pkInfo share)
    (order : List (Bytes × ConsensusNodePKInfo)) :
    recordedShare X p (.message (phase.voteMessage vote) order) =
      some (voteHash X phase vote.viewNum vote.block, pkInfo.number, share) := by
  simp only [recordedShare, vote_voteMessage, bind, pure, Option.bind_some, h.registered, h.attached,
    h.verified, if_true]

/-- Every call, seen from the shares under one hash. -/
theorem step_sharesAt {p p' : BasicHotstuffProtocol} {me : Bytes} {event : Event} {out : Answer}
    (h : step X me p event = some (p', out)) (msgHash : String) :
    p'.log.sharesAt msgHash = p.log.sharesAt msgHash ∨
    (∃ peerId, event = .protocolReset peerId) ∨
    ∃ phase vote order pkInfo share, event = .message (phase.voteMessage vote) order ∧
      VerifiedShare X p phase vote pkInfo share ∧
      voteHash X phase vote.viewNum vote.block = msgHash ∧
      p'.log.sharesAt msgHash = (p.log.sharesAt msgHash).insert pkInfo.number share := by
  have hrecord (phase : Phase) (vote : Vote) (order : List (Bytes × ConsensusNodePKInfo))
      (pkInfo : ConsensusNodePKInfo) (share : Bytes)
      (hverified : VerifiedShare X p phase vote pkInfo share) :
      (p.record X phase vote pkInfo share).log.sharesAt msgHash = p.log.sharesAt msgHash ∨
      ∃ phase' vote' order' pkInfo' share',
        (.message (phase.voteMessage vote) order : Event) = .message (phase'.voteMessage vote') order' ∧
        VerifiedShare X p phase' vote' pkInfo' share' ∧
        voteHash X phase' vote'.viewNum vote'.block = msgHash ∧
        (p.record X phase vote pkInfo share).log.sharesAt msgHash =
          (p.log.sharesAt msgHash).insert pkInfo'.number share' := by
    by_cases hhash : voteHash X phase vote.viewNum vote.block = msgHash
    · subst hhash
      exact .inr ⟨phase, vote, order, pkInfo, share, rfl, hverified, rfl,
        Log.sharesAt_record_self _ _ _ _⟩
    · exact .inl (Log.sharesAt_record_of_ne _ _ _ _ (Ne.symm hhash))
  cases step_effect h with
  | protocolReset peerId => exact .inr (.inl ⟨peerId, rfl⟩)
  | vote phase vote order pkInfo share hverified hcount =>
    exact (hrecord phase vote order pkInfo share hverified).imp_right .inr
  | prepareQuorum vote order pkInfo share signature hverified hquorum =>
    exact (hrecord .prepare vote order pkInfo share hverified).imp_right .inr
  | preCommitQuorum vote order pkInfo share signature hverified hquorum =>
    exact (hrecord .preCommit vote order pkInfo share hverified).imp_right .inr
  | commitQuorum vote order pkInfo share signature primary queue hverified hquorum =>
    exact (hrecord .commit vote order pkInfo share hverified).imp_right .inr
  | _ => exact .inl rfl

/-! ## The QCs that a call forms -/

/-- The QC with which a message announces the end of a phase. -/
def MessageType.certificate : MessageType → Option (Phase × QC)
  | .preCommit msg => msg.justify.map (Phase.prepare, ·)
  | .commit msg => msg.justify.map (Phase.preCommit, ·)
  | .decide msg => msg.justify.map (Phase.commit, ·)
  | _ => none

/-- The QCs that an answer announces. -/
def announcedQCs (out : Answer) : List (Phase × QC) := (sentMessages out).filterMap MessageType.certificate

theorem announcedQCs_of_housekeeping {out : Answer} (h : ∀ msg ∈ sentMessages out, Housekeeping msg) :
    announcedQCs out = [] := by
  apply filterMap_sentMessages_eq_nil _ h
  intro msg hmsg
  cases hmsg <;> rfl

/-- What stands behind an announced QC: the vote that completed it. -/
structure Announcement (X : Externals) (p p' : BasicHotstuffProtocol) (event : Event) (phase : Phase)
    (qc : QC) : Prop where
  vote : ∃ vote order pkInfo share signature, event = .message (phase.voteMessage vote) order ∧
    VerifiedShare X p phase vote pkInfo share ∧ qc = quorumQC phase vote signature ∧
    Quorum X (p.record X phase vote pkInfo share) (voteHash X phase vote.viewNum vote.block) signature ∧
    p'.log = (p.record X phase vote pkInfo share).log

/-- A call announces at most one QC, and only a vote that completes its quorum does. -/
theorem step_announcedQCs {p p' : BasicHotstuffProtocol} {me : Bytes} {event : Event} {out : Answer}
    (h : step X me p event = some (p', out)) :
    announcedQCs out = [] ∨
      ∃ phase qc, announcedQCs out = [(phase, qc)] ∧ Announcement X p p' event phase qc := by
  have hvote {p : BasicHotstuffProtocol} {answer : Answer} {phase : Phase} {viewNum : UInt64}
      {block : Block} (hsent : p.sendVote X me phase viewNum block = some answer) :
      announcedQCs answer = [] := by
    rcases sendVote_cases hsent with ⟨-, rfl⟩ | ⟨keypair, leader, vote, -, -, -, -, -, rfl⟩
    · rfl
    · cases phase <;> rfl
  cases step_effect h with
  | prepare msg order answer haccepted hvoted => exact .inl (hvote hvoted)
  | preCommit msg order qc answer haccepted hvoted => exact .inl (hvote hvoted)
  | commit msg order qc answer haccepted hvoted => exact .inl (hvote hvoted)
  | decide msg order qc primary queue haccepted hview hqueue =>
    exact .inl (announcedQCs_of_housekeeping (housekeeping_of_newviews hqueue))
  | prepareQuorum vote order pkInfo share signature hverified hquorum =>
    exact .inr ⟨.prepare, _, rfl, vote, order, pkInfo, share, signature, rfl, hverified, rfl, hquorum, rfl⟩
  | preCommitQuorum vote order pkInfo share signature hverified hquorum =>
    exact .inr ⟨.preCommit, _, rfl, vote, order, pkInfo, share, signature, rfl, hverified, rfl, hquorum,
      rfl⟩
  | commitQuorum vote order pkInfo share signature primary queue hverified hquorum hview hqueue =>
    refine .inr ⟨.commit, quorumQC .commit vote signature, ?_, vote, order, pkInfo, share, signature, rfl,
      hverified, rfl, hquorum, rfl⟩
    exact congrArg (List.cons (Phase.commit, quorumQC .commit vote signature))
      (announcedQCs_of_housekeeping (housekeeping_of_newviews hqueue))
  | consensusNodePKsInfo entries order nodes primary queue hview hqueue =>
    exact .inl (announcedQCs_of_housekeeping (housekeeping_of_newviews hqueue))
  | viewTimeout timeout primary queue hview hqueue =>
    exact .inl (announcedQCs_of_housekeeping (housekeeping_of_newviews hqueue))
  | initialStart nodes randomness order pkOrder keypair numbers primary queue hown hview hqueue =>
    exact .inl (announcedQCs_of_housekeeping (housekeeping_of_distribution hqueue))
  | _ => exact .inl rfl

/-! ## Every QC is combined from verified shares of its own vote -/

/-- A transition recorded the share under the key number, for a vote of this phase, view and block. -/
def RecordedBy (X : Externals) (t : Transition BasicHotstuffProtocol Event Answer) (phase : Phase)
    (viewNum : UInt64) (block : Block) (number : UInt64) (share : Bytes) : Prop :=
  ∃ vote order pkInfo, t.event = .message (phase.voteMessage vote) order ∧ vote.viewNum = viewNum ∧
    vote.block = block ∧ pkInfo.number = number ∧ VerifiedShare X t.pre phase vote pkInfo share

/-- A QC announced by `t` after the transitions `before`: the map of shares under its hash has
exactly `2 * f + 1` key numbers, its signature is their combination, and each share was recorded for
this phase, view and block by one of the transitions up to `t`. -/
def SoundQC (X : Externals) (before : List (Transition BasicHotstuffProtocol Event Answer))
    (t : Transition BasicHotstuffProtocol Event Answer) (phase : Phase) (qc : QC) : Prop :=
  ∃ shares keypair signature,
    t.post.log.getPartialSignaturesByMessageHash (voteHash X phase qc.viewNum qc.block) = some shares ∧
    t.pre.keypair = some keypair ∧ qc.signature = some signature ∧
    keypair.combinePartialSignatures X.toBlsttc shares = some signature ∧
    shares.keys.card = 2 * t.pre.state.faultToleranceCount.toNat + 1 ∧
    ∀ number share, shares.lookup number = some share →
      ∃ t' ∈ before ++ [t], RecordedBy X t' phase qc.viewNum qc.block number share

/-- Every share of the log was recorded by a transition of the run. -/
theorem recordedBy_of_lookup {me : Bytes} {f : UInt64} {peerId : String}
    {run : List (Transition BasicHotstuffProtocol Event Answer)} {p : BasicHotstuffProtocol}
    (hrun : IsRun (step X me) (BasicHotstuffProtocol.new f peerId) run p) {msgHash : String}
    {number : UInt64} {share : Bytes} (hlookup : (p.log.sharesAt msgHash).lookup number = some share) :
    ∃ t ∈ run, ∃ phase viewNum block, voteHash X phase viewNum block = msgHash ∧
      RecordedBy X t phase viewNum block number share := by
  induction hrun with
  | nil =>
    have hempty : (BasicHotstuffProtocol.new f peerId).log.sharesAt msgHash = ∅ := Log.sharesAt_new msgHash
    rw [hempty, Finmap.lookup_empty] at hlookup
    cases hlookup
  | @snoc run p p' event out previous taken ih =>
    have hold (h : (p.log.sharesAt msgHash).lookup number = some share) :
        ∃ t ∈ run ++ [⟨p, event, out, p'⟩], ∃ phase viewNum block,
          voteHash X phase viewNum block = msgHash ∧ RecordedBy X t phase viewNum block number share := by
      obtain ⟨t, ht, hrecorded⟩ := ih h
      exact ⟨t, List.mem_append_left _ ht, hrecorded⟩
    rcases step_sharesAt taken msgHash with hsame | ⟨other, rfl⟩ |
      ⟨phase, vote, order, pkInfo, share', rfl, hverified, hhash, hinserted⟩
    · exact hold (hsame ▸ hlookup)
    · obtain ⟨rfl, -⟩ := Prod.mk.inj (Option.some.inj taken)
      have hempty : (p.protocolReset other).log.sharesAt msgHash = ∅ := Log.sharesAt_new msgHash
      rw [hempty, Finmap.lookup_empty] at hlookup
      cases hlookup
    · rw [hinserted] at hlookup
      by_cases hnumber : number = pkInfo.number
      · subst hnumber
        rw [Finmap.lookup_insert] at hlookup
        obtain rfl := Option.some.inj hlookup
        exact ⟨_, List.mem_append_right _ (List.mem_singleton.2 rfl), phase, vote.viewNum, vote.block,
          hhash, vote, order, pkInfo, rfl, rfl, rfl, rfl, hverified⟩
      · rw [Finmap.lookup_insert_of_ne _ hnumber] at hlookup
        exact hold hlookup

/-- Every QC that a leader announces, in any run, is sound. -/
theorem soundQC_of_announced (hX : X.CollisionFree) (hblock : Function.Injective X.blockBytes)
    {me : Bytes} {f : UInt64} {peerId : String}
    {run before after : List (Transition BasicHotstuffProtocol Event Answer)}
    {p : BasicHotstuffProtocol} {t : Transition BasicHotstuffProtocol Event Answer}
    (hrun : IsRun (step X me) (BasicHotstuffProtocol.new f peerId) run p)
    (hsplit : run = before ++ t :: after) {phase : Phase} {qc : QC}
    (hannounced : (phase, qc) ∈ announcedQCs t.out) : SoundQC X before t phase qc := by
  obtain ⟨hbefore, htaken⟩ := hrun.before hsplit
  rcases step_announcedQCs htaken with hnone | ⟨phase', qc', hone, hannouncement⟩
  · rw [hnone] at hannounced
    cases hannounced
  · rw [hone] at hannounced
    obtain ⟨rfl, rfl⟩ := Prod.mk.inj (List.mem_singleton.1 hannounced)
    obtain ⟨vote, order, pkInfo, share, signature, hevent, hverified, rfl, hquorum, hlog⟩ := hannouncement
    obtain ⟨keypair, hkeypair, hcombined⟩ := hquorum.combined
    have hshares : t.post.log.getPartialSignaturesByMessageHash
        (voteHash X phase vote.viewNum vote.block) =
          some ((t.pre.log.sharesAt (voteHash X phase vote.viewNum vote.block)).insert
            pkInfo.number share) := by
      rw [hlog]
      exact Log.lookup_record_self _ _ _ _
    refine ⟨_, keypair, signature, hshares, hkeypair, rfl, ?_, ?_, ?_⟩
    · rw [← Log.sharesAt_record_self]
      exact hcombined
    · have hcount := hquorum.count
      rwa [record, Log.sharesAt_record_self, HashMap.len] at hcount
    · intro number share' hlookup
      have hpost : t.post.log.sharesAt (voteHash X phase vote.viewNum vote.block) = _ :=
        (congrArg (Log.sharesAt · _) hlog).trans (Log.sharesAt_record_self _ _ _ _)
      rw [← hpost] at hlookup
      obtain ⟨t', ht', phase', viewNum, block, hhash, hrecorded⟩ :=
        recordedBy_of_lookup (hbefore.snoc htaken) hlookup
      obtain ⟨rfl, rfl, rfl⟩ := voteHash_inj hX hblock hhash
      exact ⟨t', ht', hrecorded⟩

/-! ## Acting once -/

abbrev HotstuffRun := List (Transition BasicHotstuffProtocol Event Answer)

/-- The phase, the view and the block of the next-phase messages that an answer broadcasts. -/
def announced (out : Answer) : List (Phase × UInt64 × Block) :=
  (announcedQCs out).map fun entry ↦ (entry.1, entry.2.viewNum, entry.2.block)

def announcements (run : HotstuffRun) : List (Phase × UInt64 × Block) := run.flatMap (announced ·.out)

/-- The view and the block that a commit vote completes. -/
def completedVote (t : Transition BasicHotstuffProtocol Event Answer) : Option (UInt64 × Block) :=
  match t.event, t.out with
  | .message (.commitVote vote) _, .complete _ _ => some (vote.viewNum, vote.block)
  | _, _ => none

/-- The view and the block of a commit vote that moves the leader to another view. -/
def advancingVote (t : Transition BasicHotstuffProtocol Event Answer) : Option (UInt64 × Block) :=
  match t.event with
  | .message (.commitVote vote) _ =>
    if t.post.state.view = t.pre.state.view then none else some (vote.viewNum, vote.block)
  | _ => none

/-- A leader acts on each QC at most once. -/
structure ActsOnce (run : HotstuffRun) : Prop where
  broadcasts : (announcements run).Nodup
  completes : (run.filterMap completedVote).Nodup
  advances : (run.filterMap advancingVote).Nodup

/-- No voter is recorded again while the quorum of the vote is just complete. -/
def NoRepeatAtQuorum (X : Externals) (t : Transition BasicHotstuffProtocol Event Answer) : Prop :=
  ∀ entry ∈ recordedShare X t.pre t.event,
    ¬ (entry.2.1 ∈ t.pre.log.sharesAt entry.1 ∧
      (t.pre.log.sharesAt entry.1).len = 2 * t.pre.state.faultToleranceCount.toNat + 1)

/-- A call of `protocol_reset`, which ends the run of a leader. -/
def Event.isReset : Event → Bool
  | .protocolReset _ => true
  | _ => false

theorem step_faultToleranceCount {p p' : BasicHotstuffProtocol} {me : Bytes} {event : Event}
    {out : Answer} (h : step X me p event = some (p', out))
    (hreset : event.isReset = false) :
    p'.state.faultToleranceCount = p.state.faultToleranceCount := by
  cases step_effect h with
  | protocolReset peerId => cases hreset
  | _ => rfl

/-- Without a reset the shares under a hash only become more. -/
theorem len_sharesAt_le {p p' : BasicHotstuffProtocol} {me : Bytes} {event : Event} {out : Answer}
    (h : step X me p event = some (p', out)) (hreset : event.isReset = false) (msgHash : String) :
    (p.log.sharesAt msgHash).len ≤ (p'.log.sharesAt msgHash).len := by
  rcases step_sharesAt h msgHash with hsame | ⟨peerId, rfl⟩ |
    ⟨phase, vote, order, pkInfo, share, -, -, -, hinserted⟩
  · rw [hsame]
  · cases hreset
  · rw [hinserted]
    by_cases hmem : pkInfo.number ∈ p.log.sharesAt msgHash
    · rw [HashMap.len_insert_of_mem share hmem]
    · rw [HashMap.len_insert_of_notMem share hmem]
      omega

/-- An announced QC makes its quorum just complete, by a voter that was not recorded before unless
the quorum was complete already. -/
theorem len_sharesAt_of_announced {p p' : BasicHotstuffProtocol} {me : Bytes} {event : Event}
    {out : Answer} (h : step X me p event = some (p', out)) {entry : Phase × UInt64 × Block}
    (hentry : entry ∈ announced out) :
    announced out = [entry] ∧
      (p'.log.sharesAt (voteHash X entry.1 entry.2.1 entry.2.2)).len =
        2 * p.state.faultToleranceCount.toNat + 1 ∧
      ∃ number share, recordedShare X p event =
          some (voteHash X entry.1 entry.2.1 entry.2.2, number, share) ∧
        p'.log.sharesAt (voteHash X entry.1 entry.2.1 entry.2.2) =
          (p.log.sharesAt (voteHash X entry.1 entry.2.1 entry.2.2)).insert number share := by
  rcases step_announcedQCs h with hnone | ⟨phase, qc, hone, hannouncement⟩
  · rw [announced, hnone] at hentry
    cases hentry
  · have hsingle : announced out = [(phase, qc.viewNum, qc.block)] := by
      rw [announced, hone]
      rfl
    rw [hsingle] at hentry
    obtain rfl := List.mem_singleton.1 hentry
    obtain ⟨vote, order, pkInfo, share, signature, rfl, hverified, rfl, hquorum, hlog⟩ := hannouncement
    refine ⟨hsingle, ?_, pkInfo.number, share, recordedShare_of_verified hverified order, ?_⟩
    · rw [hlog]
      exact hquorum.count
    · rw [hlog]
      exact Log.sharesAt_record_self _ _ _ _

theorem announcements_append (run : HotstuffRun) (t : Transition BasicHotstuffProtocol Event Answer) :
    announcements (run ++ [t]) = announcements run ++ announced t.out := by
  rw [announcements, List.flatMap_append, List.flatMap_singleton, announcements]

/-- Every announced quorum stays complete, and no announcement repeats another. -/
theorem announcements_nodup {me : Bytes} {f : UInt64} {peerId : String} {run : HotstuffRun}
    {p : BasicHotstuffProtocol} (hrun : IsRun (step X me) (BasicHotstuffProtocol.new f peerId) run p)
    (hcondition : ∀ t ∈ run, t.event.isReset = false ∧ NoRepeatAtQuorum X t) :
    p.state.faultToleranceCount = f ∧
      (∀ entry ∈ announcements run,
        2 * f.toNat + 1 ≤ (p.log.sharesAt (voteHash X entry.1 entry.2.1 entry.2.2)).len) ∧
      (announcements run).Nodup := by
  induction hrun with
  | nil => exact ⟨rfl, fun entry hentry ↦ absurd hentry List.not_mem_nil, List.nodup_nil⟩
  | @snoc run p p' event out previous taken ih =>
    obtain ⟨hf, hcomplete, hnodup⟩ := ih fun t ht ↦ hcondition t (List.mem_append_left _ ht)
    obtain ⟨hreset, hrepeat⟩ := hcondition _ (List.mem_append_right _ (List.mem_singleton.2 rfl))
    have hgrow := len_sharesAt_le taken hreset
    refine ⟨(step_faultToleranceCount taken hreset).trans hf, ?_, ?_⟩
    · intro entry hentry
      rw [announcements_append] at hentry
      rcases List.mem_append.1 hentry with hold | hnew
      · exact (hcomplete entry hold).trans (hgrow _)
      · rw [(len_sharesAt_of_announced taken hnew).2.1, hf]
    · rw [announcements_append, List.nodup_append]
      refine ⟨hnodup, ?_, ?_⟩
      · cases hout : announced out with
        | nil => exact List.nodup_nil
        | cons entry rest =>
          have hsingle := (len_sharesAt_of_announced taken (hout ▸ List.mem_cons_self)).1
          rw [hout] at hsingle
          rw [hsingle]
          exact List.nodup_singleton entry
      · intro entry hold entry' hnew heq
        subst heq
        obtain ⟨-, hlen, number, share, hrecorded, hinserted⟩ := len_sharesAt_of_announced taken hnew
        -- The quorum was complete before the call, so the call recorded a voter again.
        have hbefore := hcomplete entry hold
        rw [hf] at hlen
        have hmem : number ∈ p.log.sharesAt (voteHash X entry.1 entry.2.1 entry.2.2) := by
          by_contra hfresh
          rw [hinserted, HashMap.len_insert_of_notMem share hfresh] at hlen
          omega
        rw [hinserted, HashMap.len_insert_of_mem share hmem] at hlen
        exact hrepeat _ hrecorded ⟨hmem, hlen.trans (by rw [hf])⟩

/-- Actions that go with the announcement of a commit QC repeat no more than the announcements. -/
theorem nodup_filterMap_of_announced {run : HotstuffRun}
    {action : Transition BasicHotstuffProtocol Event Answer → Option (UInt64 × Block)}
    (haction : ∀ t ∈ run, ∀ entry, action t = some entry →
      announced t.out = [(Phase.commit, entry.1, entry.2)])
    (hnodup : (announcements run).Nodup) : (run.filterMap action).Nodup := by
  have hsublist : ((run.filterMap action).map fun entry ↦ (Phase.commit, entry.1, entry.2)).Sublist
      (announcements run) := by
    clear hnodup
    induction run with
    | nil => exact .slnil
    | cons t rest ih =>
      have hrest := ih fun t' ht' ↦ haction t' (List.mem_cons_of_mem _ ht')
      cases hone : action t with
      | none =>
        rw [List.filterMap_cons_none hone]
        exact hrest.trans (List.sublist_append_right _ _)
      | some entry =>
        rw [List.filterMap_cons_some hone, List.map_cons, announcements, List.flatMap_cons,
          haction t List.mem_cons_self entry hone]
        exact hrest.cons_cons _
  exact (hnodup.sublist hsublist).of_map _

/-- A commit vote that completes a request or moves the leader announces the commit QC. -/
theorem announced_of_commitVote {p p' : BasicHotstuffProtocol} {me : Bytes} {out : Answer} {vote : Vote}
    {order : List (Bytes × ConsensusNodePKInfo)}
    (h : step X me p (.message (.commitVote vote) order) = some (p', out)) :
    (p'.state.view = p.state.view ∧ out = silent) ∨
      announced out = [(Phase.commit, vote.viewNum, vote.block)] := by
  generalize hevent : Event.message (.commitVote vote) order = event at h
  cases step_effect h with
  | idle msg order' => exact .inl ⟨rfl, rfl⟩
  | vote phase vote' order' pkInfo share hverified hcount => exact .inl ⟨rfl, rfl⟩
  | commitQuorum vote' order' pkInfo share signature primary queue hverified hquorum hview hqueue =>
    obtain ⟨rfl, rfl⟩ : vote = vote' ∧ order = order' := by simpa using hevent
    exact .inr (congrArg (List.cons (Phase.commit, vote.viewNum, vote.block))
      (congrArg (List.map _) (announcedQCs_of_housekeeping (housekeeping_of_newviews hqueue))))
  | _ => cases hevent

theorem announced_of_completedVote {t : Transition BasicHotstuffProtocol Event Answer} {me : Bytes}
    (h : step X me t.pre t.event = some (t.post, t.out)) {entry : UInt64 × Block}
    (hcompleted : completedVote t = some entry) :
    announced t.out = [(Phase.commit, entry.1, entry.2)] := by
  unfold completedVote at hcompleted
  split at hcompleted
  case h_2 => cases hcompleted
  case h_1 vote order request queue hevent hout =>
    obtain rfl := Option.some.inj hcompleted
    rw [hevent] at h
    rcases announced_of_commitVote h with ⟨-, hsilent⟩ | hannounced
    · rw [hout] at hsilent
      cases hsilent
    · exact hannounced

theorem announced_of_advancingVote {t : Transition BasicHotstuffProtocol Event Answer} {me : Bytes}
    (h : step X me t.pre t.event = some (t.post, t.out)) {entry : UInt64 × Block}
    (hadvancing : advancingVote t = some entry) :
    announced t.out = [(Phase.commit, entry.1, entry.2)] := by
  unfold advancingVote at hadvancing
  split at hadvancing
  case h_2 => cases hadvancing
  case h_1 vote order hevent =>
    split at hadvancing
    case isTrue => cases hadvancing
    case isFalse hmoved =>
      obtain rfl := Option.some.inj hadvancing
      rw [hevent] at h
      rcases announced_of_commitVote h with ⟨hsame, -⟩ | hannounced
      · exact absurd hsame hmoved
      · exact hannounced

/-- In a run without a reset, in which no voter is recorded again at a just complete quorum, the
leader acts on each QC at most once. -/
theorem actsOnce_of_noRepeatAtQuorum {me : Bytes} {f : UInt64} {peerId : String} {run : HotstuffRun}
    {p : BasicHotstuffProtocol} (hrun : IsRun (step X me) (BasicHotstuffProtocol.new f peerId) run p)
    (hcondition : ∀ t ∈ run, t.event.isReset = false ∧ NoRepeatAtQuorum X t) : ActsOnce run := by
  have hnodup : (announcements run).Nodup := (announcements_nodup hrun hcondition).2.2
  exact
    { broadcasts := hnodup
      completes := nodup_filterMap_of_announced
        (fun t ht entry hentry ↦ announced_of_completedVote (hrun.taken t ht) hentry) hnodup
      advances := nodup_filterMap_of_announced
        (fun t ht entry hentry ↦ announced_of_advancingVote (hrun.taken t ht) hentry) hnodup }

/-! ## A leader of four nodes -/

instance NoRepeatAtQuorum.decidable (X : Externals) (t : Transition BasicHotstuffProtocol Event Answer) :
    Decidable (NoRepeatAtQuorum X t) :=
  inferInstanceAs (Decidable (∀ entry ∈ recordedShare X t.pre t.event, ¬ (_ ∈ _ ∧ _ = _)))

/-- The start of the first node, which distributes the keys. -/
def fourStart : Event :=
  .initialStart [[1], [2], [3], [4]] fourNodes.randomness (fourNodes.order .transparent)
    (fourKeys.map pkInfoOf)

def genesisBlock : Block := { cmd := "a", parentHash := "" }

/-- The vote of one of the four nodes, signed with its own share. -/
def fourVote (phase : Phase) (viewNum : UInt64) (block : Block) (node : Fin 4) : Vote :=
  { viewNum := viewNum
    block := block
    partialSignature := (fourKeys.map fun key ↦ key.tblsKey.sign Externals.transparent.toBlsttc
      (asBytes (voteHash .transparent phase viewNum block)))[node.val]?
    fromPeerId := [UInt8.ofNat (node + 1)] }

def fourVoteEvent (phase : Phase) (node : Fin 4) : Event :=
  .message (phase.voteMessage (fourVote phase 1 genesisBlock node)) []

/-- Three votes of each phase, delivered to the first node. -/
def collectEvents : List Event :=
  [fourStart, fourVoteEvent .prepare 1, fourVoteEvent .prepare 2, fourVoteEvent .prepare 3,
    fourVoteEvent .commit 1, fourVoteEvent .commit 1, fourVoteEvent .commit 2, fourVoteEvent .commit 3]

theorem soundQC_of_announced_four :
    ∃ run p before t after phase qc,
      IsRun (step .transparent [1]) (BasicHotstuffProtocol.new 1 "") run p ∧
      run = before ++ t :: after ∧ (phase, qc) ∈ announcedQCs t.out ∧
      SoundQC .transparent before t phase qc := by
  have hrun : IsRun (step .transparent [1]) (BasicHotstuffProtocol.new 1 "")
      (transitions (step .transparent [1]) (BasicHotstuffProtocol.new 1 "") collectEvents) _ :=
    .of_isSome (by decide +kernel)
  let t := (transitions (step .transparent [1]) (BasicHotstuffProtocol.new 1 "")
    collectEvents).get ⟨3, by decide +kernel⟩
  have hannounced : announcedQCs t.out ≠ [] := by decide +kernel
  obtain ⟨⟨phase, qc⟩, hqc⟩ := List.exists_mem_of_ne_nil _ hannounced
  obtain ⟨before, after, hsplit⟩ := List.append_of_mem (List.get_mem _ _ : t ∈ _)
  exact ⟨_, _, before, t, after, phase, qc, hrun, hsplit, hqc,
    soundQC_of_announced Platform.collisionFree_transparent blockBytes_transparent_injective hrun
      hsplit hqc⟩

/-- Two quorums, and a vote that is repeated before the second is complete. -/
theorem actsOnce_of_noRepeatAtQuorum_four :
    ∃ run p, IsRun (step .transparent [1]) (BasicHotstuffProtocol.new 1 "") run p ∧
      (announcements run).length = 2 ∧
      (∀ t ∈ run, t.event.isReset = false ∧ NoRepeatAtQuorum .transparent t) ∧ ActsOnce run := by
  have hrun : IsRun (step .transparent [1]) (BasicHotstuffProtocol.new 1 "")
      (transitions (step .transparent [1]) (BasicHotstuffProtocol.new 1 "") collectEvents) _ :=
    .of_isSome (by decide +kernel)
  have hcondition : ∀ t ∈ transitions (step .transparent [1]) (BasicHotstuffProtocol.new 1 "")
      collectEvents, t.event.isReset = false ∧ NoRepeatAtQuorum .transparent t := by decide +kernel
  exact ⟨_, _, hrun, by decide +kernel, hcondition, actsOnce_of_noRepeatAtQuorum hrun hcondition⟩

/-- The same votes, and the last one once more. -/
def repeatedCommitVotes : List Event := collectEvents ++ [fourVoteEvent .commit 3]

/-- The repeated vote makes the leader decide, complete and move on a second time. -/
theorem not_actsOnce_of_repeated_vote :
    ∃ run p, IsRun (step .transparent [1]) (BasicHotstuffProtocol.new 1 "") run p ∧
      (∀ t ∈ run, t.event.isReset = false) ∧ ¬ (announcements run).Nodup ∧
      ¬ (run.filterMap completedVote).Nodup ∧ ¬ (run.filterMap advancingVote).Nodup ∧
      ¬ ActsOnce run := by
  have hrun : IsRun (step .transparent [1]) (BasicHotstuffProtocol.new 1 "")
      (transitions (step .transparent [1]) (BasicHotstuffProtocol.new 1 "") repeatedCommitVotes) _ :=
    .of_isSome (by decide +kernel)
  have hrepeated : ¬ (announcements (transitions (step .transparent [1])
      (BasicHotstuffProtocol.new 1 "") repeatedCommitVotes)).Nodup := by decide +kernel
  exact ⟨_, _, hrun, by decide +kernel, hrepeated, by decide +kernel, by decide +kernel,
    fun h ↦ hrepeated h.broadcasts⟩

end BFTDiagnosis.BasicHotstuff
