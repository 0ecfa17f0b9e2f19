import BFTDiagnosis.Pbft.Checkpoints
import BFTDiagnosis.Pbft.ViewChange

/-!
# The lifetime of what is logged

A stable checkpoint should remove the slots below it. The messages to remove are looked up through
`request_map`, into which nothing is ever put, so no message is removed; the CheckPoints are.

The phase state of a request lasts until the log is cleared. It is marked as prepared by the Prepare that
completes a quorum, and no Prepare of a request that is marked is accepted, whatever its view and number.
So one request is answered with one Commit.
-/

namespace BFTDiagnosis.Pbft

open Components Word PBFTProtocol

variable {X : Externals}

/-! ## Old slots -/

/-- The sequence number of a message of one of the three phases. -/
def MessageType.slotNumber : MessageType → Option UInt64
  | .prePrepare msg => some msg.number
  | .prepare msg => some msg.number
  | .commit msg => some msg.number
  | _ => none

/-- The message is about a later slot than the number. -/
def MessageType.IsAfter (number : UInt64) (msg : MessageType) : Prop :=
  ∀ slotNumber ∈ msg.slotNumber, number < slotNumber

instance MessageType.IsAfter.decidable (number : UInt64) (msg : MessageType) : Decidable (msg.IsAfter number) :=
  Option.decidableForallMem msg.slotNumber

/-- The slots up to the stable number have gone and nothing else has: no message up to it and no CheckPoint
below it is left, what is logged for a later number has stayed, and so have the other fields of the log. -/
structure Collected (stable : UInt64) (log log' : ConsensusLog) : Prop where
  messages : ∀ key, ∀ msg ∈ log'.messages.listAt key, msg.IsAfter stable
  checkpoints : ∀ key ∈ log'.checkpoints, stable ≤ key.1
  keptMessages : ∀ key, (log'.messages.listAt key).filter (·.IsAfter stable) =
    (log.messages.listAt key).filter (·.IsAfter stable)
  keptCheckpoints : ∀ key : UInt64 × String, stable < key.1 →
    log'.checkpoints.lookup key = log.checkpoints.lookup key
  frame : log' = { log with messages := log'.messages, checkpoints := log'.checkpoints }

/-- With nothing in progress, exactly the CheckPoints below the stable one are removed. -/
theorem collected_iff_of_idle {log : ConsensusLog} (hidle : log.Idle) (msg : CheckPoint) :
    Collected msg.currentMaxNumber log
        ((log.recordCheckpoint msg).discardMessagesBeforeStableCheckpoint X msg.currentMaxNumber) ↔
      ∀ key, ∀ logged ∈ log.messages.listAt key, logged.IsAfter msg.currentMaxNumber := by
  have hrecorded : (log.recordCheckpoint msg).Idle := ⟨hidle.requestMap, hidle.currentRequests⟩
  have hmessages (key : String) : ((log.recordCheckpoint msg).discardMessagesBeforeStableCheckpoint X
      msg.currentMaxNumber).messages.listAt key = log.messages.listAt key :=
    hrecorded.listAt_discard msg.currentMaxNumber key
  have hlookup (key : UInt64 × String) : ((log.recordCheckpoint msg).discardMessagesBeforeStableCheckpoint X
      msg.currentMaxNumber).checkpoints.lookup key =
        if !decide (key.1 < msg.currentMaxNumber) then (log.recordCheckpoint msg).checkpoints.lookup key
        else none :=
    HashMap.lookup_retain _ (fun key : UInt64 × String ↦ !decide (key.1 < msg.currentMaxNumber)) key
  constructor
  · intro h key logged hlogged
    rw [← hmessages] at hlogged
    exact h.messages key logged hlogged
  · intro h
    refine ⟨fun key logged hlogged ↦ h key logged (hmessages key ▸ hlogged), ?_, ?_, ?_, rfl⟩
    · intro key hkey
      obtain ⟨checkpoints, hsome⟩ := Finmap.mem_iff.1 hkey
      rw [hlookup] at hsome
      by_contra hbelow
      rw [UInt64.not_le] at hbelow
      simp [hbelow] at hsome
    · intro key
      rw [hmessages]
    · intro key hlater
      have hkeep : (!decide (key.1 < msg.currentMaxNumber)) = true := by
        simpa using UInt64.le_of_lt hlater
      have hother : key ≠ msg.key := by
        rintro rfl
        exact UInt64.lt_irrefl _ hlater
      rw [hlookup, if_pos hkeep]
      change (log.checkpoints.pushAt msg.key msg).lookup key = _
      rw [HashMap.pushAt_eq_insert, Finmap.lookup_insert_of_ne _ hother]

/-- A CheckPoint that becomes stable removes the old slots exactly when no message of one is logged. -/
theorem collected_iff_noOldMessage {f : UInt64} {keypair me : Bytes} {run : PbftRun} {p p' : PBFTProtocol}
    {msg : CheckPoint} {out : Answer} (hrun : IsRun (step X me) (PBFTProtocol.new f keypair) run p)
    (htaken : p.handleCheckpoint X msg = some (p', out)) (hcompletes : CompletesCheckpoint p msg) :
    Collected msg.currentMaxNumber p.log p'.log ↔
      ∀ key, ∀ logged ∈ p.log.messages.listAt key, logged.IsAfter msg.currentMaxNumber := by
  have hidle : p.log.Idle := by
    apply IsRun.invariant_of_forall (fun p : PBFTProtocol ↦ p.log.Idle) ⟨rfl, rfl⟩ ?_ hrun fun _ _ ↦ trivial
    exact fun t hbefore _ hstep ↦ hbefore.step hstep
  simp only [handleCheckpoint, getCheckpointCount_recorded, bind, pure, Option.bind_eq_some_iff] at htaken
  obtain ⟨threshold, hthreshold, hrest⟩ := htaken
  rw [toNat_threshold hthreshold] at hrest
  rw [if_pos (show _ = _ from hcompletes)] at hrest
  obtain ⟨rfl, -⟩ := Prod.mk.inj (Option.some.inj hrest)
  exact collected_iff_of_idle hidle msg

/-- A PrePrepare of peer `[2]` for the number. -/
def proposalFor (number : UInt64) : PrePrepare :=
  let preprepare := { roundPreprepare [2] ⟨"a"⟩ with number := number }
  let keyStr := getMessageKey .transparent (.prePrepare preprepare)
  { preprepare with signature := Externals.transparent.sign [2] (asBytes keyStr) }

/-- A replica that has accepted a PrePrepare for the number and a CheckPoint for 1 and for 3. -/
def checkpointedEvents (number : UInt64) : List Event :=
  [.message (.publicKey ⟨[2], [2]⟩), .message (.prePrepare (proposalFor number))] ++
    checkpointEvents [(1, [2]), (3, [2])]

def checkpointedReplica (number : UInt64) : PBFTProtocol :=
  final (step .transparent [1]) (PBFTProtocol.new 1 [1]) (checkpointedEvents number)

/-- The CheckPoint of another peer that completes number 3. -/
def completingCheckpoint : CheckPoint :=
  { currentMaxNumber := 3, checkpointStateDigest := "d", fromPeerId := [3], signature := "" }

def collectedReplica (number : UInt64) : PBFTProtocol :=
  final (step .transparent [1]) (checkpointedReplica number) [.message (.checkPoint completingCheckpoint)]

/-- The PrePrepare is for number 5, above the checkpoint: it stays, and the CheckPoint for number 1 goes. -/
theorem collected_iff_noOldMessage_later :
    (1, "d") ∈ (checkpointedReplica 5).log.checkpoints ∧
      (checkpointedReplica 5).log.requests.lookup 5 = some ⟨"a"⟩ ∧
      (collectedReplica 5).state.stableCheckpoint.1 = 3 ∧
      Collected 3 (checkpointedReplica 5).log (collectedReplica 5).log := by
  have hrun : IsRun (step .transparent [1]) (PBFTProtocol.new 1 [1])
      (transitions (step .transparent [1]) (PBFTProtocol.new 1 [1]) (checkpointedEvents 5))
      (checkpointedReplica 5) := .of_isSome (by decide +kernel)
  have htaken : (checkpointedReplica 5).handleCheckpoint .transparent completingCheckpoint =
      some (collectedReplica 5, silent) := rfl
  have hcompletes : ((checkpointedReplica 5).log.checkpoints.listAt completingCheckpoint.key).length + 1 =
      2 * (checkpointedReplica 5).state.faultToleranceCount.toNat := by decide +kernel
  refine ⟨by decide +kernel, by decide +kernel, by decide +kernel, ?_⟩
  exact (collected_iff_noOldMessage hrun htaken hcompletes).2
    (HashMap.forall_mem_listAt (by decide +kernel))

/-- The PrePrepare is for number 2, below the checkpoint, and stays. -/
theorem not_collected_of_oldPreprepare :
    (∃ run, IsRun (step .transparent [1]) (PBFTProtocol.new 1 [1]) run (checkpointedReplica 2)) ∧
      (checkpointedReplica 2).handleCheckpoint .transparent completingCheckpoint =
        some (collectedReplica 2, silent) ∧
      (collectedReplica 2).state.stableCheckpoint.1 = 3 ∧
      ¬ Collected 3 (checkpointedReplica 2).log (collectedReplica 2).log := by
  refine ⟨⟨_, .of_isSome (by decide +kernel)⟩, rfl, by decide +kernel, ?_⟩
  intro h
  have hold : ¬ ∀ msg ∈ (collectedReplica 2).log.messages.listAt
      (getMessageKey .transparent (.prePrepare (proposalFor 2))), msg.IsAfter 3 := by decide +kernel
  exact hold (h.messages _)

/-! ## One Commit for a request -/

def MessageType.asCommit : MessageType → Option Commit
  | .commit msg => some msg
  | _ => none

/-- The Commits that a run broadcasts for a request hash, over all views and numbers. -/
def sentCommits (mHash : String) (run : PbftRun) : List Commit :=
  (run.flatMap fun t ↦ (sentMessages t.out).filterMap MessageType.asCommit).filter (·.mHash = mHash)

section Step

variable {me : Bytes} {p p' : PBFTProtocol} {event : Event} {out : Answer}

/-- A step broadcasts no Commit, or one with which its request becomes prepared. -/
theorem step_sentCommits (h : step X me p event = some (p', out)) :
    (sentMessages out).filterMap MessageType.asCommit = [] ∨
      ∃ commit, (sentMessages out).filterMap MessageType.asCommit = [commit] ∧
        p.log.getRequestPhaseState commit.mHash ≠ some .prepared ∧
        p'.log.getRequestPhaseState commit.mHash = some .prepared := by
  cases step_effect h with
  | prepareQuorum msg haccepted =>
    exact .inr ⟨p.signedCommit X me msg, rfl, (verifyPrepare_eq_true haccepted).2.1, Finmap.lookup_insert _⟩
  | newview msg =>
    refine .inl ?_
    simp [sentMessages, handleNewview, newviewPrepare, SendType.payloads]
  | initialStart nodes =>
    exact .inl (by simp [sentMessages, extraInitialStart, distributePublicKey, SendType.payloads,
      MessageType.asCommit])
  | _ => exact .inl rfl

/-- A request stays prepared until the log is cleared. -/
theorem step_prepared_kept (h : step X me p event = some (p', out)) (hreset : resetsLog out = false)
    {mHash : String} (hprepared : p.log.getRequestPhaseState mHash = some .prepared) :
    p'.log.getRequestPhaseState mHash = some .prepared := by
  cases step_effect h with
  | request request number preprepare hnumber => rwa [getRequestPhaseState_recordRequest]
  | preprepare msg request hjson haccepted =>
    rw [← hprepared]
    exact getRequestPhaseState_recordRequest p.log msg.number request mHash
  | prepareQuorum msg haccepted =>
    by_cases hhash : mHash = msg.mHash
    · subst hhash
      exact Finmap.lookup_insert _
    · exact (Finmap.lookup_insert_of_ne _ hhash).trans hprepared
  | commitQuorum => cases hreset
  | replyQuorum => cases hreset
  | newview msg =>
    obtain ⟨messages, hframe⟩ := @recordPreprepares_frame X msg.preprepares p.log.clearCurrentRequest
    rw [handleNewview, hframe]
    exact hprepared
  | _ => exact hprepared

end Step

/-- From any state on, as long as the log is not cleared, a request is answered with at most one Commit, and is
prepared once it has been. -/
theorem length_sentCommits_le {me : Bytes} {p p' : PBFTProtocol} {run : PbftRun} (mHash : String)
    (hrun : IsRun (step X me) p run p') (hkept : ∀ t ∈ run, resetsLog t.out = false) :
    (sentCommits mHash run).length ≤ 1 ∧
      (sentCommits mHash run ≠ [] → p'.log.getRequestPhaseState mHash = some .prepared) := by
  refine IsRun.induction_of_forall (motive := fun run p' ↦ (sentCommits mHash run).length ≤ 1 ∧
    (sentCommits mHash run ≠ [] → p'.log.getRequestPhaseState mHash = some .prepared))
    ⟨Nat.zero_le 1, fun hsent ↦ absurd rfl hsent⟩ ?_ hrun hkept
  rintro run q event out q' ⟨hlength, hprepared⟩ hreset htaken
  have hgrow : sentCommits mHash (run ++ [⟨q, event, out, q'⟩]) = sentCommits mHash run ++
      ((sentMessages out).filterMap MessageType.asCommit).filter (·.mHash = mHash) := by
    simp [sentCommits]
  rw [hgrow]
  by_cases hsends : ((sentMessages out).filterMap MessageType.asCommit).filter (·.mHash = mHash) = []
  · rw [hsends, List.append_nil]
    exact ⟨hlength, fun hsent ↦ step_prepared_kept htaken hreset (hprepared hsent)⟩
  · rcases step_sentCommits htaken with hnone | ⟨commit, hone, hbefore, hafter⟩
    · exact absurd (by rw [hnone]; rfl) hsends
    · have hhash : commit.mHash = mHash := by
        by_contra hother
        exact hsends (by rw [hone]; simp [hother])
      subst hhash
      have hfirst : sentCommits commit.mHash run = [] := by
        by_contra hsent
        exact hbefore (hprepared hsent)
      rw [hfirst, hone]
      exact ⟨by simp, fun _ ↦ hafter⟩

/-- Between two clearings of its log a replica broadcasts at most one Commit for a request. -/
theorem commitsOnce_of_not_cleared {f : UInt64} {keypair me : Bytes} {run before stretch after : PbftRun}
    {p : PBFTProtocol} (hrun : IsRun (step X me) (PBFTProtocol.new f keypair) run p)
    (hsplit : run = before ++ stretch ++ after) (hkept : ∀ t ∈ stretch, resetsLog t.out = false)
    (mHash : String) : (sentCommits mHash stretch).length ≤ 1 := by
  obtain ⟨last, hfirst⟩ := hrun.exists_of_append hsplit
  obtain ⟨first, hstretch⟩ := hfirst.exists_from_append rfl
  exact (length_sentCommits_le mHash hstretch hkept).1

/-- A Prepare of a peer for the request "a" at the number. -/
def prepareFor (peer : Bytes) (number : UInt64) : Prepare :=
  let prepare := { roundPrepare peer ⟨"a"⟩ with number := number }
  let keyStr := getMessageKey .transparent (.prepare prepare)
  { prepare with signature := Externals.transparent.sign peer (asBytes keyStr) }

/-- A replica is told the request "a" for numbers 1 and 2, and two peers prepare each of the slots. -/
def twiceProposedEvents : List Event :=
  [.message (.publicKey ⟨[2], [2]⟩), .message (.publicKey ⟨[3], [3]⟩), .message (.prePrepare (proposalFor 1)),
    .message (.prePrepare (proposalFor 2)), .message (.prepare (prepareFor [2] 1)),
    .message (.prepare (prepareFor [3] 1)), .message (.prepare (prepareFor [2] 2)),
    .message (.prepare (prepareFor [3] 2))]

/-- One Commit is sent, for number 1; the Prepares for number 2 come too late. -/
theorem commitsOnce_of_not_cleared_twice :
    ∃ run p, IsRun (step .transparent [1]) (PBFTProtocol.new 1 [1]) run p ∧
      (sentCommits (requestHash .transparent ⟨"a"⟩) run).map Commit.number = [1] ∧
      (sentCommits (requestHash .transparent ⟨"a"⟩) run).length ≤ 1 := by
  have hrun : IsRun (step .transparent [1]) (PBFTProtocol.new 1 [1])
      (transitions (step .transparent [1]) (PBFTProtocol.new 1 [1]) twiceProposedEvents) _ :=
    .of_isSome (by decide +kernel)
  have hkept : ∀ t ∈ transitions (step .transparent [1]) (PBFTProtocol.new 1 [1]) twiceProposedEvents,
      resetsLog t.out = false := by decide +kernel
  exact ⟨_, _, hrun, by decide +kernel,
    commitsOnce_of_not_cleared hrun (by rw [List.nil_append, List.append_nil]) hkept _⟩

end BFTDiagnosis.Pbft
