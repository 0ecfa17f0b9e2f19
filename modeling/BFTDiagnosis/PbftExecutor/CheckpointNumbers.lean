import BFTDiagnosis.PbftExecutor.Outcomes

/-!
# The numbers of CheckPoints

A node broadcasts a CheckPoint at every fiftieth request that it commits. The number in it is the stable
checkpoint plus fifty, and the stable checkpoint is set when CheckPoints of other nodes come in, so the number
is that of the committed requests only when the checkpoint before is the stable one by then.
-/

namespace BFTDiagnosis.PbftExecutor

open Utils Word
open Pbft (PrePrepare Prepare Commit CheckPoint PublicKey ProofMessages LogPhaseState)

abbrev ExecutorRun := List (Transition Node Event (List MessageType))

/-! ## Runs -/

section Runs

variable {X : Externals} {me keypair : Bytes} {f : UInt64} {db : HashMap ℕ Bytes}

/-- The numbers of the requests that are committed along a run. -/
def committedNumbers (run : ExecutorRun) : List UInt64 := run.flatMap fun t ↦ committed t.out

/-- The number of the checkpoint that was made stable last, zero when there is none. -/
def lastStabilized (run : ExecutorRun) : UInt64 := (run.filterMap stabilized).getLastD 0

theorem committedNumbers_concat (run : ExecutorRun) (t : Transition Node Event (List MessageType)) :
    committedNumbers (run ++ [t]) = committedNumbers run ++ committed t.out := by
  rw [committedNumbers, List.flatMap_append, List.flatMap_singleton]
  rfl

theorem lastStabilized_concat (run : ExecutorRun) (t : Transition Node Event (List MessageType)) :
    lastStabilized (run ++ [t]) = (stabilized t).getD (lastStabilized run) := by
  unfold lastStabilized
  rw [filterMap_concat]
  cases stabilized t with
  | none => rw [Option.toList_none, List.append_nil, Option.getD_none]
  | some number => rw [Option.toList_some, List.getLastD_concat, Option.getD_some]

/-- The count is that of the committed requests, and the stable checkpoint the one that was completed last. -/
theorem state_of_isRun {run : ExecutorRun} {n : Node} (h : IsRun (step X me) (Node.new f db keypair) run n) :
    n.state.currentCommitedRequestCount.toNat = (committedNumbers run).length ∧
      n.state.stableCheckpoint.1 = lastStabilized run := by
  induction h with
  | nil => exact ⟨rfl, rfl⟩
  | snoc previous taken ih =>
    have houtcome := step_outcome taken
    rw [committedNumbers_concat, List.length_append, lastStabilized_concat, ← ih.1, ← ih.2]
    exact ⟨houtcome.count, houtcome.stable⟩

/-- The CheckPoints that a call sends carry the number of the requests committed by then. -/
def NumberedByCount (before : ExecutorRun) (t : Transition Node Event (List MessageType)) : Prop :=
  ∀ msg ∈ sentCheckpoints t.out, msg.currentMaxNumber.toNat = (committedNumbers (before ++ [t])).length

/-- In every run a CheckPoint carries the number of the committed requests exactly when the checkpoint fifty
requests before is the one that became stable last. -/
theorem numberedByCount_iff {run : ExecutorRun} {n : Node}
    (hrun : IsRun (step X me) (Node.new f db keypair) run n) :
    ∀ before t after, run = before ++ t :: after →
      (NumberedByCount before t ↔ (CommitsRequest X t → 50 ∣ (committedNumbers before).length + 1 →
        (lastStabilized before).toNat + 50 = (committedNumbers before).length + 1)) := by
  intro before t after hsplit
  obtain ⟨hbefore, htaken⟩ := hrun.before hsplit
  obtain ⟨hcount, hstable⟩ := state_of_isRun hbefore
  have houtcome : Outcome X t := step_outcome htaken
  have hpost := houtcome.count
  rw [hcount] at hpost
  unfold NumberedByCount
  rw [committedNumbers_concat, List.length_append, ← hstable]
  rcases houtcome.replies with ⟨hcommits, number, hreplies, -⟩ | ⟨hnot, hreplies⟩
  · rw [hreplies, List.length_singleton] at hpost ⊢
    rw [← hpost]
    rcases houtcome.checkpoints with ⟨-, hdvd, msg, hsent, hnumber⟩ | ⟨hnone, hsent⟩
    · rw [hsent, List.forall_mem_singleton, hnumber]
      exact ⟨fun h _ _ ↦ h, fun h ↦ h hcommits hdvd⟩
    · rw [hsent]
      exact iff_of_true (List.forall_mem_nil _) fun _ hdvd ↦ absurd ⟨hcommits, hdvd⟩ hnone
  · have hsent : sentCheckpoints t.out = [] := by
      rcases houtcome.checkpoints with ⟨hcommits, -⟩ | ⟨-, hsent⟩
      · exact absurd hcommits hnot
      · exact hsent
    rw [hsent]
    exact iff_of_true (List.forall_mem_nil _) fun hcommits ↦ absurd hcommits hnot

theorem fifty_dvd_lastStabilized {run : ExecutorRun}
    (h : ∀ t ∈ run, ∀ number, stabilized t = some number → 50 ∣ number.toNat) : 50 ∣ (lastStabilized run).toNat := by
  have hlast : lastStabilized run ∈ 0 :: run.filterMap stabilized := List.getLastD_mem_cons
  rcases List.mem_cons.1 hlast with hnone | hmem
  · rw [hnone]
    exact dvd_zero 50
  · obtain ⟨t, ht, hnumber⟩ := List.mem_filterMap.1 hmem
    exact h t ht _ hnumber

/-- When the requests are committed in order and the checkpoints of the other nodes are multiples of fifty, as
those of this node are then, a CheckPoint that does not carry the number of the committed requests carries the
one of the checkpoint before. -/
theorem number_of_inOrder {run : ExecutorRun} {n : Node}
    (hrun : IsRun (step X me) (Node.new f db keypair) run n)
    (horder : (committedNumbers run).map UInt64.toNat = List.range' 1 (committedNumbers run).length)
    (hmultiples : ∀ t ∈ run, ∀ number, stabilized t = some number → 50 ∣ number.toNat) :
    ∀ before t after, run = before ++ t :: after → ∀ msg ∈ sentCheckpoints t.out, 50 ∣ msg.currentMaxNumber.toNat ∧
      (msg.currentMaxNumber.toNat = (committedNumbers (before ++ [t])).length ∨
        msg.currentMaxNumber.toNat + 50 = (committedNumbers (before ++ [t])).length) := by
  intro before t after hsplit msg hmsg
  obtain ⟨hbefore, htaken⟩ := hrun.before hsplit
  obtain ⟨hcount, hstable⟩ := state_of_isRun hbefore
  have houtcome : Outcome X t := step_outcome htaken
  have hlast : 50 ∣ (lastStabilized before).toNat := by
    refine fifty_dvd_lastStabilized fun t' ht' ↦ hmultiples t' ?_
    rw [hsplit]
    exact List.mem_append_left _ ht'
  rcases houtcome.checkpoints with ⟨hcommits, hdvd, msg', hsent, hnumber⟩ | ⟨-, hsent⟩
  · obtain rfl : msg = msg' := List.mem_singleton.1 (hsent ▸ hmsg)
    rcases houtcome.replies with ⟨-, number, hreplies, hlow, hhigh⟩ | ⟨hnot, -⟩
    · -- the number that is committed is the count, and it is in the window
      have hposition : number.toNat = (committedNumbers before).length + 1 := by
        have hnumbers : committedNumbers run = committedNumbers before ++ number :: committedNumbers after := by
          rw [hsplit, committedNumbers, List.flatMap_append, List.flatMap_cons, hreplies]
          rfl
        have hshort : (committedNumbers before).length < (committedNumbers run).length := by
          rw [hnumbers, List.length_append, List.length_cons]
          omega
        have hat : ((committedNumbers run).map UInt64.toNat)[(committedNumbers before).length]? =
            some number.toNat := by
          rw [List.getElem?_map, hnumbers, List.getElem?_append_right le_rfl, Nat.sub_self]
          rfl
        rw [horder, List.getElem?_range' hshort, Option.some.injEq] at hat
        omega
      have hpost := houtcome.count
      rw [hcount, hreplies, List.length_singleton] at hpost
      rw [hstable] at hlow hhigh hnumber
      rw [hpost] at hdvd
      rw [committedNumbers_concat, List.length_append, hreplies, List.length_singleton]
      omega
    · exact absurd hcommits hnot
  · rw [hsent] at hmsg
    cases hmsg

end Runs

/-! ## A late checkpoint -/

section Late

/-- The keys of two of the other nodes. -/
def peerKeys : HashMap ℕ Bytes := HashMap.ofEntries [(1, [11]), (2, [12])]

/-- The request of the client `i`. -/
def clientRequest (i : ℕ) : Request := ⟨"", "", [UInt8.ofNat i], ""⟩

def clientRequestHash (i : ℕ) : String := getMessageKey .transparent (.request (clientRequest i))

def clientPreprepare (i : ℕ) : PrePrepare :=
  let preprepare : PrePrepare :=
    { view := 0, number := UInt64.ofNat i, mHash := clientRequestHash i,
      m := Externals.transparent.serializeRequest (clientRequest i), signature := [], fromPeerId := [1] }
  { preprepare with signature := [11] ++ asBytes (getMessageKey .transparent (.prePrepare preprepare)) }

/-- The Commit for the request `i` that a peer has signed with its key pair. -/
def clientCommit (peer key : UInt8) (i : ℕ) : Commit :=
  let commit : Commit :=
    { view := 0, number := UInt64.ofNat i, mHash := clientRequestHash i, signature := [], fromPeerId := [peer] }
  { commit with signature := [key] ++ asBytes (getMessageKey .transparent (.commit commit)) }

theorem unmark_markBytes (bytes rest : Bytes) : unmark (markBytes bytes ++ 0 :: rest) = (bytes, rest) := by
  induction bytes with
  | nil => rfl
  | cons byte bytes ih =>
    show ((byte :: (unmark (markBytes bytes ++ 0 :: rest)).1), (unmark (markBytes bytes ++ 0 :: rest)).2) = _
    rw [ih]

theorem deserializeRequest_clientRequest (i : ℕ) :
    Externals.transparent.deserializeRequest (Externals.transparent.serializeRequest (clientRequest i)) =
      some (clientRequest i) := by
  have hbytes : Externals.transparent.serializeRequest (clientRequest i) =
      markBytes [] ++ 0 :: (markBytes [] ++ 0 :: (markBytes [UInt8.ofNat i] ++ 0 :: [])) := rfl
  rw [hbytes]
  simp only [Externals.transparent, unmark_markBytes]
  exact if_pos rfl

theorem clientRequestHash_injOn {i j : ℕ} (hi : i ≤ 100) (hj : j ≤ 100)
    (h : clientRequestHash i = clientRequestHash j) : i = j := by
  have hrequest : clientRequest i = clientRequest j :=
    serializeRequest_transparent_injective (Platform.collisionFree_transparent h)
  have hclient := List.singleton_inj.1 (Request.mk.inj hrequest).2.2.1
  rw [← UInt8.toNat_inj, UInt8.toNat_ofNat', UInt8.toNat_ofNat'] at hclient
  omega

theorem verifySignature_peer {n : Node} (hdb : n.db = peerKeys) (key : String) :
    n.verifySignature .transparent [1] ([11] ++ asBytes key) key = some true ∧
      n.verifySignature .transparent [2] ([12] ++ asBytes key) key = some true := by
  have hfirst : n.getPublicKeyByPeerId [1] = some (some [11]) := by
    rw [Node.getPublicKeyByPeerId, hdb]
    decide
  have hsecond : n.getPublicKeyByPeerId [2] = some (some [12]) := by
    rw [Node.getPublicKeyByPeerId, hdb]
    decide
  constructor
  · rw [Node.verifySignature, hfirst]
    exact congrArg some (beq_self_eq_true _)
  · rw [Node.verifySignature, hsecond]
    exact congrArg some (beq_self_eq_true _)

/-- The key under which the Commits for the request `i` are counted. -/
def clientCommitKey (i : ℕ) : String :=
  getMessageKey .transparent (.commit (clientCommit 1 11 i))

theorem clientCommitKey_injOn {i j : ℕ} (hi : i ≤ 100) (hj : j ≤ 100) (h : clientCommitKey i = clientCommitKey j) :
    i = j := by
  obtain ⟨-, -, hnumber, -⟩ := Pbft.phaseKeyBytes_inj (Platform.collisionFree_transparent h)
  have hvalue := congrArg UInt64.toNat hnumber
  simp only [clientCommit, UInt64.toNat_ofNat'] at hvalue
  omega

theorem clientCommitKey_ne_preprepare (i j : ℕ) :
    clientCommitKey i ≠ getMessageKey .transparent (.prePrepare (clientPreprepare j)) := by
  intro h
  obtain ⟨hkind, -⟩ := Pbft.phaseKeyBytes_inj (Platform.collisionFree_transparent h)
  exact absurd hkind (by decide)

/-- Nothing about the request `i` has been logged. -/
structure Fresh (log : NodeLog) (i : ℕ) : Prop where
  request : UInt64.ofNat i ∉ log.requests
  commits : log.messages.listAt (clientCommitKey i) = []
  phase : log.getRequestPhaseState (clientRequestHash i) = none

/-- The log after the PrePrepare for the request `i` has been accepted. -/
def proposed (log : NodeLog) (i : ℕ) : NodeLog :=
  ((log.recordRequest (UInt64.ofNat i) (clientRequest i)).recordMessageHandler .transparent
    (.prePrepare (clientPreprepare i))).recordCurrentRequest (clientRequestHash i)

theorem ofNat_ne {i j : ℕ} (hi : i ≤ 100) (hj : j ≤ 100) (hne : j ≠ i) : UInt64.ofNat j ≠ UInt64.ofNat i := by
  intro h
  have hvalue := congrArg UInt64.toNat h
  simp only [UInt64.toNat_ofNat'] at hvalue
  omega

theorem messages_proposed (log : NodeLog) (i : ℕ) : (proposed log i).messages =
    log.messages.pushAt (getMessageKey .transparent (.prePrepare (clientPreprepare i)))
      (.prePrepare (clientPreprepare i)) := by
  have hmessages : (log.recordRequest (UInt64.ofNat i) (clientRequest i)).messages = log.messages := by
    unfold NodeLog.recordRequest
    split <;> rfl
  exact congrArg (HashMap.pushAt · _ _) hmessages

theorem getRequestPhaseState_proposed (log : NodeLog) (i : ℕ) (key : String) :
    (proposed log i).getRequestPhaseState key = log.getRequestPhaseState key := by
  have hphases : (log.recordRequest (UInt64.ofNat i) (clientRequest i)).requestPhaseState =
      log.requestPhaseState := by
    unfold NodeLog.recordRequest
    split <;> rfl
  exact congrArg (Finmap.lookup key) hphases

theorem requests_proposed {log : NodeLog} {i : ℕ} (h : UInt64.ofNat i ∉ log.requests) :
    (proposed log i).requests = log.requests.insert (UInt64.ofNat i) (clientRequest i) := by
  have hrequests : (log.recordRequest (UInt64.ofNat i) (clientRequest i)).requests =
      log.requests.insert (UInt64.ofNat i) (clientRequest i) := by
    rw [NodeLog.recordRequest, if_neg h]
  exact hrequests

section Fresh

variable {log : NodeLog} {i j : ℕ} (hi : i ≤ 100) (hj : j ≤ 100) (hne : j ≠ i) (h : Fresh log j)

include hi hj hne h

theorem Fresh.proposed (hrequest : UInt64.ofNat i ∉ log.requests) : Fresh (proposed log i) j where
  request := by
    rw [requests_proposed hrequest, Finmap.mem_insert, not_or]
    exact ⟨ofNat_ne hi hj hne, h.request⟩
  commits := by
    rw [messages_proposed, HashMap.listAt_pushAt_of_ne _ _ (clientCommitKey_ne_preprepare j i), h.commits]
  phase := by rw [getRequestPhaseState_proposed, h.phase]

theorem Fresh.voted (peer key : UInt8) :
    Fresh (log.recordMessageHandler .transparent (.commit (clientCommit peer key i))) j where
  request := h.request
  commits := by
    have hkey : clientCommitKey j ≠ getMessageKey .transparent (.commit (clientCommit peer key i)) :=
      fun hsame ↦ hne (clientCommitKey_injOn hj hi hsame)
    exact (HashMap.listAt_pushAt_of_ne _ _ hkey).trans h.commits
  phase := h.phase

theorem Fresh.commited :
    Fresh (log.removeCommitedRequest.updateRequestPhaseState (clientRequestHash i) .commited) j where
  request := h.request
  commits := h.commits
  phase := (Finmap.lookup_insert_of_ne _ fun hsame ↦ hne (clientRequestHash_injOn hj hi hsame)).trans h.phase

end Fresh

/-- A node with one tolerated fault for which no checkpoint has become stable. -/
structure Standing (n : Node) : Prop where
  mode : n.state.mode = .normal
  view : n.state.view = 0
  faults : n.state.faultToleranceCount = 1
  stable : n.state.stableCheckpoint = (0, "")
  keys : n.db = peerKeys

/-- The first `k` requests have been committed. -/
structure Served (k : ℕ) (n : Node) : Prop extends Standing n where
  count : n.state.currentCommitedRequestCount.toNat = k
  fresh : ∀ j, k < j → j ≤ 100 → Fresh n.log j

/-- The request `i` is the next one to be committed, and so many Commits for it have come in. -/
structure Pending (i votes : ℕ) (n : Node) : Prop extends Standing n where
  count : n.state.currentCommitedRequestCount.toNat + 1 = i
  request : n.log.requests.lookup (UInt64.ofNat i) = some (clientRequest i)
  commits : (n.log.messages.listAt (clientCommitKey i)).length = votes
  phase : n.log.getRequestPhaseState (clientRequestHash i) = none
  fresh : ∀ j, i < j → j ≤ 100 → Fresh n.log j

theorem Standing.checkSequenceNumber {n : Node} (h : Standing n) {i : ℕ} (hpos : 0 < i) (hi : i ≤ 100) :
    n.checkSequenceNumber (UInt64.ofNat i) = some true := by
  have hvalue : (UInt64.ofNat i).toNat = i := UInt64.toNat_ofNat_of_lt' (lt_of_le_of_lt hi (by decide))
  have hlow : ¬ UInt64.ofNat i ≤ 0 := by
    rw [UInt64.le_iff_toNat_le, hvalue]
    exact Nat.not_le.2 hpos
  have hhigh : ¬ (100 : UInt64) < UInt64.ofNat i := by
    rw [UInt64.lt_iff_toNat_lt, hvalue]
    exact Nat.not_lt.2 hi
  have hsum : checkedAdd 0 100 = some 100 := by decide
  simp only [Node.checkSequenceNumber, h.stable, hsum, hlow, hhigh, decide_false, Bool.or_self, Bool.not_false,
    Option.bind_eq_bind, Option.bind_some, Option.pure_def]

section Handlers

variable {X : Externals} {me : Bytes} {n : Node} {m : Request}

theorem handlePreprepare_of_checked {msg : PrePrepare}
    (hsigned : n.verifySignature X msg.fromPeerId msg.signature (getMessageKey X (.prePrepare msg)) = some true)
    (hwindow : n.checkSequenceNumber msg.number = some true) (hview : n.state.view = msg.view)
    (hm : X.deserializeRequest msg.m = some m) :
    n.handlePreprepare X me msg =
      let log := (n.log.recordRequest msg.number m).recordMessageHandler X (.prePrepare msg)
      some ({ n with log := log.recordCurrentRequest msg.mHash }, [.prepare (n.signedPrepare X me msg)]) := by
  simp only [Node.handlePreprepare, hsigned, hwindow, hview, hm, Option.bind_eq_bind, Option.bind_some,
    Option.pure_def, Bool.not_true, Bool.false_eq_true, if_false, ne_eq, not_true_eq_false]

theorem handleCommit_of_checked {msg : Commit}
    (hchecked : n.checkVote X msg.fromPeerId msg.signature (getMessageKey X (.commit msg)) msg.mHash .commited
      msg.view msg.number = some true)
    (hm : n.requestOf X msg.number msg.mHash = some m) (hfaults : n.state.faultToleranceCount = 1) :
    n.handleCommit X me msg =
      if (n.log.messages.listAt (getMessageKey X (.commit msg))).length = 1 then
        ({ n with log := n.log.recordMessageHandler X (.commit msg) } : Node).completeCommit X me msg m
      else some ({ n with log := n.log.recordMessageHandler X (.commit msg) }, []) := by
  have htwo : checkedMul 2 1 = some 2 := by decide
  have hgrown : (n.log.recordMessageHandler X (.commit msg)).getLocalMessagesCountByHash
      (getMessageKey X (.commit msg)) = (n.log.messages.listAt (getMessageKey X (.commit msg))).length + 1 := by
    simp only [NodeLog.getLocalMessagesCountByHash, NodeLog.recordMessageHandler, NodeLog.recordKeyed,
      HashMap.listAt_pushAt_self, List.length_append, List.length_singleton]
  have hquorum : (n.log.messages.listAt (getMessageKey X (.commit msg))).length + 1 = UInt64.toNat 2 ↔
      (n.log.messages.listAt (getMessageKey X (.commit msg))).length = 1 := Nat.succ_inj
  simp only [Node.handleCommit, hchecked, hm, hfaults, htwo, hgrown, hquorum, Option.bind_eq_bind, Option.bind_some,
    Option.pure_def, Bool.not_true, Bool.false_eq_true, if_false]

/-- The branch that commits succeeds when the count does not overflow. -/
theorem exists_completeCommit (X : Externals) (me : Bytes) (n : Node) (msg : Commit) (m : Request)
    (hcount : n.state.currentCommitedRequestCount.toNat + 1 < 2 ^ 64)
    (hstable : n.state.stableCheckpoint.1 = 0) : ∃ count due,
      n.completeCommit X me msg m = some ({ n with
        state := { n.state.updateCheckpointState X msg.mHash with currentCommitedRequestCount := count }
        log := n.log.removeCommitedRequest.updateRequestPhaseState msg.mHash .commited }, due) ∧
      count.toNat = n.state.currentCommitedRequestCount.toNat + 1 ∧ committed due = [msg.number] := by
  have hfits : (checkedAdd n.state.currentCommitedRequestCount 1).isSome = true := isSome_checkedAdd.2 hcount
  obtain ⟨count, hnext⟩ := Option.isSome_iff_exists.1 hfits
  have hsum : checkedAdd 0 stableCheckpointDelta = some 50 := by decide
  have hdue : ∃ due, Node.dueCheckpoints { n with
      state := { n.state.updateCheckpointState X msg.mHash with currentCommitedRequestCount := count }
      log := n.log.removeCommitedRequest } me = some due := by
    unfold Node.dueCheckpoints
    dsimp only
    split
    · simp only [Node.checkpointMessage, NodeState.updateCheckpointState, hstable, hsum, Option.bind_eq_bind,
        Option.bind_some, Option.pure_def, Option.map_some]
      exact ⟨_, rfl⟩
    · exact ⟨[], rfl⟩
  obtain ⟨due, hdue⟩ := hdue
  have hpositive : 0 < count.toNat := (toNat_of_checkedAdd hnext) ▸ Nat.succ_pos _
  obtain ⟨hreplies, -⟩ := dueCheckpoints_cases hpositive hdue
  refine ⟨count, due ++ [.reply (Node.signedReply X { n with
    state := { n.state.updateCheckpointState X msg.mHash with currentCommitedRequestCount := count }
    log := n.log.removeCommitedRequest } me msg m)], ?_, toNat_of_checkedAdd hnext, ?_⟩
  · exact Option.bind_eq_some_iff.2 ⟨count, hnext, Option.bind_eq_some_iff.2 ⟨due, hdue, rfl⟩⟩
  · rw [committed, List.filterMap_append]
    exact congrArg (· ++ [msg.number]) hreplies

end Handlers

theorem Served.propose {k : ℕ} {n : Node} (h : Served k n) (hk : k < 100) : ∃ n' out,
    step .transparent [3] n (.message (.prePrepare (clientPreprepare (k + 1)))) = some (n', out) ∧
      Pending (k + 1) 0 n' ∧ committed out = [] := by
  have hfresh := h.fresh (k + 1) k.lt_succ_self hk
  have hsigned := (verifySignature_peer h.keys
    (getMessageKey .transparent (.prePrepare (clientPreprepare (k + 1))))).1
  have hwindow := h.checkSequenceNumber k.succ_pos hk
  refine ⟨{ n with log := proposed n.log (k + 1) },
    [.prepare (n.signedPrepare .transparent [3] (clientPreprepare (k + 1)))], ?_, ?_, rfl⟩
  · simp only [step, Node.messageHandler, h.mode]
    exact handlePreprepare_of_checked hsigned hwindow h.view (deserializeRequest_clientRequest (k + 1))
  · refine ⟨⟨h.mode, h.view, h.faults, h.stable, h.keys⟩, congrArg (· + 1) h.count, ?_, ?_, ?_, ?_⟩
    · rw [requests_proposed hfresh.request]
      exact Finmap.lookup_insert _
    · rw [messages_proposed, HashMap.listAt_pushAt_of_ne _ _ (clientCommitKey_ne_preprepare _ _), hfresh.commits]
      rfl
    · rw [getRequestPhaseState_proposed, hfresh.phase]
    · intro j hlt hj
      exact (h.fresh j (Nat.lt_of_succ_lt hlt) hj).proposed hk hj hlt.ne' hfresh.request

section Vote

variable {n : Node} {i votes : ℕ} {peer key : UInt8} (h : Pending i votes n) (hi : i ≤ 100)
  (hpeer : n.verifySignature .transparent [peer] (clientCommit peer key i).signature (clientCommitKey i) = some true)

include h hi hpeer

/-- A Commit for the next request is counted, and the second one commits it. -/
theorem Pending.handleCommit_eq : step .transparent [3] n (.message (.commit (clientCommit peer key i))) =
    if votes = 1 then
      ({ n with log := n.log.recordMessageHandler .transparent (.commit (clientCommit peer key i)) } :
        Node).completeCommit .transparent [3] (clientCommit peer key i) (clientRequest i)
    else some ({ n with log := n.log.recordMessageHandler .transparent (.commit (clientCommit peer key i)) }, []) := by
  have hpos : 0 < i := h.count ▸ Nat.succ_pos _
  have hwindow := h.checkSequenceNumber hpos hi
  have hphase : ¬ n.log.getRequestPhaseState (clientCommit peer key i).mHash = some .commited := by
    intro hcommited
    cases hcommited.symm.trans h.phase
  have hview : (n.state.view == (clientCommit peer key i).view) = true := beq_iff_eq.2 h.view
  have hchecked : n.checkVote .transparent (clientCommit peer key i).fromPeerId (clientCommit peer key i).signature
      (getMessageKey .transparent (.commit (clientCommit peer key i))) (clientCommit peer key i).mHash .commited
      (clientCommit peer key i).view (clientCommit peer key i).number = some true := by
    have hsigned : n.verifySignature .transparent (clientCommit peer key i).fromPeerId
      (clientCommit peer key i).signature (getMessageKey .transparent (.commit (clientCommit peer key i))) =
        some true := hpeer
    have hnumber : n.checkSequenceNumber (clientCommit peer key i).number = some true := hwindow
    simp only [Node.checkVote, hsigned, hphase, hnumber, hview, Option.bind_eq_bind, Option.bind_some,
      Option.pure_def, Bool.not_true, Bool.false_eq_true, if_false, Bool.and_self]
  have hrequest : n.requestOf .transparent (clientCommit peer key i).number (clientCommit peer key i).mHash =
      some (clientRequest i) := by
    have hlogged : n.log.getLocalRequestBySequenceNumber (clientCommit peer key i).number =
        some (clientRequest i) := h.request
    rw [Node.requestOf, hlogged]
    exact Option.filter_some_pos (beq_self_eq_true (clientRequestHash i))
  have hcount : (n.log.messages.listAt (getMessageKey .transparent (.commit (clientCommit peer key i)))).length =
      votes := h.commits
  rw [step, Node.messageHandler, h.mode]
  dsimp only
  rw [handleCommit_of_checked hchecked hrequest h.faults, hcount]

end Vote

theorem Pending.vote {n : Node} {i : ℕ} (h : Pending i 0 n) (hi : i ≤ 100) : ∃ n',
    step .transparent [3] n (.message (.commit (clientCommit 1 11 i))) = some (n', []) ∧ Pending i 1 n' := by
  refine ⟨_, h.handleCommit_eq hi (verifySignature_peer h.keys _).1, ?_⟩
  refine ⟨⟨h.mode, h.view, h.faults, h.stable, h.keys⟩, h.count, h.request, ?_, h.phase, ?_⟩
  · have hgrown := HashMap.listAt_pushAt_self n.log.messages (clientCommitKey i)
      (.commit (clientCommit 1 11 i))
    exact (congrArg List.length hgrown).trans (by rw [List.length_append, h.commits, List.length_singleton])
  · intro j hlt hj
    exact (h.fresh j hlt hj).voted hi hj hlt.ne' 1 11

theorem Pending.complete {n : Node} {i : ℕ} (h : Pending i 1 n) (hi : i ≤ 100) : ∃ n' out,
    step .transparent [3] n (.message (.commit (clientCommit 2 12 i))) = some (n', out) ∧
      Served i n' ∧ committed out = [UInt64.ofNat i] := by
  have hfits : n.state.currentCommitedRequestCount.toNat + 1 < 2 ^ 64 := by
    rw [h.count]
    exact lt_of_le_of_lt hi (by decide)
  obtain ⟨count, due, hresult, hcount, hreplies⟩ := exists_completeCommit .transparent [3]
    { n with log := n.log.recordMessageHandler .transparent (.commit (clientCommit 2 12 i)) } (clientCommit 2 12 i)
    (clientRequest i) hfits (congrArg Prod.fst h.stable)
  refine ⟨_, due, (h.handleCommit_eq hi (verifySignature_peer h.keys _).2).trans hresult, ?_, hreplies⟩
  refine ⟨⟨h.mode, h.view, h.faults, h.stable, h.keys⟩, hcount.trans h.count, ?_⟩
  intro j hlt hj
  exact ((h.fresh j hlt hj).voted hi hj hlt.ne' 2 12).commited hi hj hlt.ne'

/-- Requests 1 to `k` committed in order, without any CheckPoint of another node. -/
structure LateRun (k : ℕ) (run : ExecutorRun) : Prop where
  inOrder : (committedNumbers run).map UInt64.toNat = List.range' 1 k
  late : ∀ t ∈ run, ∀ msg, t.event ≠ .message (.checkPoint msg)

theorem exists_lateRun {k : ℕ} (hk : k ≤ 100) : ∃ run n,
    IsRun (step .transparent [3]) (Node.new 1 peerKeys [13]) run n ∧ Served k n ∧ LateRun k run ∧
      (0 < k → ∃ before t, run = before ++ [t] ∧ committed t.out ≠ []) := by
  induction k with
  | zero =>
    refine ⟨[], _, .nil, ⟨⟨rfl, rfl, rfl, rfl, rfl⟩, rfl, fun j _ _ ↦ ?_⟩, ⟨rfl, List.forall_mem_nil _⟩, nofun⟩
    exact ⟨Finmap.notMem_empty, HashMap.listAt_empty _, Finmap.lookup_empty _⟩
  | succ k ih =>
    obtain ⟨run, n, hrun, hserved, ⟨horder, hlate⟩, -⟩ := ih (Nat.le_of_succ_le hk)
    obtain ⟨n₁, out₁, hpropose, hpending, hnone⟩ := hserved.propose hk
    obtain ⟨n₂, hvote, hvoted⟩ := hpending.vote hk
    obtain ⟨n₃, out₃, hcomplete, hserved', hreplies⟩ := hvoted.complete hk
    refine ⟨_, n₃, ((hrun.snoc hpropose).snoc hvote).snoc hcomplete, hserved', ⟨?_, ?_⟩, fun _ ↦ ⟨_, _, rfl, ?_⟩⟩
    · have hvalue : (UInt64.ofNat (k + 1)).toNat = 1 + k :=
        (UInt64.toNat_ofNat_of_lt' (lt_of_le_of_lt hk (by decide))).trans (Nat.add_comm k 1)
      have hnoVote : committed [] = [] := rfl
      simp only [committedNumbers_concat, hnone, hnoVote, hreplies, List.append_nil, List.map_append, horder,
        List.map_cons, List.map_nil, hvalue]
      exact List.range'_1_concat.symm
    · intro t ht msg
      simp only [List.mem_append, List.mem_singleton] at ht
      rcases ht with ((ht | rfl) | rfl) | rfl
      · exact hlate t ht msg
      all_goals exact nofun
    · rw [hreplies]
      exact List.cons_ne_nil _ _

/-- The CheckPoint of the hundredth request carries fifty when those for the fiftieth have not come in yet. -/
theorem exists_late_not_numberedByCount : ∃ run n,
    IsRun (step .transparent [3]) (Node.new 1 peerKeys [13]) run n ∧ LateRun 100 run ∧
      ∃ before t after, run = before ++ t :: after ∧ ¬ NumberedByCount before t := by
  obtain ⟨run, n, hrun, hserved, hlate, hlast⟩ := exists_lateRun le_rfl
  obtain ⟨before, t, rfl, hcommitted⟩ := hlast (by decide)
  refine ⟨_, n, hrun, hlate, before, t, [], rfl, ?_⟩
  have hpost : t.post = n := hrun.post_of_concat
  have houtcome : Outcome .transparent t := step_outcome (hrun.before rfl).2
  have hnone : stabilized t = none := by
    unfold stabilized
    split
    case h_1 msg hevent => exact absurd hevent (hlate.late t (List.mem_concat_self) msg)
    case h_2 => rfl
  have hstable : t.pre.state.stableCheckpoint.1 = 0 := by
    rw [← Option.getD_none (a := t.pre.state.stableCheckpoint.1), ← hnone, ← houtcome.stable, hpost, hserved.stable]
  have hlength : (committedNumbers (before ++ [t])).length = 100 := by
    rw [← List.length_map UInt64.toNat, hlate.inOrder, List.length_range']
  have hcommits : CommitsRequest .transparent t := by
    rcases houtcome.replies with ⟨hcommits, -⟩ | ⟨-, hreplies⟩
    · exact hcommits
    · exact absurd hreplies hcommitted
  intro hnumbered
  rcases houtcome.checkpoints with ⟨-, -, msg, hsent, hnumber⟩ | ⟨hnot, -⟩
  · have hcount := hnumbered msg (hsent ▸ List.mem_singleton_self msg)
    rw [hnumber, hstable, hlength] at hcount
    exact absurd hcount (by decide)
  · refine hnot ⟨hcommits, ?_⟩
    rw [hpost, hserved.count]
    decide

/-- The condition decides about every CheckPoint of that run. -/
theorem numberedByCount_iff_of_late : ∃ run n,
    IsRun (step .transparent [3]) (Node.new 1 peerKeys [13]) run n ∧ LateRun 100 run ∧
      ∀ before t after, run = before ++ t :: after →
        (NumberedByCount before t ↔ (CommitsRequest .transparent t → 50 ∣ (committedNumbers before).length + 1 →
          (lastStabilized before).toNat + 50 = (committedNumbers before).length + 1)) := by
  obtain ⟨run, n, hrun, -, hlate, -⟩ := exists_lateRun le_rfl
  exact ⟨run, n, hrun, hlate, numberedByCount_iff hrun⟩

end Late
end BFTDiagnosis.PbftExecutor
