import BFTDiagnosis.Lib.World
import BFTDiagnosis.PbftExecutor.SingleView

/-!
# Nodes that commit one request

Standalone executors that exchange messages over a network that loses, delays, repeats and reorders them. Every
PrePrepare of such a node is number one, and the first request of a number stays, so a node only ever counts the
Commits of one request; as its log only grows, it completes the quorum at most once. Everything but the PrePrepares
may be forged, CheckPoints included.
-/

namespace BFTDiagnosis.PbftExecutor

open Word
open Pbft (PrePrepare Prepare Commit CheckPoint PublicKey ProofMessages LogPhaseState)

def MessageType.preprepare : MessageType → Option PrePrepare
  | .prePrepare msg => some msg
  | _ => none

/-- The PrePrepares that are sent. -/
def sentPreprepares (out : List MessageType) : List PrePrepare := out.filterMap MessageType.preprepare

/-- The key under which the Commits for a request are counted, at number one of view zero. -/
def commitKey (X : Externals) (request : Request) : String :=
  X.getHashStr (Pbft.phaseKeyBytes Pbft.commitPrefix (asBytes (getMessageKey X (.request request))) 0 1)

/-- Nothing has been committed, or request number one has and the quorum of its Commits is behind. -/
structure Spent (X : Externals) (committed : List UInt64) (n : Node) : Prop where
  settled : Settled n
  numbers : ∀ number ∈ n.log.requests, number = 1
  commits : committed = [] ∨ committed = [1] ∧ ∃ request, n.log.requests.lookup 1 = some request ∧
    2 * n.state.faultToleranceCount.toNat ≤ (n.log.messages.listAt (commitKey X request)).length

variable {X : Externals} {me keypair : Bytes} {f : UInt64} {db : HashMap ℕ Bytes} {n n' : Node}
  {out : List MessageType} {commits : List UInt64}

/-! ## One call -/

/-- A Commit that is counted is for the request of its number, in the view of the node. -/
theorem CompletesCommit.key {msg : Commit} (h : CompletesCommit X n msg) (hn : Settled n)
    (hnumbers : ∀ number ∈ n.log.requests, number = 1) : ∃ request,
      n.log.requests.lookup 1 = some request ∧ msg.number = 1 ∧
        getMessageKey X (.commit msg) = commitKey X request := by
  obtain ⟨request, hrequest⟩ := Option.ne_none_iff_exists'.1 h.known
  obtain ⟨hlogged, hhash⟩ := Option.filter_eq_some_iff.1 hrequest
  have hnumber : msg.number = 1 := hnumbers _ (Finmap.mem_of_lookup_eq_some hlogged)
  have hview : msg.view = 0 := by
    obtain ⟨signed, -, hchecked⟩ := Option.bind_eq_some_iff.1 h.checked
    split at hchecked
    · cases hchecked
    split at hchecked
    · cases hchecked
    obtain ⟨inWindow, -, hchecked⟩ := Option.bind_eq_some_iff.1 hchecked
    rw [← hn.view, beq_iff_eq.1 (Bool.and_eq_true_iff.1 (Option.some.inj hchecked)).2]
  refine ⟨request, hnumber ▸ hlogged, hnumber, ?_⟩
  rw [getMessageKey, commitKey, hview, hnumber, beq_iff_eq.1 hhash]

theorem committed_completeCommit {msg : Commit} {m : Request} (h : n.completeCommit X me msg m = some (n', out)) :
    committed out = [msg.number] ∧ n'.log.messages = n.log.messages := by
  obtain ⟨count, -, h⟩ := Option.bind_eq_some_iff.1 h
  obtain ⟨due, hdue, h⟩ := Option.bind_eq_some_iff.1 h
  obtain ⟨rfl, rfl⟩ := Prod.mk.inj (Option.some.inj h)
  have hnone : committed due = [] := by
    unfold Node.dueCheckpoints at hdue
    dsimp only at hdue
    split at hdue
    · obtain ⟨checkpoint, -, rfl⟩ := Option.map_eq_some_iff.1 hdue
      rfl
    · obtain rfl := Option.some.inj hdue
      rfl
  refine ⟨?_, rfl⟩
  rw [committed, List.filterMap_append]
  exact congrArg (· ++ [msg.number]) hnone

/-- The Commit that completes the quorum is logged, and its request is committed. -/
theorem CompletesCommit.effect {msg : Commit} (h : CompletesCommit X n msg)
    (htaken : n.handleCommit X me msg = some (n', out)) : committed out = [msg.number] ∧
      2 * n.state.faultToleranceCount.toNat ≤ (n'.log.messages.listAt (getMessageKey X (.commit msg))).length := by
  obtain ⟨checked, hchecked, htaken⟩ := Option.bind_eq_some_iff.1 htaken
  obtain rfl : checked = true := Option.some.inj (hchecked.symm.trans h.checked)
  obtain ⟨request, hrequest⟩ := Option.ne_none_iff_exists'.1 h.known
  rw [Bool.not_true, if_neg Bool.false_ne_true, hrequest] at htaken
  obtain ⟨threshold, hthreshold, htaken⟩ := Option.bind_eq_some_iff.1 htaken
  have hgrown : ((n.log.recordMessageHandler X (.commit msg)).messages.listAt
      (getMessageKey X (.commit msg))).length = 2 * n.state.faultToleranceCount.toNat := by
    rw [← h.count]
    simp only [NodeLog.getLocalMessagesCountByHash, NodeLog.recordMessageHandler, NodeLog.recordKeyed,
      HashMap.listAt_pushAt_self, List.length_append, List.length_singleton]
  have htwice : threshold.toNat = 2 * n.state.faultToleranceCount.toNat := toNat_of_checkedMul hthreshold
  replace htaken := (if_pos (hgrown.trans htwice.symm)).symm.trans htaken
  obtain ⟨hcommitted, hmessages⟩ := committed_completeCommit htaken
  exact ⟨hcommitted, hmessages ▸ hgrown.ge⟩

/-- A call on a PrePrepare of number one, or on anything else, leaves at most one request committed. -/
theorem Spent.step {event : Event} (h : Spent X commits n)
    (hproposal : ∀ number, event.proposal = some number → number = 1)
    (htaken : PbftExecutor.step X me n event = some (n', out)) : Spent X (commits ++ committed out) n' := by
  have hturn := step_turn h.settled htaken
  have hnumbers : ∀ number ∈ n'.log.requests, number = 1 := by
    intro number hnumber
    rcases hturn.numbers number hnumber with hold | hone | hnew
    · exact h.numbers number hold
    · exact hone
    · exact hproposal number hnew
  refine ⟨hturn.settled, hnumbers, ?_⟩
  rcases (step_outcome htaken).replies with ⟨⟨msg, rfl, hcompletes⟩, -⟩ | ⟨-, hnone⟩
  · obtain ⟨request, hlogged, hnumber, hkey⟩ := hcompletes.key h.settled h.numbers
    have hcommit : n.handleCommit X me msg = some (n', out) := by
      rwa [PbftExecutor.step, Node.messageHandler.eq_def, hcompletes.normal] at htaken
    obtain ⟨hcommitted, hquorum⟩ := hcompletes.effect hcommit
    have hfirst : commits = [] := by
      rcases h.commits with hnone | ⟨-, request', hlogged', hbehind⟩
      · exact hnone
      · -- the quorum of the only request is behind already
        obtain rfl : request = request' := Option.some.inj (hlogged.symm.trans hlogged')
        have hcount : (n.log.messages.listAt (getMessageKey X (.commit msg))).length + 1 =
          2 * n.state.faultToleranceCount.toNat := hcompletes.count
        rw [hkey] at hcount
        omega
    refine .inr ⟨?_, request, hturn.requests 1 request hlogged, ?_⟩
    · rw [hfirst, hcommitted, hnumber, List.nil_append]
    · rw [hturn.faultToleranceCount, ← hkey]
      exact hquorum
  · replace hnone : committed out = [] := hnone
    rw [hnone, List.append_nil]
    rcases h.commits with hempty | ⟨hone, request, hlogged, hbehind⟩
    · exact .inl hempty
    · refine .inr ⟨hone, request, hturn.requests 1 request hlogged, ?_⟩
      rw [hturn.faultToleranceCount]
      exact hbehind.trans (hturn.messages _).length_le

/-! ## Runs -/

theorem spent_of_isRun {run : ExecutorRun} (h : IsRun (step X me) (Node.new f db keypair) run n)
    (hproposals : ∀ t ∈ run, ∀ number, t.event.proposal = some number → number = 1) :
    Spent X (committedNumbers run) n := by
  refine h.induction_of_forall (motive := fun run n ↦ Spent X (committedNumbers run) n) ?_ ?_ hproposals
  · exact ⟨.new, fun number hnumber ↦ absurd hnumber Finmap.notMem_empty, .inl rfl⟩
  · intro run n event out n' hspent hproposal htaken
    rw [committedNumbers_concat]
    exact hspent.step hproposal htaken

/-- Fifty requests are needed for a CheckPoint. -/
theorem sentCheckpoints_eq_nil_of_isRun {run : ExecutorRun}
    (h : IsRun (step X me) (Node.new f db keypair) run n)
    (hproposals : ∀ t ∈ run, ∀ number, t.event.proposal = some number → number = 1) :
    ∀ t ∈ run, sentCheckpoints t.out = [] := by
  intro t ht
  obtain ⟨before, after, hsplit⟩ := List.append_of_mem ht
  have hthrough : run = (before ++ [t]) ++ after := by
    rw [hsplit, List.append_assoc, List.singleton_append]
  obtain ⟨hbefore, htaken⟩ := h.before hsplit
  have hcount := (state_of_isRun (hbefore.snoc htaken)).1
  have hspent := spent_of_isRun (hbefore.snoc htaken) fun t' ht' ↦
    hproposals t' (hthrough ▸ List.mem_append_left _ ht')
  have hlength : (committedNumbers (before ++ [t])).length ≤ 1 := by
    rcases hspent.commits with hnone | ⟨hone, -⟩
    · exact (congrArg List.length hnone).trans_le (Nat.zero_le 1)
    · exact (congrArg List.length hone).le
  have houtcome : Outcome X t := step_outcome htaken
  rcases houtcome.checkpoints with ⟨⟨msg, hevent, hcompletes⟩, hdvd, -⟩ | ⟨-, hsent⟩
  · rcases houtcome.replies with ⟨-, number, hreplies, -⟩ | ⟨hnot, -⟩
    · have hpos := houtcome.count
      rw [hreplies, List.length_singleton] at hpos
      have hle : t.post.state.currentCommitedRequestCount.toNat ≤ 1 := hcount.trans_le hlength
      omega
    · exact absurd ⟨msg, hevent, hcompletes⟩ hnot
  · exact hsent

/-! ## The network -/

/-- The nodes of a network, with the databases and the key pairs that they start with. -/
structure Committee (ι : Type) where
  peerId : ι → Bytes
  keypair : ι → Bytes
  db : ι → HashMap ℕ Bytes
  faultToleranceCount : UInt64

abbrev ExecutorWorld (ι : Type) := World ι Node Event (List MessageType)

namespace Committee

variable {ι : Type} (c : Committee ι)

def step (X : Externals) (i : ι) : Node → Event → Option (Node × List MessageType) :=
  PbftExecutor.step X (c.peerId i)

/-- A PrePrepare that is delivered has been sent by one of the nodes; other messages are arbitrary. -/
def Proposed (w : ExecutorWorld ι) (delivery : ι × Event) : Prop :=
  match delivery.2 with
  | .message (.prePrepare msg) => ∃ entry ∈ w.history, msg ∈ sentPreprepares entry.2.out
  | _ => True

instance Proposed.decidable (w : ExecutorWorld ι) (delivery : ι × Event) : Decidable (Proposed w delivery) := by
  unfold Proposed
  split <;> infer_instance

variable [DecidableEq ι]

def start : ExecutorWorld ι := World.start fun i ↦ Node.new c.faultToleranceCount (c.db i) (c.keypair i)

def Reachable (X : Externals) (w : ExecutorWorld ι) : Prop :=
  World.Reachable (c.step X) Proposed c.start w

variable {c} {w : ExecutorWorld ι}

theorem isRun (h : c.Reachable X w) (i : ι) : IsRun (PbftExecutor.step X (c.peerId i))
    (Node.new c.faultToleranceCount (c.db i) (c.keypair i)) (History.perNode some w.history i) (w.nodes i) :=
  World.Reachable.isRun h rfl i

/-- Every PrePrepare that is handled is number one, as all that are sent are. -/
theorem number_of_handled (h : c.Reachable X w) {i : ι} {t : Transition Node Event (List MessageType)}
    (ht : t ∈ History.perNode some w.history i) : ∀ number, t.event.proposal = some number → number = 1 := by
  intro number hnumber
  obtain ⟨before, after, hsplit⟩ := List.append_of_mem (History.mem_perNode.1 ht)
  obtain ⟨w₀, hreached, -, -, hmet, -⟩ := World.Reachable.before h rfl hsplit
  unfold Event.proposal at hnumber
  split at hnumber
  case h_1 msg hevent =>
    simp only [Proposed, hevent] at hmet
    obtain ⟨⟨j, t'⟩, hentry, hsent⟩ := hmet
    obtain ⟨sent, hout, hmsg⟩ := List.mem_filterMap.1 hsent
    have hfirst : FirstView sent :=
      (turn_of_isRun (isRun (c := c) hreached j) t' (History.mem_perNode.2 hentry)).sent sent hout
    cases sent with
    | prePrepare msg' =>
      obtain rfl := Option.some.inj hmsg
      obtain rfl := Option.some.inj hnumber
      exact hfirst.2
    | _ => cases hmsg
  case h_2 => cases hnumber

/-- However the messages travel, a node commits at most one request, with number one, and no CheckPoint is ever
sent. -/
theorem commits_at_most_one (h : c.Reachable X w) :
    (∀ i, committedNumbers (History.perNode some w.history i) = [] ∨
        committedNumbers (History.perNode some w.history i) = [1]) ∧
      ∀ entry ∈ w.history, sentCheckpoints entry.2.out = [] := by
  constructor
  · intro i
    have hspent := spent_of_isRun (isRun h i) fun t ht ↦ number_of_handled h ht
    exact hspent.commits.imp_right And.left
  · rintro ⟨i, t⟩ hentry
    exact sentCheckpoints_eq_nil_of_isRun (isRun h i) (fun t' ht' ↦ number_of_handled h ht') t
      (History.mem_perNode.2 hentry)

end Committee

/-! ## A network that commits -/

/-- Two nodes that know the key pairs `[11]` and `[12]` as those of the peers `[1]` and `[2]`. -/
def twoExecutors : Committee Bool where
  peerId i := if i then [1] else [2]
  keypair i := if i then [11] else [12]
  db _ := peerKeys
  faultToleranceCount := 1

/-- A node that gets a request proposes it, and Commits in the names of both complete the quorum of the other one;
the client then sends the next request. -/
def commitDeliveries : List (Bool × Event) :=
  [(true, .message (.request (clientRequest 1))), (false, .message (.prePrepare (clientPreprepare 1))),
    (false, .message (.commit (clientCommit 1 11 1))), (false, .message (.commit (clientCommit 2 12 1))),
    (true, .message (.request (clientRequest 2)))]

def committedWorld : ExecutorWorld Bool :=
  World.final (twoExecutors.step .transparent) Committee.Proposed twoExecutors.start commitDeliveries

theorem commits_at_most_one_committedWorld :
    (∀ i, committedNumbers (History.perNode some committedWorld.history i) = [] ∨
        committedNumbers (History.perNode some committedWorld.history i) = [1]) ∧
      ∀ entry ∈ committedWorld.history, sentCheckpoints entry.2.out = [] := by
  have hreached : twoExecutors.Reachable .transparent committedWorld :=
    World.Reachable.of_isSome (by decide +kernel)
  exact Committee.commits_at_most_one hreached

end BFTDiagnosis.PbftExecutor
