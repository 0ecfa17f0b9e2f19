import BFTDiagnosis.Lib.Quorum
import BFTDiagnosis.Pbft.Steps

/-!
# Quorums of different senders

The handlers compare the length of a vector of messages with their threshold, and every accepted
message is pushed, whoever sent it. The length is a number of senders exactly as long as no
accepted message repeats a sender under its key. This module states what each threshold is meant to
establish, proves it for every run in which accepted votes are fresh, and shows with one repeated
Prepare that the handlers do not establish it on their own.
-/

namespace BFTDiagnosis.Pbft

open Components Word PBFTProtocol

variable {X : Externals}

/-- Votes with one key, each validly signed, no two of one sender. -/
structure Ballots (X : Externals) (p : PBFTProtocol) (key : String) (votes : List MessageType) :
    Prop where
  isVote : ∀ msg ∈ votes, IsVote msg
  keyed : ∀ msg ∈ votes, getMessageKey X msg = key
  signed : ∀ msg ∈ votes, ValidlySigned X p msg
  distinct : (votes.map MessageType.sender).Nodup

/-- At least `count` peers have signed a message of the given kind. -/
def SignedByAtLeast (X : Externals) (p : PBFTProtocol) (count : ℕ) (kind : MessageType → Prop) :
    Prop :=
  ∃ senders : Finset Bytes, count ≤ senders.card ∧
    ∀ sender ∈ senders, ∃ msg, kind msg ∧ msg.sender = sender ∧ ValidlySigned X p msg

namespace Ballots

variable {p p' : PBFTProtocol} {key : String} {votes : List MessageType}

theorem nil : Ballots X p key [] where
  isVote := by simp
  keyed := by simp
  signed := by simp
  distinct := List.nodup_nil

theorem concat (h : Ballots X p key votes) {msg : MessageType} (hvote : IsVote msg)
    (hkey : getMessageKey X msg = key) (hsigned : ValidlySigned X p msg)
    (hfresh : msg.sender ∉ votes.map MessageType.sender) : Ballots X p key (votes ++ [msg]) where
  isVote := List.forall_mem_append.2 ⟨h.isVote, List.forall_mem_singleton.2 hvote⟩
  keyed := List.forall_mem_append.2 ⟨h.keyed, List.forall_mem_singleton.2 hkey⟩
  signed := List.forall_mem_append.2 ⟨h.signed, List.forall_mem_singleton.2 hsigned⟩
  distinct := by
    rw [List.map_append, List.map_singleton, ← List.concat_eq_append, List.nodup_concat]
    exact ⟨hfresh, h.distinct⟩

theorem step {me : Bytes} {event : Event} {out : Answer}
    (htaken : step X me p event = some (p', out)) (h : Ballots X p key votes) :
    Ballots X p' key votes where
  isVote := h.isVote
  keyed := h.keyed
  signed := fun msg hmsg ↦ (h.signed msg hmsg).step htaken
  distinct := h.distinct

/-- The number of ballots is a number of senders. -/
theorem signedByAtLeast (h : Ballots X p key votes) {count : ℕ} (hcount : votes.length = count)
    {kind : MessageType → Prop} (hkind : ∀ msg ∈ votes, kind msg) :
    SignedByAtLeast X p count kind := by
  refine ⟨(votes.map MessageType.sender).toFinset, ?_, ?_⟩
  · rw [Quorum.card_toFinset_map MessageType.sender h.distinct, hcount]
  · intro sender hsender
    obtain ⟨msg, hmsg, hsender⟩ := List.mem_map.1 (List.mem_toFinset.1 hsender)
    exact ⟨msg, hkind msg hmsg, hsender, h.signed msg hmsg⟩

end Ballots

/-! ## The property and the condition -/

/-- What the three thresholds are meant to establish: a Commit is sent on Prepares of its slot from
`2 * f` peers that the log holds, a request completes on Commits of its slot from `2 * f` peers, and
a round is over on equal Replies from `node_count - f - 1` peers. The handlers that complete clear
the log in the same call, so there the recorded messages are those logged before the call and the
message of the call. -/
structure QuorumDistinct (X : Externals) (f : UInt64) (t : Transition PBFTProtocol Event Answer) :
    Prop where
  prepared : ∀ commit, .broadcast (.message ⟨.commit commit⟩) ∈ t.out.queue →
    SignedByAtLeast X t.post (2 * f.toNat) fun msg ↦
      (∃ prepare, msg = .prepare prepare ∧ prepare.slot = commit.slot) ∧
        msg ∈ t.post.log.getLocalMessagesByHash (getMessageKey X msg)
  completed : ∀ request queue, t.out = .complete request queue →
    ∃ commit, t.event = .message (.commit commit) ∧
      SignedByAtLeast X t.pre (2 * f.toNat) fun msg ↦
        (∃ commit', msg = .commit commit' ∧ commit'.slot = commit.slot) ∧
          (msg ∈ t.pre.log.getLocalMessagesByHash (getMessageKey X msg) ∨ msg = .commit commit)
  ended : ∀ request, t.out = .over request →
    ∃ reply, t.event = .message (.reply reply) ∧
      SignedByAtLeast X t.pre (t.pre.state.nodeCount.toNat - f.toNat - 1) fun msg ↦
        (∃ reply', msg = .reply reply' ∧
          getMessageKey X (.reply reply') = getMessageKey X (.reply reply)) ∧
          (msg ∈ t.pre.log.replyMessages.listAt (getMessageKey X msg) ∨ msg = .reply reply)

/-- An accepted vote comes from a peer that has no vote under the same key in the log. -/
def FreshVote (X : Externals) (p : PBFTProtocol) (event : Event) : Prop :=
  ∀ msg ∈ acceptedVote X p event,
    msg.sender ∉ (p.log.messages.listAt (getMessageKey X msg)).map MessageType.sender

/-- The same for Replies, which the log keeps apart. -/
def FreshReply (X : Externals) (p : PBFTProtocol) (event : Event) : Prop :=
  ∀ msg ∈ acceptedReply X p event,
    msg.sender ∉ (p.log.replyMessages.listAt (getMessageKey X msg)).map MessageType.sender

instance FreshVote.decidable (X : Externals) (p : PBFTProtocol) (event : Event) :
    Decidable (FreshVote X p event) :=
  inferInstanceAs (Decidable (∀ msg ∈ acceptedVote X p event, _ ∉ _))

instance FreshReply.decidable (X : Externals) (p : PBFTProtocol) (event : Event) :
    Decidable (FreshReply X p event) :=
  inferInstanceAs (Decidable (∀ msg ∈ acceptedReply X p event, _ ∉ _))

/-! ## The invariant of the log -/

/-- No PrePrepare has this key, so what is logged under it are votes. -/
def VoteKey (X : Externals) (key : String) : Prop :=
  ∀ preprepare, getMessageKey X (.prePrepare preprepare) ≠ key

/-- Under every vote key the log holds ballots. -/
def VotesDistinct (X : Externals) (p : PBFTProtocol) : Prop :=
  ∀ key, VoteKey X key → Ballots X p key (p.log.messages.listAt key)

def RepliesDistinct (X : Externals) (p : PBFTProtocol) : Prop :=
  ∀ key, Ballots X p key (p.log.replyMessages.listAt key)

theorem VotesDistinct.of_messages_eq_empty {p : PBFTProtocol} (h : p.log.messages = ∅) :
    VotesDistinct X p := by
  intro key _
  rw [h, HashMap.listAt_empty]
  exact .nil

theorem RepliesDistinct.of_replyMessages_eq_empty {p : PBFTProtocol} (h : p.log.replyMessages = ∅) :
    RepliesDistinct X p := by
  intro key
  rw [h, HashMap.listAt_empty]
  exact .nil

section Step

variable {me : Bytes} {p p' : PBFTProtocol} {event : Event} {out : Answer}

theorem VotesDistinct.step (htaken : step X me p event = some (p', out))
    (hfresh : FreshVote X p event) (h : VotesDistinct X p) : VotesDistinct X p' := by
  intro key hkey
  have hold : Ballots X p key (p.log.messages.listAt key) := h key hkey
  generalize hafter : p'.log.messages.listAt key = after
  cases hafter ▸ step_messages htaken key with
  | cleared => exact .nil
  | preprepares extra hextra =>
    have hnil : extra = [] := by
      apply List.eq_nil_iff_forall_not_mem.2
      intro msg hmsg
      obtain ⟨preprepare, rfl, hpreprepare⟩ := hextra msg hmsg
      exact hkey preprepare hpreprepare
    rw [hnil, List.append_nil]
    exact hold.step htaken
  | vote msg haccepted hmsg =>
    have hnew := hfresh msg haccepted
    rw [← hmsg] at hnew
    exact (hold.concat (acceptedVote_isVote haccepted) hmsg.symm (acceptedVote_signed haccepted)
      hnew).step htaken

theorem RepliesDistinct.step (htaken : step X me p event = some (p', out))
    (hfresh : FreshReply X p event) (h : RepliesDistinct X p) : RepliesDistinct X p' := by
  intro key
  have hold : Ballots X p key (p.log.replyMessages.listAt key) := h key
  rcases step_replyMessages htaken key with hsame | hnil | ⟨msg, haccepted, hmsg, hpushed⟩
  · exact hsame ▸ hold.step htaken
  · exact hnil ▸ .nil
  · have hnew := hfresh msg haccepted
    rw [← hmsg] at hnew
    rw [hpushed]
    exact (hold.concat (acceptedReply_isVote haccepted) hmsg.symm (acceptedReply_signed haccepted)
      hnew).step htaken

theorem signedCommit_slot {msg : Prepare} (hview : p.state.view = msg.view) :
    (p.signedCommit X me msg).slot = msg.slot := by
  simp only [Commit.slot, Prepare.slot, signedCommit, hview]

/-- The Prepares behind a Commit. -/
theorem VotesDistinct.prepared (hX : X.CollisionFree) (htaken : Pbft.step X me p event = some (p', out))
    (hfresh : FreshVote X p event) (h : VotesDistinct X p) {commit : Commit}
    (hsent : .broadcast (.message ⟨.commit commit⟩) ∈ out.queue) :
    SignedByAtLeast X p' (2 * p.state.faultToleranceCount.toNat) fun msg ↦
      (∃ prepare, msg = .prepare prepare ∧ prepare.slot = commit.slot) ∧
        msg ∈ p'.log.getLocalMessagesByHash (getMessageKey X msg) := by
  obtain ⟨msg, hevent, haccepted, hcount, hpost, rfl⟩ := 
    step_sent_commit htaken (mem_sentMessages_of_broadcast hsent)
  have hkey : VoteKey X (getMessageKey X (.prepare msg)) :=
    fun preprepare ↦ preprepare_key_ne_prepare hX preprepare msg
  have hballots := h.step htaken hfresh _ hkey
  apply hballots.signedByAtLeast
  · rw [hpost, List.length_append, List.length_singleton, hcount]
  · intro other hother
    have hotherKey := hballots.keyed other hother
    refine ⟨?_, hotherKey ▸ hother⟩
    obtain ⟨prepare, rfl, hslot⟩ := (hballots.isVote other hother).eq_prepare hX hotherKey
    exact ⟨prepare, rfl, hslot.trans (signedCommit_slot (verifyPrepare_eq_true haccepted).2.2.1).symm⟩

/-- The Commits behind a completed request. -/
theorem VotesDistinct.completed (hX : X.CollisionFree) {request : Request}
    {queue : List (SendType Payload)}
    (htaken : Pbft.step X me p event = some (p', .complete request queue))
    (hfresh : FreshVote X p event) (h : VotesDistinct X p) :
    ∃ commit, event = .message (.commit commit) ∧
      SignedByAtLeast X p (2 * p.state.faultToleranceCount.toNat) fun msg ↦
        (∃ commit', msg = .commit commit' ∧ commit'.slot = commit.slot) ∧
          (msg ∈ p.log.getLocalMessagesByHash (getMessageKey X msg) ∨ msg = .commit commit) := by
  obtain ⟨msg, rfl, haccepted, -, hcount⟩ := step_complete htaken
  refine ⟨msg, rfl, ?_⟩
  have hvote : acceptedVote X p (.message (.commit msg)) = some (.commit msg) := if_pos haccepted
  have hkey : VoteKey X (getMessageKey X (.commit msg)) :=
    fun preprepare ↦ preprepare_key_ne_commit hX preprepare msg
  have hballots := (h _ hkey).concat (.commit msg) rfl (verifyCommit_eq_true haccepted).1
    (hfresh _ hvote)
  apply hballots.signedByAtLeast
  · rw [List.length_append, List.length_singleton, hcount]
  · intro other hother
    have hotherKey := hballots.keyed other hother
    refine ⟨(hballots.isVote other hother).eq_commit hX hotherKey, ?_⟩
    rcases List.mem_append.1 hother with hold | hnew
    · exact .inl (hotherKey ▸ hold)
    · exact .inr (List.mem_singleton.1 hnew)

/-- The Replies behind the end of a round. -/
theorem RepliesDistinct.ended (hX : X.CollisionFree) {request : Option Request}
    (htaken : Pbft.step X me p event = some (p', .over request))
    (hfresh : FreshReply X p event) (h : RepliesDistinct X p) :
    ∃ reply, event = .message (.reply reply) ∧
      SignedByAtLeast X p (p.state.nodeCount.toNat - p.state.faultToleranceCount.toNat - 1) fun msg ↦
        (∃ reply', msg = .reply reply' ∧
          getMessageKey X (.reply reply') = getMessageKey X (.reply reply)) ∧
          (msg ∈ p.log.replyMessages.listAt (getMessageKey X msg) ∨ msg = .reply reply) := by
  obtain ⟨msg, rfl, haccepted, hcount⟩ := step_over htaken
  refine ⟨msg, rfl, ?_⟩
  have hvote : acceptedReply X p (.message (.reply msg)) = some (.reply msg) := if_pos haccepted
  have hballots := (h _).concat (.reply msg) rfl (verifyReply_eq_true haccepted) (hfresh _ hvote)
  apply hballots.signedByAtLeast
  · rw [List.length_append, List.length_singleton, hcount]
  · intro other hother
    have hotherKey := hballots.keyed other hother
    refine ⟨(hballots.isVote other hother).eq_reply hX hotherKey, ?_⟩
    rcases List.mem_append.1 hother with hold | hnew
    · exact .inl (hotherKey ▸ hold)
    · exact .inr (List.mem_singleton.1 hnew)

end Step

/-- In a run whose accepted votes are fresh, every threshold is reached by that many peers. -/
theorem quorumDistinct_of_freshSender (hX : X.CollisionFree) {f : UInt64} {keypair me : Bytes}
    {run : List (Transition PBFTProtocol Event Answer)} {p : PBFTProtocol}
    (hrun : IsRun (step X me) (PBFTProtocol.new f keypair) run p)
    (hfresh : ∀ t ∈ run, FreshVote X t.pre t.event ∧ FreshReply X t.pre t.event) :
    ∀ t ∈ run, QuorumDistinct X f t := by
  let invariant := fun p : PBFTProtocol ↦
    VotesDistinct X p ∧ RepliesDistinct X p ∧ p.state.faultToleranceCount = f
  have hinitial : invariant (PBFTProtocol.new f keypair) :=
    ⟨.of_messages_eq_empty rfl, .of_replyMessages_eq_empty rfl, rfl⟩
  have hpre : ∀ t ∈ run, invariant t.pre := by
    apply IsRun.invariant_pre_of_forall invariant hinitial ?_ hrun hfresh
    intro t hinv hcondition htaken
    exact ⟨hinv.1.step htaken hcondition.1, hinv.2.1.step htaken hcondition.2,
      (step_faultToleranceCount htaken).trans hinv.2.2⟩
  intro t ht
  obtain ⟨hvotes, hreplies, hf⟩ := hpre t ht
  obtain ⟨hfreshVote, hfreshReply⟩ := hfresh t ht
  have htaken := hrun.taken t ht
  exact
    { prepared := fun commit hsent ↦ hf ▸ hvotes.prepared hX htaken hfreshVote hsent
      completed := fun request queue hout ↦ hf ▸ hvotes.completed hX (hout ▸ htaken) hfreshVote
      ended := fun request hout ↦ hf ▸ hreplies.ended hX (hout ▸ htaken) hfreshReply }

/-! ## A round of four peers -/

section Round

/-- The PrePrepare of the first request, signed by the peer that proposes it. -/
def roundPreprepare (peer : Bytes) (request : Request) : PrePrepare :=
  let preprepare : PrePrepare :=
    { view := 0, number := 1, mHash := requestHash .transparent request,
      m := Externals.transparent.requestJson request, signature := [], fromPeerId := peer }
  { preprepare with
    signature := Externals.transparent.sign peer
      (asBytes (getMessageKey .transparent (.prePrepare preprepare))) }

def roundPrepare (peer : Bytes) (request : Request) : Prepare :=
  let prepare : Prepare :=
    { view := 0, number := 1, mHash := requestHash .transparent request, fromPeerId := peer,
      signature := [] }
  { prepare with
    signature := Externals.transparent.sign peer
      (asBytes (getMessageKey .transparent (.prepare prepare))) }

def roundCommit (peer : Bytes) (request : Request) : Commit :=
  let commit : Commit :=
    { view := 0, number := 1, mHash := requestHash .transparent request, fromPeerId := peer,
      signature := [] }
  { commit with
    signature := Externals.transparent.sign peer
      (asBytes (getMessageKey .transparent (.commit commit))) }

def roundReply (peer : Bytes) (request : Request) : Reply :=
  let reply : Reply :=
    { cmd := request.cmd, view := 0, number := 1, fromPeerId := peer, signature := [],
      result := asBytes "ok!" }
  { reply with
    signature := Externals.transparent.sign peer (asBytes (getMessageKey .transparent (.reply reply))) }

/-- One vote of each phase from each of two peers, seen by a third. -/
def roundEvents : List Event :=
  [.initialStart {[1], [2], [3], [4]}, .message (.publicKey ⟨[2], [2]⟩),
    .message (.publicKey ⟨[3], [3]⟩), .message (.prePrepare (roundPreprepare [2] ⟨"a"⟩)),
    .message (.prepare (roundPrepare [2] ⟨"a"⟩)), .message (.prepare (roundPrepare [3] ⟨"a"⟩)),
    .message (.commit (roundCommit [2] ⟨"a"⟩)), .message (.commit (roundCommit [3] ⟨"a"⟩)),
    .message (.reply (roundReply [2] ⟨"a"⟩)), .message (.reply (roundReply [3] ⟨"a"⟩))]

/-- The round passes all three thresholds with fresh votes. -/
theorem quorumDistinct_of_freshSender_round :
    ∃ run p, IsRun (step .transparent [1]) (PBFTProtocol.new 1 [1]) run p ∧
      (run.map fun t ↦ t.out.queue.length) = [2, 0, 0, 1, 0, 1, 0, 1, 0, 0] ∧
      (∀ t ∈ run, FreshVote .transparent t.pre t.event ∧ FreshReply .transparent t.pre t.event) ∧
      ∀ t ∈ run, QuorumDistinct .transparent 1 t := by
  have hrun : IsRun (step .transparent [1]) (PBFTProtocol.new 1 [1])
      (transitions (step .transparent [1]) (PBFTProtocol.new 1 [1]) roundEvents) _ :=
    .of_isSome (by decide +kernel)
  have hfresh : ∀ t ∈ transitions (step .transparent [1]) (PBFTProtocol.new 1 [1]) roundEvents,
      FreshVote .transparent t.pre t.event ∧ FreshReply .transparent t.pre t.event := by
    decide +kernel
  exact ⟨_, _, hrun, by decide +kernel, hfresh,
    quorumDistinct_of_freshSender Utils.Platform.collisionFree_transparent hrun hfresh⟩

/-- The registration of one peer, its PrePrepare, and its Prepare delivered twice. -/
def repeatedPrepareEvents : List Event :=
  [.message (.publicKey ⟨[2], [2]⟩), .message (.prePrepare (roundPreprepare [2] ⟨"a"⟩)),
    .message (.prepare (roundPrepare [2] ⟨"a"⟩)), .message (.prepare (roundPrepare [2] ⟨"a"⟩))]

/-- The repeated Prepare makes the handler send a Commit on the word of one peer. -/
theorem not_quorumDistinct_of_repeated_prepare :
    Externals.transparent.CollisionFree ∧
      ∃ run p, IsRun (step .transparent [1]) (PBFTProtocol.new 1 [1]) run p ∧
        ¬ ∀ t ∈ run, QuorumDistinct .transparent 1 t := by
  refine ⟨Utils.Platform.collisionFree_transparent,
    transitions (step .transparent [1]) (PBFTProtocol.new 1 [1]) repeatedPrepareEvents, _,
    .of_isSome (by decide +kernel), ?_⟩
  intro hall
  let t := (transitions (step .transparent [1]) (PBFTProtocol.new 1 [1])
    repeatedPrepareEvents).get ⟨3, by decide +kernel⟩
  have hqueue : t.out.queue = [.broadcast (.message
      ⟨.commit (t.pre.signedCommit .transparent [1] (roundPrepare [2] ⟨"a"⟩))⟩)] := rfl
  obtain ⟨senders, hcard, hsenders⟩ := (hall t (List.get_mem _ _)).prepared _
    (hqueue ▸ List.mem_singleton.2 rfl)
  have hlogged : (t.post.log.getLocalMessagesByHash
      (getMessageKey .transparent (.prepare (roundPrepare [2] ⟨"a"⟩)))).map MessageType.sender =
        [[2], [2]] := by decide +kernel
  have hsubset : senders ⊆ {[2]} := by
    intro sender hsender
    obtain ⟨msg, ⟨⟨prepare, rfl, hslot⟩, hmsg⟩, rfl, -⟩ := hsenders sender hsender
    have hkey : getMessageKey .transparent (.prepare prepare) =
        getMessageKey .transparent (.prepare (roundPrepare [2] ⟨"a"⟩)) := by
      obtain ⟨hview, hnumber, hhash⟩ := Slot.mk.inj hslot
      simp only [getMessageKey, hview, hnumber, hhash]
      rfl
    have hmem := List.mem_map_of_mem (f := MessageType.sender) (hkey ▸ hmsg)
    rw [hlogged] at hmem
    simpa using hmem
  have hone : senders.card ≤ 1 := Finset.card_le_card hsubset
  have htwo : 2 ≤ senders.card := hcard
  omega

end Round

end BFTDiagnosis.Pbft
