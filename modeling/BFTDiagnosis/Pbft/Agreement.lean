import BFTDiagnosis.Lib.World
import BFTDiagnosis.Pbft.QuorumDistinct

/-!
# Agreement between PBFT replicas

Replicas that exchange messages over a network that loses, delays, repeats and reorders them, some of
them Byzantine. Two correct replicas whose first completed requests have one view and sequence number
should have completed one request. The handlers alone do not ensure this: they count a repeated vote
again, they log a request under the hash that its proposer claims for it, and every request is
proposed under the same sequence number. The main theorem names these three gaps as the condition
under which agreement holds.

A Commit certifies the Prepares behind it: `2 * f` of them, none from the replica that commits,
which itself has accepted the request. Two such quorums share a correct replica.
-/

namespace BFTDiagnosis.Pbft

open Components Word PBFTProtocol

variable {X : Externals} {ι : Type}

/-! ## Replicas, and what a history says about them -/

/-- The replicas with their peer ids and key pairs; the Byzantine ones send what they like. -/
structure Replicas (ι : Type) where
  peerId : ι → PeerId
  peerId_injective : Function.Injective peerId
  keypair : ι → Bytes
  byzantine : Finset ι

abbrev PbftHistory (ι : Type) := History ι PBFTProtocol Event Answer
abbrev PbftWorld (ι : Type) := World ι PBFTProtocol Event Answer

/-- The string that the signature of a message covers. -/
def signedKey (X : Externals) (msg : MessageType) : Option String :=
  match msg with
  | .prePrepare _ => some (getMessageKey X msg)
  | .prepare _ => some (getMessageKey X msg)
  | .commit _ => some (getMessageKey X msg)
  | .reply _ => some (getMessageKey X msg)
  | _ => none

/-- Everything that the replicas have signed. -/
def signed (X : Externals) (history : PbftHistory ι) : List (ι × String) :=
  history.flatMap fun entry ↦
    ((sentMessages entry.2.out).filterMap (signedKey X)).map (entry.1, ·)

/-- The requests that the replicas have accepted, with their sequence numbers. -/
def accepted (X : Externals) (history : PbftHistory ι) : List (ι × UInt64 × Request) :=
  history.flatMap fun entry ↦
    (acceptedRequest X entry.2.pre entry.2.event).toList.map (entry.1, ·)

/-- The view, the sequence number and the request that a transition completes. -/
def completion (t : Transition PBFTProtocol Event Answer) : Option (UInt64 × UInt64 × Request) :=
  match t.event, t.out with
  | .message (.commit commit), .complete request _ => some (commit.view, commit.number, request)
  | _, _ => none

/-- The first completion of a replica. -/
def firstCompletion [DecidableEq ι] (history : PbftHistory ι) (i : ι) :
    Option (UInt64 × UInt64 × Request) :=
  history.findSome? fun entry ↦ if entry.1 = i then completion entry.2 else none

/-- Correct replicas whose first completions have one view and number completed one request. -/
def Agreement [DecidableEq ι] (R : Replicas ι) (history : PbftHistory ι) : Prop :=
  ∀ i ∉ R.byzantine, ∀ j ∉ R.byzantine, ∀ view number request request',
    firstCompletion history i = some (view, number, request) →
      firstCompletion history j = some (view, number, request') → request = request'

theorem completion_eq_some {t : Transition PBFTProtocol Event Answer} {view number : UInt64}
    {request : Request} (h : completion t = some (view, number, request)) :
    ∃ commit queue, t.event = .message (.commit commit) ∧ t.out = .complete request queue ∧
      commit.view = view ∧ commit.number = number := by
  unfold completion at h
  split at h
  case h_1 commit request' queue hevent hout =>
    simp only [Option.some.injEq, Prod.mk.injEq] at h
    obtain ⟨hview, hnumber, rfl⟩ := h
    exact ⟨commit, queue, hevent, hout, hview, hnumber⟩
  case h_2 => cases h

theorem mem_signed_append {history : PbftHistory ι} {entry : ι × Transition PBFTProtocol Event Answer}
    {i : ι} {key : String} :
    (i, key) ∈ signed X (history ++ [entry]) ↔ (i, key) ∈ signed X history ∨
      (i = entry.1 ∧ ∃ msg ∈ sentMessages entry.2.out, signedKey X msg = some key) := by
  simp only [signed, List.flatMap_append, List.mem_append, List.flatMap_singleton, List.mem_map,
    List.mem_filterMap, Prod.mk.injEq]
  apply or_congr_right
  constructor
  · rintro ⟨key', ⟨msg, hmsg, hkey⟩, rfl, rfl⟩
    exact ⟨rfl, msg, hmsg, hkey⟩
  · rintro ⟨rfl, msg, hmsg, hkey⟩
    exact ⟨key, ⟨msg, hmsg, hkey⟩, rfl, rfl⟩

theorem mem_accepted_append {history : PbftHistory ι}
    {entry : ι × Transition PBFTProtocol Event Answer} {i : ι} {number : UInt64} {request : Request} :
    (i, number, request) ∈ accepted X (history ++ [entry]) ↔
      (i, number, request) ∈ accepted X history ∨
        (i = entry.1 ∧ acceptedRequest X entry.2.pre entry.2.event = some (number, request)) := by
  simp only [accepted, List.flatMap_append, List.mem_append, List.flatMap_singleton, List.mem_map,
    Option.mem_toList, Prod.mk.injEq]
  apply or_congr_right
  constructor
  · rintro ⟨entry', hentry, rfl, rfl⟩
    exact ⟨rfl, hentry⟩
  · rintro ⟨rfl, hentry⟩
    exact ⟨_, hentry, rfl, rfl⟩

/-- A signed Prepare key was signed by sending a Prepare of its slot. -/
theorem eq_prepare_of_signedKey (hX : X.CollisionFree) {msg : MessageType} {prepare : Prepare}
    (h : signedKey X msg = some (getMessageKey X (.prepare prepare))) :
    ∃ prepare', msg = .prepare prepare' ∧ prepare'.slot = prepare.slot := by
  unfold signedKey at h
  split at h
  case h_1 msg => exact absurd (Option.some.inj h) (preprepare_key_ne_prepare hX msg prepare)
  case h_2 msg => exact ⟨msg, rfl, prepare_key_inj hX (Option.some.inj h)⟩
  case h_3 msg => exact absurd (Option.some.inj h).symm (prepare_key_ne_commit hX prepare msg)
  case h_4 msg => exact absurd (Option.some.inj h) (reply_key_ne_prepare hX msg prepare)
  case h_5 => cases h

/-- A signed Commit key was signed by sending a Commit of its slot. -/
theorem eq_commit_of_signedKey (hX : X.CollisionFree) {msg : MessageType} {commit : Commit}
    (h : signedKey X msg = some (getMessageKey X (.commit commit))) :
    ∃ commit', msg = .commit commit' ∧ commit'.slot = commit.slot := by
  unfold signedKey at h
  split at h
  case h_1 msg => exact absurd (Option.some.inj h) (preprepare_key_ne_commit hX msg commit)
  case h_2 msg => exact absurd (Option.some.inj h) (prepare_key_ne_commit hX msg commit)
  case h_3 msg => exact ⟨msg, rfl, commit_key_inj hX (Option.some.inj h)⟩
  case h_4 msg => exact absurd (Option.some.inj h) (reply_key_ne_commit hX msg commit)
  case h_5 => cases h

/-! ## The environment and the condition -/

section Conditions

variable (X : Externals) (R : Replicas ι)

/-- The replicas of the system before any message, each with the public key of every replica. -/
def Registered (f : UInt64) (nodes : ι → PBFTProtocol) : Prop :=
  ∀ i, ∃ keys : HashMap Bytes Bytes,
    nodes i = { PBFTProtocol.new f (R.keypair i) with consensusNodePk := keys } ∧
      ∀ j, keys.lookup (R.peerId j) = some (X.publicKey (R.keypair j))

def Event.messages : Event → List MessageType
  | .message msg => [msg]
  | .initialStart _ => []

def Event.preprepares : Event → List PrePrepare
  | .message (.prePrepare msg) => [msg]
  | _ => []

def MessageType.isPrepare : MessageType → Bool
  | .prepare _ => true
  | _ => false

/-- A signature of a correct replica on a delivered message was made by that replica. -/
def Unforgeable (w : PbftWorld ι) (delivery : ι × Event) : Prop :=
  ∀ msg ∈ delivery.2.messages, ∀ j, j ∉ R.byzantine →
    X.verify (X.publicKey (R.keypair j)) msg.signature (asBytes (getMessageKey X msg)) = true →
      (j, getMessageKey X msg) ∈ signed X w.history

/-- An accepted vote comes from a replica that has no vote of the slot in the log; a Prepare comes
from another replica than the one it is delivered to. -/
def DistinctVotes (w : PbftWorld ι) (delivery : ι × Event) : Prop :=
  FreshVote X (w.nodes delivery.1) delivery.2 ∧
    ∀ msg ∈ acceptedVote X (w.nodes delivery.1) delivery.2,
      ∃ j, R.peerId j = msg.sender ∧ (msg.isPrepare = true → j ≠ delivery.1)

/-- An accepted PrePrepare carries the hash of its own request. -/
def MatchingHash (w : PbftWorld ι) (delivery : ι × Event) : Prop :=
  ∀ msg ∈ delivery.2.preprepares, ∀ entry ∈ acceptedRequest X (w.nodes delivery.1) delivery.2,
    msg.mHash = requestHash X entry.2

/-- A replica accepts one request for a sequence number. -/
def OneRequest (w : PbftWorld ι) (delivery : ι × Event) : Prop :=
  ∀ entry ∈ acceptedRequest X (w.nodes delivery.1) delivery.2, ∀ other ∈ accepted X w.history,
    other.1 = delivery.1 → other.2.1 = entry.1 → other.2.2 = entry.2

/-- The condition on what correct replicas accept. -/
structure Orderly (w : PbftWorld ι) (delivery : ι × Event) : Prop where
  distinctVotes : DistinctVotes X R w delivery
  matchingHash : MatchingHash X w delivery
  oneRequest : OneRequest X w delivery

/-- Deliveries of the theorem: no forged signatures, and correct replicas accept in order. -/
def OrderlyDelivery (w : PbftWorld ι) (delivery : ι × Event) : Prop :=
  Unforgeable X R w delivery ∧ (delivery.1 ∉ R.byzantine → Orderly X R w delivery)

/-- The call of the actuator on each replica. -/
def replicaStep (i : ι) : PBFTProtocol → Event → Option (PBFTProtocol × Answer) := step X (R.peerId i)

end Conditions

/-! ## Certificates -/

/-- A replica has accepted a request with the hash of the slot for the number of the slot. -/
def AcceptedHash (X : Externals) (history : PbftHistory ι) (i : ι) (slot : Slot) : Prop :=
  ∃ request, (i, slot.number, request) ∈ accepted X history ∧ requestHash X request = slot.mHash

/-- A quorum whose correct members have accepted the hash of the slot. -/
def Prepared (X : Externals) (R : Replicas ι) (f : UInt64) (history : PbftHistory ι) (slot : Slot) :
    Prop :=
  ∃ quorum : Finset ι, 2 * f.toNat + 1 ≤ quorum.card ∧
    ∀ i ∈ quorum, i ∉ R.byzantine → AcceptedHash X history i slot

/-- A logged vote names a replica as its sender, which has signed it if it is correct. -/
def Authentic (X : Externals) (R : Replicas ι) (history : PbftHistory ι) (i : ι) (msg : MessageType) :
    Prop :=
  ∃ j, R.peerId j = msg.sender ∧ (msg.isPrepare = true → j ≠ i) ∧
    (j ∉ R.byzantine → (j, getMessageKey X msg) ∈ signed X history)

section Grow

variable {R : Replicas ι} {f : UInt64} {history : PbftHistory ι}
  (entry : ι × Transition PBFTProtocol Event Answer)

theorem AcceptedHash.grow {i : ι} {slot : Slot} (h : AcceptedHash X history i slot) :
    AcceptedHash X (history ++ [entry]) i slot := by
  obtain ⟨request, haccepted, hhash⟩ := h
  exact ⟨request, mem_accepted_append.2 (.inl haccepted), hhash⟩

theorem Prepared.grow {slot : Slot} (h : Prepared X R f history slot) :
    Prepared X R f (history ++ [entry]) slot := by
  obtain ⟨quorum, hcard, hall⟩ := h
  exact ⟨quorum, hcard, fun i hi hcorrect ↦ (hall i hi hcorrect).grow entry⟩

theorem Authentic.grow {i : ι} {msg : MessageType} (h : Authentic X R history i msg) :
    Authentic X R (history ++ [entry]) i msg := by
  obtain ⟨j, hsender, hother, hsigned⟩ := h
  exact ⟨j, hsender, hother, fun hj ↦ mem_signed_append.2 (.inl (hsigned hj))⟩

end Grow

/-! ## The invariant -/

/-- What holds of one correct replica. -/
structure ReplicaInv (X : Externals) (R : Replicas ι) (f : UInt64) (history : PbftHistory ι) (i : ι)
    (p : PBFTProtocol) : Prop where
  keys : ∀ j, p.consensusNodePk.lookup (R.peerId j) = some (X.publicKey (R.keypair j))
  faults : p.state.faultToleranceCount = f
  distinct : VotesDistinct X p
  authentic : ∀ key, VoteKey X key → ∀ msg ∈ p.log.messages.listAt key, Authentic X R history i msg
  requests : ∀ number request, p.log.requests.lookup number = some request →
    (i, number, request) ∈ accepted X history

/-- What holds of a history. -/
structure HistoryInv (X : Externals) (R : Replicas ι) (f : UInt64) (history : PbftHistory ι) :
    Prop where
  functional : ∀ i ∉ R.byzantine, ∀ number request request',
    (i, number, request) ∈ accepted X history → (i, number, request') ∈ accepted X history →
      request = request'
  prepares : ∀ i ∉ R.byzantine, ∀ prepare,
    (i, getMessageKey X (.prepare prepare)) ∈ signed X history → AcceptedHash X history i prepare.slot
  commits : ∀ i ∉ R.byzantine, ∀ commit,
    (i, getMessageKey X (.commit commit)) ∈ signed X history → Prepared X R f history commit.slot
  completed : ∀ entry ∈ history, entry.1 ∉ R.byzantine → ∀ view number request,
    completion entry.2 = some (view, number, request) →
      Prepared X R f history ⟨view, number, requestHash X request⟩

section Step

variable {R : Replicas ι} {f : UInt64} {history : PbftHistory ι} {i : ι} {p p' : PBFTProtocol}
  {event : Event} {out : Answer}

theorem ReplicaInv.grow (h : ReplicaInv X R f history i p)
    (entry : ι × Transition PBFTProtocol Event Answer) :
    ReplicaInv X R f (history ++ [entry]) i p where
  keys := h.keys
  faults := h.faults
  distinct := h.distinct
  authentic := fun key hkey msg hmsg ↦ (h.authentic key hkey msg hmsg).grow entry
  requests := fun number request hlogged ↦
    mem_accepted_append.2 (.inl (h.requests number request hlogged))

/-- An accepted vote is authentic. -/
theorem authentic_of_acceptedVote {w : PbftWorld ι} {delivery : ι × Event} {msg : MessageType}
    (hinv : ReplicaInv X R f w.history delivery.1 (w.nodes delivery.1))
    (hunforgeable : Unforgeable X R w delivery) (hvotes : DistinctVotes X R w delivery)
    (hmsg : acceptedVote X (w.nodes delivery.1) delivery.2 = some msg) :
    Authentic X R w.history delivery.1 msg := by
  obtain ⟨j, hsender, hother⟩ := hvotes.2 msg hmsg
  refine ⟨j, hsender, hother, ?_⟩
  intro hj
  obtain ⟨pk, hpk, hverify⟩ := acceptedVote_signed hmsg
  rw [← hsender, hinv.keys j] at hpk
  obtain rfl := Option.some.inj hpk
  refine hunforgeable msg ?_ j hj hverify
  rcases acceptedVote_cases hmsg with ⟨vote, hevent, rfl, -⟩ | ⟨vote, hevent, rfl, -⟩
  · rw [hevent]
    exact List.mem_singleton.2 rfl
  · rw [hevent]
    exact List.mem_singleton.2 rfl

theorem ReplicaInv.step {w : PbftWorld ι} {delivery : ι × Event}
    (htaken : step X (R.peerId delivery.1) (w.nodes delivery.1) delivery.2 = some (p', out))
    (hunforgeable : Unforgeable X R w delivery) (hvotes : DistinctVotes X R w delivery)
    (h : ReplicaInv X R f w.history delivery.1 (w.nodes delivery.1)) :
    ReplicaInv X R f (w.history ++ [(delivery.1, ⟨w.nodes delivery.1, delivery.2, out, p'⟩)])
      delivery.1 p' where
  keys := fun j ↦ step_consensusNodePk htaken (h.keys j)
  faults := (step_faultToleranceCount htaken).trans h.faults
  distinct := h.distinct.step htaken hvotes.1
  authentic := by
    intro key hkey msg hmsg
    apply Authentic.grow
    generalize hafter : p'.log.messages.listAt key = after at hmsg
    cases hafter ▸ step_messages htaken key with
    | cleared => exact absurd hmsg List.not_mem_nil
    | preprepares extra hextra =>
      rcases List.mem_append.1 hmsg with hold | hnew
      · exact h.authentic key hkey msg hold
      · obtain ⟨preprepare, rfl, hpreprepare⟩ := hextra msg hnew
        exact absurd hpreprepare (hkey preprepare)
    | vote vote haccepted hvote =>
      rcases List.mem_append.1 hmsg with hold | hnew
      · exact h.authentic key hkey msg hold
      · rw [List.mem_singleton.1 hnew]
        exact authentic_of_acceptedVote h hunforgeable hvotes haccepted
  requests := by
    intro number request hlogged
    apply mem_accepted_append.2
    rcases step_requests htaken hlogged with hold | hnew
    · exact .inl (h.requests number request hold)
    · exact .inr ⟨rfl, hnew⟩

section NewCertificates

variable {w : PbftWorld ι} {delivery : ι × Event}
  (htaken : Pbft.step X (R.peerId delivery.1) (w.nodes delivery.1) delivery.2 = some (p', out))
include htaken

/-- A Prepare is sent for an accepted request. -/
theorem acceptedHash_of_sent {prepare : Prepare} (hmatching : MatchingHash X w delivery)
    (hsent : .prepare prepare ∈ sentMessages out) :
    AcceptedHash X (w.history ++ [(delivery.1, ⟨w.nodes delivery.1, delivery.2, out, p'⟩)])
      delivery.1 prepare.slot := by
  obtain ⟨msg, request, hevent, hjson, haccepted, rfl⟩ := step_sent_prepare htaken hsent
  have hrequest : acceptedRequest X (w.nodes delivery.1) delivery.2 = some (msg.number, request) := by
    rw [hevent, acceptedRequest, if_pos haccepted, hjson, Option.map_some]
  have hhash : msg.mHash = requestHash X request :=
    hmatching msg (hevent ▸ List.mem_singleton.2 rfl) _ hrequest
  exact ⟨request, mem_accepted_append.2 (.inr ⟨rfl, hrequest⟩), hhash.symm⟩

variable [Fintype ι]

/-- A request is completed on a certificate: one of the Commits is of a correct replica. -/
theorem prepared_of_complete (hX : X.CollisionFree) (hf : 1 ≤ f.toNat)
    (hbyzantine : R.byzantine.card ≤ f.toNat) {request : Request} {queue : List (SendType Payload)}
    (hhistory : HistoryInv X R f w.history)
    (hinv : ReplicaInv X R f w.history delivery.1 (w.nodes delivery.1))
    (hunforgeable : Unforgeable X R w delivery) (hvotes : DistinctVotes X R w delivery)
    (hout : out = .complete request queue) :
    ∃ commit, delivery.2 = .message (.commit commit) ∧ requestHash X request = commit.mHash ∧
      Prepared X R f w.history commit.slot := by
  subst hout
  obtain ⟨msg, hevent, haccepted, hrequest, -⟩ := step_complete htaken
  obtain ⟨-, -, -, m, hm, hhash⟩ := verifyCommit_eq_true haccepted
  obtain rfl : request = m := Option.some.inj (hrequest.symm.trans hm)
  refine ⟨msg, hevent, hhash, ?_⟩
  have hvote : acceptedVote X (w.nodes delivery.1) delivery.2 = some (.commit msg) := by
    rw [hevent]
    exact if_pos haccepted
  obtain ⟨commit, hcommit, senders, hcard, hsenders⟩ := hinv.distinct.completed hX htaken hvotes.1
  obtain rfl : commit = msg := by
    rw [hevent] at hcommit
    simpa using hcommit.symm
  have hkey : VoteKey X (getMessageKey X (.commit commit)) :=
    fun preprepare ↦ preprepare_key_ne_commit hX preprepare commit
  have hmember (sender : Bytes) (hsender : sender ∈ senders) :
      ∃ j, R.peerId j = sender ∧ (j ∉ R.byzantine → Prepared X R f w.history commit.slot) := by
    obtain ⟨other, ⟨⟨commit', rfl, hslot⟩, hlogged⟩, hsame, -⟩ := hsenders sender hsender
    have hauthentic : Authentic X R w.history delivery.1 (.commit commit') := by
      rcases hlogged with hold | hnew
      · exact hinv.authentic _ (fun preprepare ↦ preprepare_key_ne_commit hX preprepare commit') _ hold
      · exact hnew ▸ authentic_of_acceptedVote hinv hunforgeable hvotes hvote
    obtain ⟨j, hj, -, hsigned⟩ := hauthentic
    exact ⟨j, hj.trans hsame, fun hjc ↦ hslot ▸ hhistory.commits j hjc commit' (hsigned hjc)⟩
  obtain ⟨members, hmembers, hprepared⟩ := Quorum.exists_members R.peerId senders hmember
  rw [hinv.faults] at hcard
  have hlarge : f.toNat < members.card := by omega
  obtain ⟨k, hk, hkcorrect⟩ := Quorum.exists_correct hbyzantine hlarge
  exact hprepared k hk hkcorrect

variable [DecidableEq ι]

/-- A Commit is sent on the Prepares of other replicas and the sender's own acceptance. -/
theorem prepared_of_sent (hX : X.CollisionFree) {commit : Commit}
    (hhistory : HistoryInv X R f w.history)
    (hinv : ReplicaInv X R f w.history delivery.1 (w.nodes delivery.1))
    (hunforgeable : Unforgeable X R w delivery) (hvotes : DistinctVotes X R w delivery)
    (hsent : .commit commit ∈ sentMessages out) : Prepared X R f w.history commit.slot := by
  obtain ⟨msg, hevent, haccepted, hcount, hpost, rfl⟩ := step_sent_commit htaken hsent
  obtain ⟨-, -, hview, m, hm, hhash⟩ := verifyPrepare_eq_true haccepted
  rw [signedCommit_slot hview]
  have hkey : VoteKey X (getMessageKey X (.prepare msg)) :=
    fun preprepare ↦ preprepare_key_ne_prepare hX preprepare msg
  have hvote : acceptedVote X (w.nodes delivery.1) delivery.2 = some (.prepare msg) := by
    rw [hevent]
    exact if_pos haccepted
  have hballots := hinv.distinct.step htaken hvotes.1 _ hkey
  rw [hpost] at hballots
  -- Every Prepare of the quorum is of another replica, which has accepted the request if correct.
  have hmember : ∀ other ∈ (w.nodes delivery.1).log.messages.listAt (getMessageKey X (.prepare msg)) ++
      [.prepare msg], ∃ j, R.peerId j = other.sender ∧ j ≠ delivery.1 ∧
        (j ∉ R.byzantine → AcceptedHash X w.history j msg.slot) := by
    intro other hother
    have hotherKey := hballots.keyed other hother
    obtain ⟨prepare, rfl, hslot⟩ := (hballots.isVote other hother).eq_prepare hX hotherKey
    have hauthentic : Authentic X R w.history delivery.1 (.prepare prepare) := by
      rcases List.mem_append.1 hother with hold | hnew
      · exact hinv.authentic _ hkey _ hold
      · exact List.mem_singleton.1 hnew ▸ authentic_of_acceptedVote hinv hunforgeable hvotes hvote
    obtain ⟨j, hsender, hother, hsigned⟩ := hauthentic
    exact ⟨j, hsender, hother rfl, fun hj ↦ hslot ▸ hhistory.prepares j hj prepare (hsigned hj)⟩
  obtain ⟨senders, hcard, hsenders⟩ := hballots.signedByAtLeast rfl hmember
  obtain ⟨members, hmembers, hof⟩ := @Quorum.exists_members _ _ _ R.peerId senders
    (fun k ↦ k ≠ delivery.1 ∧ (k ∉ R.byzantine → AcceptedHash X w.history k msg.slot)) (by
      intro sender hsender
      obtain ⟨other, ⟨j, hj, hof⟩, hsame, -⟩ := hsenders sender hsender
      exact ⟨j, hj.trans hsame, hof⟩)
  refine ⟨insert delivery.1 members, ?_, ?_⟩
  · have hfresh : delivery.1 ∉ members := fun hmem ↦ (hof _ hmem).1 rfl
    rw [Finset.card_insert_of_notMem hfresh]
    rw [List.length_append, List.length_singleton, hcount, hinv.faults] at hcard
    omega
  · intro k hk hkcorrect
    rcases Finset.mem_insert.1 hk with rfl | hk
    · exact ⟨m, hinv.requests _ _ hm, hhash⟩
    · exact (hof k hk).2 hkcorrect

theorem HistoryInv.step (hX : X.CollisionFree) (hf : 1 ≤ f.toNat)
    (hbyzantine : R.byzantine.card ≤ f.toNat) (h : HistoryInv X R f w.history)
    (hinv : delivery.1 ∉ R.byzantine →
      ReplicaInv X R f w.history delivery.1 (w.nodes delivery.1))
    (hmet : OrderlyDelivery X R w delivery) :
    HistoryInv X R f (w.history ++ [(delivery.1, ⟨w.nodes delivery.1, delivery.2, out, p'⟩)]) where
  functional := by
    intro i hi number request request' hrequest hrequest'
    rcases mem_accepted_append.1 hrequest with hold | ⟨rfl, hnew⟩
    · rcases mem_accepted_append.1 hrequest' with hold' | ⟨rfl, hnew'⟩
      · exact h.functional i hi number request request' hold hold'
      · exact (hmet.2 hi).oneRequest _ hnew' _ hold rfl rfl
    · rcases mem_accepted_append.1 hrequest' with hold' | ⟨-, hnew'⟩
      · exact ((hmet.2 hi).oneRequest _ hnew _ hold' rfl rfl).symm
      · exact (Prod.mk.inj (Option.some.inj (hnew.symm.trans hnew'))).2
  prepares := by
    intro i hi prepare hsigned
    rcases mem_signed_append.1 hsigned with hold | ⟨rfl, msg, hsent, hkey⟩
    · exact (h.prepares i hi prepare hold).grow _
    · obtain ⟨prepare', rfl, hslot⟩ := eq_prepare_of_signedKey hX hkey
      exact hslot ▸ acceptedHash_of_sent htaken (hmet.2 hi).matchingHash hsent
  commits := by
    intro i hi commit hsigned
    rcases mem_signed_append.1 hsigned with hold | ⟨rfl, msg, hsent, hkey⟩
    · exact (h.commits i hi commit hold).grow _
    · obtain ⟨commit', rfl, hslot⟩ := eq_commit_of_signedKey hX hkey
      have hprepared := prepared_of_sent htaken hX h (hinv hi) hmet.1 (hmet.2 hi).distinctVotes hsent
      exact hslot ▸ hprepared.grow _
  completed := by
    intro entry hentry hcorrect view number request hcompletion
    rcases List.mem_append.1 hentry with hold | hnew
    · exact (h.completed entry hold hcorrect view number request hcompletion).grow _
    · obtain rfl := List.mem_singleton.1 hnew
      apply Prepared.grow
      obtain ⟨commit, queue, hevent, hout, rfl, rfl⟩ := completion_eq_some hcompletion
      obtain ⟨commit', hevent', hhash, hprepared⟩ := prepared_of_complete htaken hX hf hbyzantine h
        (hinv hcorrect) hmet.1 (hmet.2 hcorrect).distinctVotes hout
      obtain rfl : commit = commit' := by simpa using hevent.symm.trans hevent'
      rw [hhash]
      exact hprepared

end NewCertificates

end Step

section Main

variable {R : Replicas ι} {f : UInt64}

theorem ReplicaInv.start {nodes : ι → PBFTProtocol} (h : Registered X R f nodes) (i : ι) :
    ReplicaInv X R f [] i (nodes i) := by
  obtain ⟨keys, hnode, hkeys⟩ := h i
  rw [hnode]
  exact
    { keys := hkeys
      faults := rfl
      distinct := .of_messages_eq_empty rfl
      authentic := fun key _ msg hmsg ↦ absurd hmsg (by simp [PBFTProtocol.new, ConsensusLog.new])
      requests := fun number request hlogged ↦
        absurd hlogged (by simp [PBFTProtocol.new, ConsensusLog.new]) }

theorem HistoryInv.start : HistoryInv X R f [] where
  functional := fun _ _ _ _ _ h ↦ absurd h List.not_mem_nil
  prepares := fun _ _ _ h ↦ absurd h List.not_mem_nil
  commits := fun _ _ _ h ↦ absurd h List.not_mem_nil
  completed := fun _ h ↦ absurd h List.not_mem_nil

variable [Fintype ι] [DecidableEq ι]

/-- The invariant holds in every world that orderly deliveries reach. -/
theorem invariant_of_reachable (hX : X.CollisionFree) (hf : 1 ≤ f.toNat)
    (hbyzantine : R.byzantine.card ≤ f.toNat) {nodes : ι → PBFTProtocol}
    (hregistered : Registered X R f nodes) {w : PbftWorld ι}
    (h : World.Reachable (replicaStep X R) (OrderlyDelivery X R) (.start nodes) w) :
    HistoryInv X R f w.history ∧
      ∀ i, i ∉ R.byzantine → ReplicaInv X R f w.history i (w.nodes i) := by
  induction h with
  | start => exact ⟨.start, fun i _ ↦ .start hregistered i⟩
  | @deliver w w' delivery _ hmet htaken ih =>
    obtain ⟨hhistory, hreplicas⟩ := ih
    constructor
    · obtain ⟨p, out, hstep, -, hgrown⟩ := World.deliver_cases htaken
      rw [hgrown]
      exact hhistory.step hstep hX hf hbyzantine (hreplicas _) hmet
    · apply World.forall_nodes_of_deliver
        (fun history i p ↦ i ∉ R.byzantine → ReplicaInv X R f history i p) _ _ htaken hreplicas
      · intro entry i p hinv hcorrect
        exact (hinv hcorrect).grow entry
      · intro p out hstep hinv hcorrect
        exact (hinv hcorrect).step hstep hmet.1 (hmet.2 hcorrect).distinctVotes

/-- Among `3 * f + 1` replicas, at most `f` of them Byzantine, orderly deliveries reach agreement. -/
theorem agreement_of_orderly (hX : X.CollisionFree) (hjson : Function.Injective X.requestJson)
    (hf : 1 ≤ f.toNat) (hcard : Fintype.card ι = 3 * f.toNat + 1)
    (hbyzantine : R.byzantine.card ≤ f.toNat) {nodes : ι → PBFTProtocol}
    (hregistered : Registered X R f nodes) {w : PbftWorld ι}
    (h : World.Reachable (replicaStep X R) (OrderlyDelivery X R) (.start nodes) w) :
    Agreement R w.history := by
  obtain ⟨hhistory, -⟩ := invariant_of_reachable hX hf hbyzantine hregistered h
  have hcertificate (i : ι) (hi : i ∉ R.byzantine) {view number : UInt64} {request : Request}
      (hfirst : firstCompletion w.history i = some (view, number, request)) :
      Prepared X R f w.history ⟨view, number, requestHash X request⟩ := by
    obtain ⟨entry, hentry, hcompletion⟩ := List.exists_of_findSome?_eq_some hfirst
    split at hcompletion
    case isTrue hsame => exact hhistory.completed entry hentry (hsame ▸ hi) _ _ _ hcompletion
    case isFalse => cases hcompletion
  intro i hi j hj view number request request' hfirst hfirst'
  obtain ⟨left, hleft, hleftAccepted⟩ := hcertificate i hi hfirst
  obtain ⟨right, hright, hrightAccepted⟩ := hcertificate j hj hfirst'
  obtain ⟨k, hkleft, hkright, hkcorrect⟩ :=
    Quorum.exists_correct_of_two_quorums hcard hbyzantine hleft hright
  obtain ⟨accepted₁, hmem₁, hhash₁⟩ := hleftAccepted k hkleft hkcorrect
  obtain ⟨accepted₂, hmem₂, hhash₂⟩ := hrightAccepted k hkright hkcorrect
  have hsame : accepted₁ = accepted₂ :=
    hhistory.functional k hkcorrect number accepted₁ accepted₂ hmem₁ hmem₂
  have hhash : requestHash X request = requestHash X request' :=
    calc requestHash X request = requestHash X accepted₁ := hhash₁.symm
      _ = requestHash X accepted₂ := by rw [hsame]
      _ = requestHash X request' := hhash₂
  exact hjson (hX hhash)

end Main

/-! ## Four replicas -/

section Decidable

variable [Fintype ι] [DecidableEq ι] (X : Externals) (R : Replicas ι) (w : PbftWorld ι)
  (delivery : ι × Event)

instance Unforgeable.decidable : Decidable (Unforgeable X R w delivery) :=
  inferInstanceAs (Decidable (∀ msg ∈ delivery.2.messages, ∀ j, j ∉ R.byzantine → _ → _ ∈ _))

instance DistinctVotes.decidable : Decidable (DistinctVotes X R w delivery) :=
  inferInstanceAs (Decidable (_ ∧ ∀ msg ∈ acceptedVote X _ _, ∃ _, _ ∧ (_ → _)))

instance MatchingHash.decidable : Decidable (MatchingHash X w delivery) :=
  inferInstanceAs (Decidable (∀ msg ∈ delivery.2.preprepares, ∀ entry ∈ acceptedRequest X _ _, _ = _))

instance OneRequest.decidable : Decidable (OneRequest X w delivery) :=
  inferInstanceAs (Decidable (∀ entry ∈ acceptedRequest X _ _, ∀ other ∈ accepted X _, _ → _ → _ = _))

instance Orderly.decidable : Decidable (Orderly X R w delivery) :=
  decidable_of_iff (DistinctVotes X R w delivery ∧ MatchingHash X w delivery ∧ OneRequest X w delivery)
    ⟨fun h ↦ ⟨h.1, h.2.1, h.2.2⟩, fun h ↦ ⟨h.1, h.2, h.3⟩⟩

instance OrderlyDelivery.decidable : Decidable (OrderlyDelivery X R w delivery) :=
  inferInstanceAs (Decidable (_ ∧ (_ → _)))

end Decidable

/-- Four replicas with one byte as peer id and key; the last is Byzantine. -/
def fourReplicas : Replicas (Fin 4) where
  peerId i := [UInt8.ofNat (i + 1)]
  peerId_injective := Utils.fourPeers_injective
  keypair i := [UInt8.ofNat (i + 1)]
  byzantine := {3}

def fourNodes (i : Fin 4) : PBFTProtocol :=
  { PBFTProtocol.new 1 (fourReplicas.keypair i) with
    consensusNodePk := ((((∅ : HashMap Bytes Bytes).insert [1] [1]).insert [2] [2]).insert [3] [3]).insert
      [4] [4] }

theorem registered_fourNodes : Registered .transparent fourReplicas 1 fourNodes :=
  fun _ ↦ ⟨_, rfl, by decide⟩

/-- The first replica proposes a request and all four vote for it. -/
def roundDeliveries : List (Fin 4 × Event) :=
  [(0, .message (.request ⟨"a"⟩)), (1, .message (.prePrepare (roundPreprepare [1] ⟨"a"⟩))),
    (2, .message (.prePrepare (roundPreprepare [1] ⟨"a"⟩))),
    (0, .message (.prepare (roundPrepare [2] ⟨"a"⟩))), (0, .message (.prepare (roundPrepare [3] ⟨"a"⟩))),
    (1, .message (.prepare (roundPrepare [3] ⟨"a"⟩))), (1, .message (.prepare (roundPrepare [4] ⟨"a"⟩))),
    (2, .message (.prepare (roundPrepare [2] ⟨"a"⟩))), (2, .message (.prepare (roundPrepare [4] ⟨"a"⟩))),
    (0, .message (.commit (roundCommit [2] ⟨"a"⟩))), (0, .message (.commit (roundCommit [3] ⟨"a"⟩))),
    (1, .message (.commit (roundCommit [1] ⟨"a"⟩))), (1, .message (.commit (roundCommit [3] ⟨"a"⟩)))]

/-- Two correct replicas complete a request in orderly deliveries, and agree. -/
theorem agreement_of_orderly_round :
    ∃ w, World.Reachable (replicaStep .transparent fourReplicas)
        (OrderlyDelivery .transparent fourReplicas) (.start fourNodes) w ∧
      firstCompletion w.history 0 = some (0, 1, ⟨"a"⟩) ∧
      firstCompletion w.history 1 = some (0, 1, ⟨"a"⟩) ∧ Agreement fourReplicas w.history := by
  have hreachable : World.Reachable (replicaStep .transparent fourReplicas)
      (OrderlyDelivery .transparent fourReplicas) (.start fourNodes)
      (World.final (replicaStep .transparent fourReplicas)
        (OrderlyDelivery .transparent fourReplicas) (.start fourNodes) roundDeliveries) :=
    .of_isSome (by decide +kernel)
  exact ⟨_, hreachable, by decide +kernel, by decide +kernel,
    agreement_of_orderly Utils.Platform.collisionFree_transparent requestJson_transparent_injective
      (by decide) (by decide) (by decide) registered_fourNodes hreachable⟩

/-- The Byzantine replica proposes two requests and commits each twice. -/
def equivocationDeliveries : List (Fin 4 × Event) :=
  [(0, .message (.prePrepare (roundPreprepare [4] ⟨"a"⟩))),
    (0, .message (.commit (roundCommit [4] ⟨"a"⟩))), (0, .message (.commit (roundCommit [4] ⟨"a"⟩))),
    (2, .message (.prePrepare (roundPreprepare [4] ⟨"b"⟩))),
    (2, .message (.commit (roundCommit [4] ⟨"b"⟩))), (2, .message (.commit (roundCommit [4] ⟨"b"⟩)))]

/-- Two correct replicas complete different requests for the first number of the first view. -/
theorem not_agreement_of_equivocation :
    Externals.transparent.CollisionFree ∧ Function.Injective Externals.transparent.requestJson ∧
      Fintype.card (Fin 4) = 3 * (1 : UInt64).toNat + 1 ∧
      fourReplicas.byzantine.card ≤ (1 : UInt64).toNat ∧
      Registered .transparent fourReplicas 1 fourNodes ∧
      ∃ w, World.Reachable (replicaStep .transparent fourReplicas)
          (Unforgeable .transparent fourReplicas) (.start fourNodes) w ∧
        (∀ i, (w.nodes i).state.view = 0) ∧ ¬ Agreement fourReplicas w.history := by
  refine ⟨Utils.Platform.collisionFree_transparent, requestJson_transparent_injective, by decide,
    by decide, registered_fourNodes,
    World.final (replicaStep .transparent fourReplicas) (Unforgeable .transparent fourReplicas)
      (.start fourNodes) equivocationDeliveries,
    .of_isSome (by decide +kernel), by decide +kernel, ?_⟩
  intro hagreement
  have hsame : (⟨"a"⟩ : Request) = ⟨"b"⟩ :=
    hagreement 0 (by decide) 2 (by decide) 0 1 _ _ (by decide +kernel) (by decide +kernel)
  exact absurd hsame (by decide)

end BFTDiagnosis.Pbft
