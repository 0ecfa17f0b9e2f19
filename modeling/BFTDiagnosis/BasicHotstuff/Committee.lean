import BFTDiagnosis.Lib.Quorum
import BFTDiagnosis.Lib.World
import BFTDiagnosis.BasicHotstuff.VoteDiscipline

/-!
# Nodes that share a key set

Nodes that run Basic HotStuff with the keys of one `distribute_keys`, over a network that loses,
delays, repeats and reorders messages. A node may also sign any hash with its share, which is what a
Byzantine node does beyond running the code. `signers` are the nodes that have signed a hash so far.

The threshold scheme is ideal: a share that verifies was made by its node, and a signature under the
common public key needs one share more than the threshold of the key set. `distribute_keys` passes
the number of faults as this threshold.
-/

namespace BFTDiagnosis.BasicHotstuff

open Components Utils Word Hotstuff BasicHotstuffProtocol

variable {X : Externals} {ι : Type}

/-! ## Actions and signatures -/

/-- What happens at a node: a call of the actuator, or a signature outside the code. -/
inductive Action where
  | call (event : Event)
  | sign (msgHash : String)

def nodeStep (X : Externals) (D : Distribution ι) (i : ι) (p : BasicHotstuffProtocol) :
    Action → Option (BasicHotstuffProtocol × Answer)
  | .call event => step X (D.peerId i) p event
  | .sign _ => some (p, silent)

abbrev HotstuffHistory (ι : Type) := History ι BasicHotstuffProtocol Action Answer
abbrev HotstuffWorld (ι : Type) := World ι BasicHotstuffProtocol Action Answer

/-- The hashes that a transition signs. -/
def signedHashes (X : Externals) (t : Transition BasicHotstuffProtocol Action Answer) : List String :=
  match t.event with
  | .call _ => (signedVotes t.out).map fun vote ↦ voteHash X vote.1 vote.2.1 vote.2.2
  | .sign msgHash => [msgHash]

/-- Everything that the nodes have signed. -/
def signed (X : Externals) (history : HotstuffHistory ι) : List (ι × String) :=
  history.flatMap fun entry ↦ (signedHashes X entry.2).map (entry.1, ·)

/-- The nodes that have signed a hash. -/
def signers [Fintype ι] [DecidableEq ι] (X : Externals) (history : HotstuffHistory ι)
    (msgHash : String) : Finset ι :=
  Finset.univ.filter fun i ↦ (i, msgHash) ∈ signed X history

/-- The phase and the QC that a call accepts. -/
def acceptedQC (X : Externals) (p : BasicHotstuffProtocol) : Action → Option (Phase × QC)
  | .call (.message (.preCommit msg) _) => (p.checkQC X .prepare msg.justify).join.map (.prepare, ·)
  | .call (.message (.commit msg) _) => (p.checkQC X .preCommit msg.justify).join.map (.preCommit, ·)
  | .call (.message (.decide msg) _) => (p.checkQC X .commit msg.justify).join.map (.commit, ·)
  | _ => none

section Signed

variable {history : HotstuffHistory ι} {i : ι} {msgHash : String}

theorem mem_signed : (i, msgHash) ∈ signed X history ↔
    ∃ t, (i, t) ∈ history ∧ msgHash ∈ signedHashes X t := by
  simp only [signed, List.mem_flatMap, List.mem_map, Prod.mk.injEq, Prod.exists]
  constructor
  · rintro ⟨j, t, ht, msgHash', hsigned, rfl, rfl⟩
    exact ⟨t, ht, hsigned⟩
  · rintro ⟨t, ht, hsigned⟩
    exact ⟨i, t, ht, msgHash, hsigned, rfl, rfl⟩

theorem signed_grow (later : HotstuffHistory ι) (h : (i, msgHash) ∈ signed X history) :
    (i, msgHash) ∈ signed X (history ++ later) := by
  obtain ⟨t, ht, hsigned⟩ := mem_signed.1 h
  exact mem_signed.2 ⟨t, List.mem_append_left _ ht, hsigned⟩

variable [Fintype ι] [DecidableEq ι]

@[simp] theorem mem_signers : i ∈ signers X history msgHash ↔ (i, msgHash) ∈ signed X history := by
  rw [signers, Finset.mem_filter]
  exact and_iff_right (Finset.mem_univ i)

theorem card_signers_grow (later : HotstuffHistory ι) :
    (signers X history msgHash).card ≤ (signers X (history ++ later) msgHash).card :=
  Finset.card_le_card fun _ h ↦ mem_signers.2 (signed_grow later (mem_signers.1 h))

end Signed

/-! ## The environment -/

def Action.messages : Action → List MessageType
  | .call (.message msg _) => [msg]
  | _ => []

section Environment

variable [Fintype ι] [DecidableEq ι] (X : Externals) (D : Distribution ι)

/-- Nodes before any call. -/
def Fresh (nodes : ι → BasicHotstuffProtocol) : Prop :=
  ∀ i, ∃ peerId, nodes i = BasicHotstuffProtocol.new D.faultCount peerId

/-- Keys come from the distribution. A reset returns to one tolerated fault, so it belongs to a run
of the nodes only if they tolerate one. -/
def Supplies (delivery : ι × Action) : Prop :=
  match delivery.2 with
  | .call (.message (.tblsKey key) _) => key = D.key X.toExternals delivery.1
  | .call (.message (.consensusNodePKsInfo entries) _) => HashMap.ofEntries entries = D.registry X.toExternals
  | .call (.initialStart _ randomness order _) => order = D.order X.toExternals ∧ randomness = D.randomness
  | .call (.protocolReset _) => D.faultCount = 1
  | _ => True

/-- A share that verifies under the key of a node was made by this node. -/
def SharesUnforgeable (w : HotstuffWorld ι) (delivery : ι × Action) : Prop :=
  ∀ msg ∈ delivery.2.messages, ∀ vote ∈ msg.vote, ∀ share ∈ vote.2.partialSignature, ∀ i,
    X.verifyShare (D.key X.toExternals i).publicKey share
        (asBytes (voteHash X vote.1 vote.2.viewNum vote.2.block)) = true →
      (i, voteHash X vote.1 vote.2.viewNum vote.2.block) ∈ signed X w.history

/-- A signature that verifies under the common key was combined from the shares of more nodes than
the threshold of the key set. -/
def ThresholdUnforgeable (w : HotstuffWorld ι) (delivery : ι × Action) : Prop :=
  ∀ msg ∈ delivery.2.messages, ∀ entry ∈ msg.certificate, ∀ signature ∈ entry.2.signature, ∀ i,
    X.verify (D.key X.toExternals i).commonPublicKey signature
        (asBytes (voteHash X entry.1 entry.2.viewNum entry.2.block)) = true →
      D.faultCount.toNat + 1 ≤
        (signers X w.history (voteHash X entry.1 entry.2.viewNum entry.2.block)).card

/-- What the key distribution and the threshold scheme promise of a delivery. -/
structure Environment (w : HotstuffWorld ι) (delivery : ι × Action) : Prop where
  supplies : Supplies X D delivery
  shares : SharesUnforgeable X D w delivery
  threshold : ThresholdUnforgeable X D w delivery

variable (w : HotstuffWorld ι) (delivery : ι × Action)

instance Supplies.decidable : Decidable (Supplies X D delivery) := by
  unfold Supplies
  split <;> infer_instance

instance SharesUnforgeable.decidable : Decidable (SharesUnforgeable X D w delivery) :=
  inferInstanceAs (Decidable (∀ msg ∈ delivery.2.messages, ∀ vote ∈ msg.vote,
    ∀ share ∈ vote.2.partialSignature, ∀ _, _ → _ ∈ _))

instance ThresholdUnforgeable.decidable : Decidable (ThresholdUnforgeable X D w delivery) :=
  inferInstanceAs (Decidable (∀ msg ∈ delivery.2.messages, ∀ entry ∈ msg.certificate,
    ∀ signature ∈ entry.2.signature, ∀ _, _ → _ ≤ _))

instance Environment.decidable : Decidable (Environment X D w delivery) :=
  decidable_of_iff
    (Supplies X D delivery ∧ SharesUnforgeable X D w delivery ∧ ThresholdUnforgeable X D w delivery)
    ⟨fun h ↦ ⟨h.1, h.2.1, h.2.2⟩, fun h ↦ ⟨h.1, h.2, h.3⟩⟩

end Environment

/-! ## Four nodes -/

def fourFresh (_node : Fin 4) : BasicHotstuffProtocol := BasicHotstuffProtocol.new 1 ""

theorem fresh_fourFresh : Fresh fourNodes fourFresh := fun _ ↦ ⟨"", rfl⟩

/-- A node receives its key and the public keys, and enters the first view. -/
def joinDeliveries (node : Fin 4) : List (Fin 4 × Action) :=
  (fourKeyEvents node ++
    [Event.message (.consensusNodePKsInfo (fourKeys.map pkInfoOf)) (fourKeys.map pkInfoOf)]).map
      fun event ↦ (node, .call event)

end BFTDiagnosis.BasicHotstuff
