import Mathlib.Data.Nat.Pairing
import BFTDiagnosis.Lib.HashMap
import BFTDiagnosis.Lib.HashSet
import BFTDiagnosis.Lib.Word

/-!
# Messages of HoneyBadger

The messages of reliable broadcast and of binary agreement, and the subset messages that carry both. A
clock reading and a random byte that every Echo and Ready has are left out, as nothing reads them.
-/

namespace BFTDiagnosis.Honeybadger

/-- A SHA3-256 digest. -/
structure Digest where
  bytes : Bytes
  length_bytes : bytes.length = 32
  deriving DecidableEq

/-- The 32 lowest base-256 digits of a number. -/
def Digest.ofNat (n : ℕ) : Digest where
  bytes := (List.range 32).map fun i ↦ UInt8.ofNat (n / 256 ^ i)
  length_bytes := by simp

/-- A leaf of a hash tree with what is needed to check its place in the tree. -/
structure Proof where
  value : Bytes
  index : ℕ
  digests : List Digest
  rootHash : Digest
  deriving DecidableEq

/-! ## Sets of booleans -/

/-- A set of booleans, one bit each. -/
structure BoolSet where
  bits : UInt8
  deriving DecidableEq

namespace BoolSet

def NONE : BoolSet := ⟨0b00⟩
def FALSE : BoolSet := ⟨0b01⟩
def TRUE : BoolSet := ⟨0b10⟩
def BOTH : BoolSet := ⟨0b11⟩

/-- The set with one element. -/
def ofBool (b : Bool) : BoolSet := if b then TRUE else FALSE

def insert (s : BoolSet) (b : Bool) : BoolSet := ⟨s.bits ||| (ofBool b).bits⟩

def remove (s : BoolSet) (b : Bool) : BoolSet := ⟨s.bits &&& (ofBool !b).bits⟩

def contains (s : BoolSet) (b : Bool) : Bool := s.bits &&& (ofBool b).bits != 0

def definite (s : BoolSet) : Option Bool :=
  if s = FALSE then some false else if s = TRUE then some true else none

/-- The elements as `BoolSetIter` returns them. -/
def toList (s : BoolSet) : List Bool :=
  if s.contains true then
    true :: if (s.remove true).contains false then [false] else []
  else if s.contains false then [false] else []

/-- A fact about sets of booleans is checked for each byte. -/
theorem forall_of_bits {P : BoolSet → Prop} (h : ∀ bits : Fin 256, P ⟨UInt8.ofFin bits⟩) (s : BoolSet) : P s :=
  h s.bits.toFin

theorem mem_toList {s : BoolSet} {b : Bool} : b ∈ s.toList ↔ s.contains b = true := by
  revert s
  apply forall_of_bits
  cases b <;> decide +kernel

theorem contains_insert (s : BoolSet) (b b' : Bool) :
    (s.insert b).contains b' = (b == b' || s.contains b') := by
  revert s
  apply forall_of_bits
  cases b <;> cases b' <;> decide +kernel

@[simp] theorem contains_NONE (b : Bool) : NONE.contains b = false := by cases b <;> rfl

end BoolSet

/-! ## Keys and signatures

Those of `threshold_crypto`, each given by its bytes. -/

abbrev SecretKeyShare := Bytes
abbrev PublicKeyShare := Bytes
abbrev PublicKeySet := Bytes
abbrev PublicKey := Bytes
abbrev SignatureShare := Bytes
abbrev Signature := Bytes

/-! ## Messages -/

structure Echo where
  proof : Proof
  deriving DecidableEq

structure Ready where
  hash : Digest
  deriving DecidableEq

structure RbcReply where
  clientId : Bytes
  result : Bytes
  deriving DecidableEq

/-- Messages of reliable broadcast; the names are those of proposers. -/
inductive RbcMessage where
  | value (id : String) (proof : Proof)
  | echo (id : String) (msg : Echo)
  | ready (id : String) (msg : Ready)
  | canDecode (id : String) (hash : Digest)
  | complete (value : Bool)
  | reply (msg : RbcReply)
  deriving DecidableEq

inductive BaMessage where
  | bval (id : String) (value : Bool)
  | aux (id : String) (value : Bool)
  deriving DecidableEq

/-- A threshold signing message. -/
structure SigMessage where
  share : SignatureShare
  deriving DecidableEq

/-- What is said in an epoch of binary agreement. -/
inductive AbaMessage where
  | baBroadcast (id : String) (msg : BaMessage)
  | conf (id : String) (values : BoolSet)
  | term (id : String) (value : Bool)
  | coin (id : String) (msg : SigMessage)
  | signature (id : String) (sig : Signature)
  deriving DecidableEq

/-- A message of binary agreement with the epoch it belongs to. -/
structure AgreementMessage where
  epoch : ℕ
  content : AbaMessage
  deriving DecidableEq

def AbaMessage.withEpoch (content : AbaMessage) (epoch : ℕ) : AgreementMessage := ⟨epoch, content⟩

structure SubsetRequest where
  data : Bytes
  clientId : Bytes
  deriving DecidableEq

inductive SubsetContent where
  | request (msg : SubsetRequest)
  | broadcast (id : String) (msg : RbcMessage)
  | agreement (id : String) (msg : AgreementMessage)
  | reply (id : String) (value : Bool)
  deriving DecidableEq

/-- A message of the instance of one proposer. -/
structure SubsetMessage where
  proposerId : String
  content : SubsetContent
  deriving DecidableEq

def SubsetContent.withProposer (content : SubsetContent) (proposerId : String) : SubsetMessage := ⟨proposerId, content⟩

/-- What is serialized and sent: most messages as subset messages, the later ones of an epoch bare. -/
inductive Payload where
  | subset (msg : SubsetMessage)
  | agreement (msg : AgreementMessage)
  deriving DecidableEq

/-! ## Externals -/

/-- Functions that HoneyBadger takes from outside the repository. -/
structure Externals where
  /-- `Sha3::v256`. -/
  sha3 : Bytes → Digest
  /-- `ReedSolomon::reconstruct` with the numbers of data and parity shards; `none` is an error. -/
  reconstruct : ℕ → ℕ → List (Option Bytes) → Option (List (Option Bytes))
  /-- `SecretKeyShare::sign`. -/
  sign : SecretKeyShare → String → SignatureShare
  /-- `PublicKeyShare::verify`. -/
  verifyShare : PublicKeyShare → SignatureShare → String → Bool
  /-- `PublicKeySet::public_key_share`. -/
  publicKeyShare : PublicKeySet → ℕ → PublicKeyShare
  /-- `PublicKeySet::combine_signatures`; `none` is an error. -/
  combineSignatures : PublicKeySet → List (ℕ × SignatureShare) → Option Signature
  /-- `PublicKeySet::public_key`. -/
  publicKey : PublicKeySet → PublicKey
  /-- `PublicKey::verify`. -/
  verify : PublicKey → Signature → String → Bool
  /-- `Signature::parity`. -/
  parity : Signature → Bool
  /-- The order of a set of proofs. -/
  proofs : Walk Proof
  /-- The order of `connected_nodes`. -/
  nodes : Walk (ℕ × String)
  /-- The order of `sigshare_received`. -/
  shares : Walk (String × (ℕ × SignatureShare))
  /-- The order of the keys of `term_received`. -/
  terms : Walk Bool
  /-- The order of a set of nodes. -/
  senders : Walk String

/-- The pieces are of one length, which is not zero. -/
def SameSize (pieces : List Bytes) : Prop :=
  ∀ piece ∈ pieces, piece ≠ [] ∧ ∀ other ∈ pieces, piece.length = other.length

instance SameSize.decidable (pieces : List Bytes) : Decidable (SameSize pieces) :=
  inferInstanceAs (Decidable (∀ piece ∈ pieces, _ ∧ ∀ other ∈ pieces, _))

/-- When no piece is missing, the number and the sizes of the pieces are checked and nothing is done. -/
def Externals.ChecksPieces (X : Externals) : Prop :=
  ∀ (data parity : ℕ) (pieces : List Bytes), X.reconstruct data parity (pieces.map some) =
    if pieces.length = data + parity ∧ SameSize pieces then some (pieces.map some) else none

/-! ## Externals on which runs can be evaluated -/

/-- A number for every list of digests, a different one for each. -/
def Digest.key (digests : List Digest) : ℕ :=
  digests.foldr (fun digest rest ↦ Nat.pair digest.bytes.key rest + 1) 0

theorem Digest.key_injective : Function.Injective Digest.key := by
  intro digests digests' h
  induction digests generalizing digests' with
  | nil =>
    cases digests' with
    | nil => rfl
    | cons digest' rest' => exact absurd h (Nat.succ_ne_zero _).symm
  | cons digest rest ih =>
    cases digests' with
    | nil => exact absurd h (Nat.succ_ne_zero _)
    | cons digest' rest' =>
      obtain ⟨hfirst, hrest⟩ := Nat.pair_eq_pair.1 (Nat.succ.inj h)
      cases digest
      cases digest'
      obtain rfl := Bytes.key_injective hfirst
      rw [ih hrest]

/-- A number for every proof, a different one for each. -/
def Proof.key (proof : Proof) : ℕ :=
  Nat.pair proof.index
    (Nat.pair proof.value.key (Nat.pair (Digest.key proof.digests) (Digest.key [proof.rootHash])))

theorem Proof.key_injective : Function.Injective Proof.key := by
  rintro ⟨value, index, digests, root⟩ ⟨value', index', digests', root'⟩ h
  simp only [Proof.key, Nat.pair_eq_pair] at h
  obtain ⟨rfl, hvalue, hdigests, hroot⟩ := h
  obtain rfl := Bytes.key_injective hvalue
  obtain rfl := Digest.key_injective hdigests
  obtain rfl := List.singleton_inj.1 (Digest.key_injective hroot)
  rfl

theorem nodeKey_injective :
    Function.Injective fun node : ℕ × String ↦ Nat.pair node.1 (Word.asBytes node.2).key := by
  rintro ⟨index, id⟩ ⟨index', id'⟩ h
  obtain ⟨hindex, hid⟩ := Nat.pair_eq_pair.1 h
  exact Prod.ext hindex (Word.asBytes_injective (Bytes.key_injective hid))

theorem shareKey_injective : Function.Injective fun share : String × (ℕ × SignatureShare) ↦
    Nat.pair (Word.asBytes share.1).key (Nat.pair share.2.1 share.2.2.key) := by
  rintro ⟨id, index, share⟩ ⟨id', index', share'⟩ h
  obtain ⟨hid, hrest⟩ := Nat.pair_eq_pair.1 h
  obtain ⟨hindex, hshare⟩ := Nat.pair_eq_pair.1 hrest
  exact Prod.ext (Word.asBytes_injective (Bytes.key_injective hid))
    (Prod.ext hindex (Bytes.key_injective hshare))

theorem boolKey_injective : Function.Injective Bool.toNat := by
  intro b b' h
  cases b <;> cases b' <;> first | rfl | cases h

/-- A digest is the input as a number, missing pieces are not restored, a key is its own public key, and a
signature is the key followed by what is signed. -/
def Externals.transparent : Externals where
  sha3 bytes := Digest.ofNat bytes.key
  reconstruct data parity pieces :=
    if pieces.length = data + parity ∧ pieces.all Option.isSome ∧ SameSize (pieces.filterMap id) then some pieces
    else none
  sign key doc := key ++ Word.asBytes doc
  verifyShare key share doc := share == key ++ Word.asBytes doc
  publicKeyShare keys index := keys ++ [UInt8.ofNat index]
  combineSignatures keys _ := some (keys ++ Word.asBytes "coin")
  publicKey keys := keys
  verify key sig doc := sig == key ++ Word.asBytes doc
  parity sig := sig.foldl (fun odd byte ↦ xor odd (byte &&& 1 == 1)) false
  proofs := .ofKey Proof.key Proof.key_injective
  nodes := .ofKey _ nodeKey_injective
  shares := .ofKey _ shareKey_injective
  terms := .ofKey _ boolKey_injective
  senders := .ofKey _ (Bytes.key_injective.comp Word.asBytes_injective)

theorem checksPieces_transparent : Externals.transparent.ChecksPieces := by
  intro data parity pieces
  simp [Externals.transparent, List.filterMap_map]

end BFTDiagnosis.Honeybadger
