import BFTDiagnosis.Lib.HashMap
import BFTDiagnosis.Components.Behaviour

/-!
# Threshold signatures

The wrapper `utils/src/crypto/threshold_blsttc.rs` around the blsttc crate. Keys, shares and
signatures are byte strings, and what the crate computes on them enters as parameters. A key set is
drawn by `SecretKeySet::random` from a threshold `t` and randomness; by the documentation of the
crate `t + 1` shares are needed, and enough, for a signature under the common public key.
-/

namespace BFTDiagnosis.Utils

open Components

/-- The functions of the blsttc crate that the wrapper calls. -/
structure Blsttc where
  /-- `SecretKeySet::random`, with the randomness as an argument. -/
  random : ℕ → Bytes → Bytes
  /-- `SecretKeySet::public_keys`. -/
  publicKeys : Bytes → Bytes
  /-- `SecretKeySet::secret_key_share`. -/
  secretKeyShare : Bytes → UInt64 → Bytes
  /-- `PublicKeySet::public_key_share`. -/
  publicKeyShare : Bytes → UInt64 → Bytes
  /-- `PublicKeySet::public_key`. -/
  publicKey : Bytes → Bytes
  /-- `SecretKeyShare::sign`. -/
  sign : Bytes → Bytes → Bytes
  /-- `PublicKeyShare::verify`. -/
  verifyShare : Bytes → Bytes → Bytes → Bool
  /-- `PublicKey::verify`. -/
  verify : Bytes → Bytes → Bytes → Bool
  /-- `PublicKeySet::combine_signatures`, where `none` is the error. -/
  combineSignatures : Bytes → HashMap UInt64 Bytes → Option Bytes

structure TBLSKey where
  secretKey : Bytes
  publicKey : Bytes
  commonPublicKey : Bytes
  pkSet : Bytes
deriving DecidableEq

structure ThresholdSigKeys where
  keypairShares : List (UInt64 × Bytes × Bytes)
  commonPk : Bytes
  pkSet : Bytes

/-- `components::message::DistributeTBLSKey`. -/
structure DistributeTBLSKey where
  number : UInt64
  peerId : PeerId
  tblsKey : TBLSKey
deriving DecidableEq

namespace Blsttc

variable (X : Blsttc)

/-- `threshold_blsttc::generate_keypair_set`. -/
def generateKeypairSet (t n : ℕ) (randomness : Bytes) : ThresholdSigKeys :=
  let skSet := X.random t randomness
  let pkSet := X.publicKeys skSet
  { keypairShares := (List.range n).map fun i ↦
      (UInt64.ofNat i, X.secretKeyShare skSet (UInt64.ofNat i), X.publicKeyShare pkSet (UInt64.ofNat i))
    commonPk := X.publicKey pkSet
    pkSet := pkSet }

/-- `generate_bls_keys` of the HotStuff protocols: the shares are zipped with the nodes in the order
in which the map of nodes is visited. -/
def generateBlsKeys (consensusNodes : List (String × PeerId)) (faultCount : UInt64)
    (randomness : Bytes) : List DistributeTBLSKey :=
  let keySet := X.generateKeypairSet faultCount.toNat consensusNodes.length randomness
  List.zipWith
    (fun share node ↦
      { number := share.1
        peerId := node.2
        tblsKey :=
          { secretKey := share.2.1
            publicKey := share.2.2
            commonPublicKey := keySet.commonPk
            pkSet := keySet.pkSet } })
    keySet.keypairShares consensusNodes

/-- Eight bytes that depend on every byte of a message. -/
def checksum (message : Bytes) : Bytes :=
  Word.toBeBytes (UInt64.ofNat
    (message.foldl (fun sum byte ↦ (sum * 257 + byte.toNat + 1) % 18446744073709551557) 7))

/-- Threshold signatures on which runs can be evaluated: a key is its key set followed by its number,
a signature is the key followed by a checksum of the message, and shares combine when there are more
of them than the threshold that stands at the head of the key set. -/
def transparent : Blsttc where
  random t randomness := UInt8.ofNat t :: randomness
  publicKeys skSet := skSet
  secretKeyShare skSet i := skSet ++ Word.toBeBytes i
  publicKeyShare pkSet i := pkSet ++ Word.toBeBytes i
  publicKey pkSet := pkSet
  sign share message := share ++ checksum message
  verifyShare pk signature message := signature == pk ++ checksum message
  verify pk signature message := signature == pk ++ checksum message
  combineSignatures pkSet shares :=
    if (pkSet.headD 0).toNat < shares.len then
      ((List.range 256).findSome? fun i ↦ shares.lookup (UInt64.ofNat i)).map fun share ↦
        pkSet ++ share.drop (pkSet.length + 8)
    else none

end Blsttc

namespace TBLSKey

variable (X : Blsttc)

def sign (key : TBLSKey) (data : Bytes) : Bytes := X.sign key.secretKey data

def thresholdVerify (key : TBLSKey) (signature data : Bytes) : Bool :=
  X.verify key.commonPublicKey signature data

/-- `TBLSKey::combine_partial_signatures`; `none` is the panic. -/
def combinePartialSignatures (key : TBLSKey) (shares : HashMap UInt64 Bytes) : Option Bytes :=
  X.combineSignatures key.pkSet shares

end TBLSKey

end BFTDiagnosis.Utils
