import Mathlib.Data.List.Basic
import BFTDiagnosis.Components.Behaviour

/-!
# The third-party code under the protocols

The protocols hash with SHA3-256, serialize with bincode and serde_json and parse libp2p peer
ids. None of this code belongs to the repository, so it enters the model as parameters. What a
result relies on is a hypothesis about them, such as `CollisionFree`.
-/

namespace BFTDiagnosis.Utils

open Components

/-- Hashing, bincode and peer ids, as every protocol uses them. -/
structure Platform where
  /-- `coder::get_hash_str`: the SHA3-256 digest in hexadecimal. -/
  getHashStr : Bytes → String
  /-- `coder::serialize_into_bytes` of a request. -/
  requestBytes : Request → Bytes
  /-- Whether `PeerId::from_bytes` accepts the bytes. -/
  peerIdValid : Bytes → Bool
  /-- `PeerId::to_string`. -/
  peerIdString : PeerId → String

namespace Platform

variable (X : Platform)

/-- `PeerId::from_bytes(..).expect(..)`: `none` is the panic. -/
def peerIdFromBytes (bytes : Bytes) : Option PeerId :=
  if X.peerIdValid bytes then some bytes else none

theorem eq_of_peerIdFromBytes {X : Platform} {bytes peer : Bytes}
    (h : X.peerIdFromBytes bytes = some peer) : peer = bytes := by
  unfold peerIdFromBytes at h
  split at h
  case isTrue => exact (Option.some.inj h).symm
  case isFalse => cases h

/-- Two inputs with one digest are equal. -/
def CollisionFree : Prop := Function.Injective X.getHashStr

/-- One character for each byte. -/
def charOfByte (byte : UInt8) : Char := Char.ofNat byte.toNat

theorem toNat_charOfByte (byte : UInt8) : (charOfByte byte).toNat = byte.toNat := by
  have hlt := byte.toNat_lt
  have hvalid : byte.toNat.isValidChar := Or.inl (by omega)
  rw [charOfByte, Char.ofNat, dif_pos hvalid]
  rfl

theorem charOfByte_injective : Function.Injective charOfByte := by
  intro x y h
  apply UInt8.toNat_inj.1
  rw [← toNat_charOfByte x, ← toNat_charOfByte y, h]

/-- A platform on which runs can be evaluated: the digest is an injective spelling of its input and
every byte string is a peer id. -/
def transparent : Platform where
  getHashStr bytes := String.ofList (bytes.map charOfByte)
  requestBytes request := Word.asBytes request.cmd
  peerIdValid _ := true
  peerIdString peer := String.ofList (peer.map charOfByte)

theorem collisionFree_transparent : transparent.CollisionFree := by
  intro bytes bytes' h
  have hchars : bytes.map charOfByte = bytes'.map charOfByte := String.ofList_injective h
  exact charOfByte_injective.list_map hchars

end Platform

/-! ## Four peers -/

/-- The runs of four nodes are over `Fin 4`, whose literals hold a proof that four is not zero. As a
constant it is the same one in every module. -/
instance neZero_four : NeZero 4 := ⟨Nat.succ_ne_zero 3⟩

/-- Four peers with one byte each as their id. -/
theorem fourPeers_injective : Function.Injective fun i : Fin 4 ↦ [UInt8.ofNat (i + 1)] := by
  unfold Function.Injective
  decide

end BFTDiagnosis.Utils
