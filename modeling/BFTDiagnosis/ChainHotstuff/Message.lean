import BFTDiagnosis.Hotstuff.Common

/-!
# Chained HotStuff messages and hashes

The message types of `protocols/src/chain_hotstuff/message.rs` and the hashes of `common.rs`. A block
carries the QC of its parent, and with it the whole chain of blocks below it.
-/

namespace BFTDiagnosis.ChainHotstuff

open Components Utils Word Hotstuff

mutual

structure Block where
  cmd : String
  parentHash : String
  justify : Option QC

structure QC where
  viewNum : UInt64
  block : Block
  signature : Option Bytes

end

def Block.decEq : (block block' : Block) → Decidable (block = block')
  | ⟨cmd, parentHash, none⟩, ⟨cmd', parentHash', none⟩ =>
    decidable_of_iff (cmd = cmd' ∧ parentHash = parentHash') (by simp)
  | ⟨_, _, none⟩, ⟨_, _, some _⟩ => isFalse (by simp)
  | ⟨_, _, some _⟩, ⟨_, _, none⟩ => isFalse (by simp)
  | ⟨cmd, parentHash, some ⟨viewNum, block, signature⟩⟩,
      ⟨cmd', parentHash', some ⟨viewNum', block', signature'⟩⟩ =>
    have : Decidable (block = block') := decEq block block'
    decidable_of_iff (cmd = cmd' ∧ parentHash = parentHash' ∧ viewNum = viewNum' ∧ block = block' ∧
      signature = signature') (by simp)

instance : DecidableEq Block := Block.decEq

instance : DecidableEq QC := fun qc qc' ↦
  decidable_of_iff (qc.viewNum = qc'.viewNum ∧ qc.block = qc'.block ∧ qc.signature = qc'.signature)
    (by cases qc; cases qc'; simp)

structure Generic where
  viewNum : UInt64
  block : Option Block
  justify : Option QC
  fromPeerId : Bytes
deriving DecidableEq

structure Vote where
  viewNum : UInt64
  block : Block
  partialSignature : Bytes
  fromPeerId : Bytes
deriving DecidableEq

/-- `ConsensusNodePKsInfo` carries the entries of a serialized map, in the order of the bytes. -/
inductive MessageType where
  | init
  | request (request : Request)
  | generic (generic : Generic)
  | vote (vote : Vote)
  | «end» (msg : String)
  | tblsKey (key : TBLSKey)
  | consensusNodePKsInfo (entries : List (Bytes × ConsensusNodePKInfo))
deriving DecidableEq

structure ConsensusMessage where
  msgType : MessageType
deriving DecidableEq

/-- What a handler hands to the network: a serialized message, or no bytes at all. -/
inductive Payload where
  | message (msg : ConsensusMessage)
  | empty
deriving DecidableEq

abbrev Answer := PhaseState Payload

/-- The code the protocol calls that is not part of the repository. -/
structure Externals extends Hotstuff.Externals where
  /-- `coder::serialize_into_bytes` of a block. -/
  blockBytes : Block → Bytes

def GENERIC : UInt8 := 1

section Hashes

variable (X : Externals)

def getBlockHash (block : Block) : String := X.getHashStr (X.blockBytes block)

/-- `common::get_generic_hash`; other message types have no hash. -/
def getGenericHash (msgType : UInt8) (viewNum : UInt64) (block : Block) : String :=
  if msgType ≠ GENERIC then ""
  else X.getHashStr (msgType :: (toBeBytes viewNum ++ X.blockBytes block))

end Hashes

theorem getGenericHash_inj {X : Externals} (hX : X.CollisionFree) (hblock : Function.Injective X.blockBytes)
    {view view' : UInt64} {block block' : Block}
    (h : getGenericHash X GENERIC view block = getGenericHash X GENERIC view' block') :
    view = view' ∧ block = block' := by
  rw [getGenericHash, getGenericHash, if_neg (not_not.2 rfl), if_neg (not_not.2 rfl)] at h
  have hbytes := List.cons.inj (hX h)
  have hfields := List.append_inj hbytes.2 (by simp)
  exact ⟨toBeBytes_injective hfields.1, hblock hfields.2⟩

/-! ## Chains of blocks -/

/-- The block below a block. -/
def Block.parent (block : Block) : Option Block := block.justify.map QC.block

/-- The blocks from the first of the chain up to a block. -/
def Block.lineage : Block → List Block
  | ⟨cmd, parentHash, none⟩ => [⟨cmd, parentHash, none⟩]
  | ⟨cmd, parentHash, some ⟨viewNum, block, signature⟩⟩ =>
    block.lineage ++ [⟨cmd, parentHash, some ⟨viewNum, block, signature⟩⟩]

theorem Block.lineage_eq (block : Block) :
    block.lineage = (block.parent.map lineage).getD [] ++ [block] := by
  obtain ⟨cmd, parentHash, justify⟩ := block
  cases justify with
  | none => simp [lineage, parent]
  | some qc =>
    obtain ⟨viewNum, block, signature⟩ := qc
    simp [lineage, parent]

/-! ## Externals on which runs can be evaluated -/

/-- The encoding of a signature that may be missing. -/
def signatureBytes : Option Bytes → Bytes
  | none => [0]
  | some signature => 1 :: (markBytes signature ++ [0])

theorem signatureBytes_append_inj {signature signature' : Option Bytes} {rest rest' : Bytes}
    (h : signatureBytes signature ++ rest = signatureBytes signature' ++ rest') :
    signature = signature' ∧ rest = rest' := by
  cases signature with
  | none =>
    cases signature' with
    | none => exact ⟨rfl, (List.cons.inj h).2⟩
    | some signature' => exact absurd (List.cons.inj h).1 (by decide)
  | some signature =>
    cases signature' with
    | none => exact absurd (List.cons.inj h).1 (by decide)
    | some signature' =>
      have htail : markBytes signature ++ 0 :: rest = markBytes signature' ++ 0 :: rest' := by
        simpa [signatureBytes] using h
      exact ⟨congrArg some (markBytes_append_inj htail).1, (markBytes_append_inj htail).2⟩

/-- An injective encoding of blocks. The parent hash is left out where it is the hash of the parent,
so that the encoding of a chain does not grow with every block by as much as it has. -/
def encodeBlock : Block → Bytes
  | ⟨cmd, parentHash, none⟩ => markBytes (asBytes cmd) ++ 0 :: 0 :: asBytes parentHash
  | ⟨cmd, parentHash, some ⟨viewNum, block, signature⟩⟩ =>
    let parent := encodeBlock block
    let rest := toBeBytes viewNum ++ (signatureBytes signature ++ parent)
    if parentHash = Platform.transparent.getHashStr parent then
      markBytes (asBytes cmd) ++ 0 :: 1 :: rest
    else markBytes (asBytes cmd) ++ 0 :: 2 :: (markBytes (asBytes parentHash) ++ 0 :: rest)

theorem encodeBlock_inj : ∀ {block block' : Block}, encodeBlock block = encodeBlock block' → block = block'
  | ⟨cmd, parentHash, none⟩, ⟨cmd', parentHash', none⟩, h => by
    have hcmd := markBytes_append_inj h
    rw [asBytes_injective hcmd.1, asBytes_injective (List.cons.inj hcmd.2).2]
  | ⟨cmd, parentHash, none⟩, ⟨cmd', parentHash', some ⟨viewNum, block, signature⟩⟩, h => by
    simp only [encodeBlock] at h
    split at h
    case isTrue => exact absurd (List.cons.inj (markBytes_append_inj h).2).1 (by decide)
    case isFalse => exact absurd (List.cons.inj (markBytes_append_inj h).2).1 (by decide)
  | ⟨cmd, parentHash, some ⟨viewNum, block, signature⟩⟩, ⟨cmd', parentHash', none⟩, h => by
    simp only [encodeBlock] at h
    split at h
    case isTrue => exact absurd (List.cons.inj (markBytes_append_inj h).2).1 (by decide)
    case isFalse => exact absurd (List.cons.inj (markBytes_append_inj h).2).1 (by decide)
  | ⟨cmd, parentHash, some ⟨viewNum, block, signature⟩⟩,
      ⟨cmd', parentHash', some ⟨viewNum', block', signature'⟩⟩, h => by
    have hrest (heq : toBeBytes viewNum ++ (signatureBytes signature ++ encodeBlock block) =
        toBeBytes viewNum' ++ (signatureBytes signature' ++ encodeBlock block')) :
        viewNum = viewNum' ∧ signature = signature' ∧ block = block' := by
      have hview := List.append_inj heq (by simp)
      have hsignature := signatureBytes_append_inj hview.2
      exact ⟨toBeBytes_injective hview.1, hsignature.1, encodeBlock_inj hsignature.2⟩
    simp only [encodeBlock] at h
    split at h
    case isTrue hlinked =>
      split at h
      case isTrue hlinked' =>
        have hcmd := markBytes_append_inj h
        obtain ⟨rfl, rfl, rfl⟩ := hrest (List.cons.inj hcmd.2).2
        rw [asBytes_injective hcmd.1, hlinked, hlinked']
      case isFalse => exact absurd (List.cons.inj (markBytes_append_inj h).2).1 (by decide)
    case isFalse =>
      split at h
      case isTrue => exact absurd (List.cons.inj (markBytes_append_inj h).2).1 (by decide)
      case isFalse =>
        have hcmd := markBytes_append_inj h
        have hparent := markBytes_append_inj (List.cons.inj hcmd.2).2
        obtain ⟨rfl, rfl, rfl⟩ := hrest hparent.2
        rw [asBytes_injective hcmd.1, asBytes_injective hparent.1]

def Externals.transparent : Externals where
  toExternals := Hotstuff.Externals.transparent
  blockBytes := encodeBlock

theorem blockBytes_transparent_injective : Function.Injective Externals.transparent.blockBytes :=
  fun _ _ h ↦ encodeBlock_inj h

end BFTDiagnosis.ChainHotstuff
