import BFTDiagnosis.Hotstuff.Common

/-!
# Basic HotStuff messages and hashes

The message types of `protocols/src/basic_hotstuff/message.rs` and the hashes of `common.rs`. A vote
signs the hash of a phase, a view and a block; `getMessageHash_inj` says that the hash determines all
three when the hash function has no collisions and blocks are encoded injectively.
-/

namespace BFTDiagnosis.BasicHotstuff

open Components Utils Word Hotstuff

structure Block where
  cmd : String
  parentHash : String
deriving DecidableEq

/-- The code the protocol calls that is not part of the repository. -/
structure Externals extends Hotstuff.Externals where
  /-- `coder::serialize_into_bytes` of a block. -/
  blockBytes : Block → Bytes

structure QC where
  msgType : UInt8
  viewNum : UInt64
  block : Block
  signature : Option Bytes
deriving DecidableEq

structure NewView where
  viewNum : UInt64
  justify : Option QC
  fromPeerId : Bytes
deriving DecidableEq

structure Prepare where
  viewNum : UInt64
  block : Block
  justify : Option QC
  fromPeerId : Bytes
deriving DecidableEq

structure PreCommit where
  viewNum : UInt64
  justify : Option QC
deriving DecidableEq

structure Commit where
  viewNum : UInt64
  justify : Option QC
deriving DecidableEq

structure Decide where
  viewNum : UInt64
  justify : Option QC
deriving DecidableEq

structure Vote where
  viewNum : UInt64
  block : Block
  partialSignature : Option Bytes
  fromPeerId : Bytes
deriving DecidableEq

/-- `ConsensusNodePKsInfo` carries the entries of a serialized map, in the order of the bytes. -/
inductive MessageType where
  | request (request : Request)
  | newView (newview : NewView)
  | prepare (prepare : Prepare)
  | commit (commit : Commit)
  | preCommit (preCommit : PreCommit)
  | decide (decide : Decide)
  | prepareVote (vote : Vote)
  | commitVote (vote : Vote)
  | preCommitVote (vote : Vote)
  | «end» (msg : String)
  | tblsKey (key : TBLSKey)
  | consensusNodePKsInfo (entries : List (Bytes × ConsensusNodePKInfo))
deriving DecidableEq

structure ConsensusMessage where
  msgType : MessageType
deriving DecidableEq

/-- What a handler hands to the network: a serialized message, or no bytes at all. -/
inductive Payload where
  | message (msg : ConsensusMessage)
  | empty
deriving DecidableEq

abbrev Answer := PhaseState Payload

def PREPARE : UInt8 := 1
def PRE_COMMIT : UInt8 := 2
def COMMIT : UInt8 := 3

/-- The three phases in which replicas vote. -/
inductive Phase where
  | prepare
  | preCommit
  | commit
deriving DecidableEq

def Phase.code : Phase → UInt8
  | .prepare => PREPARE
  | .preCommit => PRE_COMMIT
  | .commit => COMMIT

theorem Phase.code_injective : Function.Injective Phase.code := by
  intro phase phase' h
  cases phase <;> cases phase' <;> first | rfl | exact absurd h (by decide)

theorem Phase.code_le (phase : Phase) : ¬ 4 < phase.code := by
  cases phase <;> decide

section Hashes

variable (X : Externals)

def getBlockHash (block : Block) : String := X.getHashStr (X.blockBytes block)

/-- `common::get_message_hash`; message types above 4 have no hash. -/
def getMessageHash (msgType : UInt8) (viewNum : UInt64) (block : Block) : String :=
  if 4 < msgType then ""
  else X.getHashStr (msgType :: (toBeBytes viewNum ++ X.blockBytes block))

/-- The hash that a vote of a phase signs. -/
def voteHash (phase : Phase) (viewNum : UInt64) (block : Block) : String :=
  getMessageHash X phase.code viewNum block

end Hashes

theorem voteHash_inj {X : Externals} (hX : X.CollisionFree) (hblock : Function.Injective X.blockBytes)
    {phase phase' : Phase} {view view' : UInt64} {block block' : Block}
    (h : voteHash X phase view block = voteHash X phase' view' block') :
    phase = phase' ∧ view = view' ∧ block = block' := by
  rw [voteHash, voteHash, getMessageHash, getMessageHash, if_neg phase.code_le,
    if_neg phase'.code_le] at h
  have hbytes := List.cons.inj (hX h)
  have hfields := List.append_inj hbytes.2 (by simp)
  exact ⟨Phase.code_injective hbytes.1, toBeBytes_injective hfields.1, hblock hfields.2⟩

/-- Externals on which runs can be evaluated. -/
def Externals.transparent : Externals where
  toExternals := Hotstuff.Externals.transparent
  blockBytes block := markBytes (asBytes block.cmd) ++ 0 :: asBytes block.parentHash

theorem blockBytes_transparent_injective : Function.Injective Externals.transparent.blockBytes := by
  intro block block' h
  have hfields := markBytes_append_inj h
  cases block
  cases block'
  simp_all [asBytes_injective.eq_iff]

end BFTDiagnosis.BasicHotstuff
