import BFTDiagnosis.Utils.Platform

/-!
# PBFT messages and their keys

The message types of `protocols/src/pbft/message.rs` and the keys of `common.rs`. A key is the
hash of a kind prefix followed by the fields it covers; it is what the sender signs and what the
log counts under. The sender's peer id is not covered.
-/

namespace BFTDiagnosis.Pbft

open Components Utils Word

/-- The code the protocol calls that is not part of the repository. -/
structure Externals extends Platform where
  /-- `coder::serialize_into_json_bytes` of a request. -/
  requestJson : Request → Bytes
  /-- `coder::deserialize_for_json_bytes` at type `Request`; `none` is the panic. -/
  requestOfJson : Bytes → Option Request
  /-- `EdDSAKeyPair::get_public_key`, with a key pair given by its bytes. -/
  publicKey : Bytes → Bytes
  /-- `EdDSAKeyPair::sign`. -/
  sign : Bytes → Bytes → Bytes
  /-- `EdDSAPublicKey::verify`, `false` on malformed keys and signatures. -/
  verify : Bytes → Bytes → Bytes → Bool

/-- Externals on which runs can be evaluated: a command is quoted without escapes, a key pair is its
own public key, and a signature is the key followed by the message. -/
def Externals.transparent : Externals where
  toPlatform := Platform.transparent
  requestJson := quote
  requestOfJson bytes :=
    let body := (bytes.drop 8).take (bytes.length - 10)
    let request : Request := ⟨String.ofList (body.map Platform.charOfByte)⟩
    if quote request = bytes then some request else none
  publicKey keypair := keypair
  sign keypair message := keypair ++ message
  verify pk signature message := signature == pk ++ message
where
  quote (request : Request) : Bytes := asBytes ("\x7b\"cmd\":\"" ++ request.cmd ++ "\"\x7d")

theorem requestJson_transparent_injective : Function.Injective Externals.transparent.requestJson := by
  intro request request' h
  have hquoted : "\x7b\"cmd\":\"" ++ request.cmd ++ "\"\x7d" =
      "\x7b\"cmd\":\"" ++ request'.cmd ++ "\"\x7d" := asBytes_injective h
  have hcmd : request.cmd = request'.cmd := by simpa using hquoted
  cases request
  cases request'
  exact congrArg Request.mk hcmd

structure PrePrepare where
  view : UInt64
  number : UInt64
  mHash : String
  m : Bytes
  signature : Bytes
  fromPeerId : Bytes
deriving DecidableEq

structure Prepare where
  view : UInt64
  number : UInt64
  mHash : String
  fromPeerId : Bytes
  signature : Bytes
deriving DecidableEq

structure Commit where
  view : UInt64
  number : UInt64
  mHash : String
  fromPeerId : Bytes
  signature : Bytes
deriving DecidableEq

structure Reply where
  cmd : String
  view : UInt64
  number : UInt64
  fromPeerId : Bytes
  signature : Bytes
  result : Bytes
deriving DecidableEq

structure CheckPoint where
  currentMaxNumber : UInt64
  checkpointStateDigest : String
  fromPeerId : Bytes
  signature : String
deriving DecidableEq

/-- Proofs nest arbitrary messages, so the message type is a parameter here. -/
structure ProofMessages (μ : Type) where
  preprepares : List μ
  prepares : List μ

structure ViewChange (μ : Type) where
  newView : UInt64
  proofMessages : ProofMessages μ
  fromPeerId : Bytes
  signature : String

structure NewView (μ : Type) where
  view : UInt64
  viewchanges : List (ViewChange μ)
  preprepares : List PrePrepare
  signature : String

structure PublicKey where
  pk : Bytes
  fromPeerId : Bytes
deriving DecidableEq

inductive MessageType where
  | request (request : Request)
  | prePrepare (preprepare : PrePrepare)
  | prepare (prepare : Prepare)
  | commit (commit : Commit)
  | reply (reply : Reply)
  | checkPoint (checkpoint : CheckPoint)
  | viewChange (viewchange : ViewChange MessageType)
  | newView (newview : NewView MessageType)
  | publicKey (key : PublicKey)
  | distributePK

structure ConsensusMessage where
  msgType : MessageType

/-- What a handler hands to the JSON serializer: a whole message, or a bare message type. -/
inductive Payload where
  | message (msg : ConsensusMessage)
  | bare (msg : MessageType)

abbrev Answer := PhaseState Payload

def prePreparePrefix : UInt8 := 1
def preparePrefix : UInt8 := 2
def commitPrefix : UInt8 := 3
def replyPrefix : UInt8 := 4

/-- The bytes behind the keys of the three phases: prefix, view, number and request hash. -/
def phaseKeyBytes (kind : UInt8) (requestHash : Bytes) (view number : UInt64) : Bytes :=
  kind :: (toBeBytes view ++ toBeBytes number ++ requestHash)

section Keys

variable (X : Externals)

def getPreprepareKeyByRequestHash (requestHash : Bytes) (view number : UInt64) : String :=
  X.getHashStr (phaseKeyBytes prePreparePrefix requestHash view number)

def getPrepareKeyByRequestHash (requestHash : Bytes) (view number : UInt64) : String :=
  X.getHashStr (phaseKeyBytes preparePrefix requestHash view number)

def getCommitKeyByRequestHash (requestHash : Bytes) (view number : UInt64) : String :=
  X.getHashStr (phaseKeyBytes commitPrefix requestHash view number)

/-- `common::get_message_key`. -/
def getMessageKey : MessageType → String
  | .request request => X.getHashStr (X.requestJson request)
  | .prePrepare msg => X.getHashStr (phaseKeyBytes prePreparePrefix (asBytes msg.mHash) msg.view msg.number)
  | .prepare msg => X.getHashStr (phaseKeyBytes preparePrefix (asBytes msg.mHash) msg.view msg.number)
  | .commit msg => X.getHashStr (phaseKeyBytes commitPrefix (asBytes msg.mHash) msg.view msg.number)
  | .reply msg => X.getHashStr
      (replyPrefix :: (asBytes msg.cmd ++ toBeBytes msg.view ++ toBeBytes msg.number ++ msg.result))
  | _ => ""

/-- The key of a request, which the three phases carry as `m_hash`. -/
def requestHash (request : Request) : String := getMessageKey X (.request request)

end Keys

/-- The slot and request hash that a message of one of the three phases is about. -/
structure Slot where
  view : UInt64
  number : UInt64
  mHash : String
deriving DecidableEq

def PrePrepare.slot (msg : PrePrepare) : Slot := ⟨msg.view, msg.number, msg.mHash⟩
def Prepare.slot (msg : Prepare) : Slot := ⟨msg.view, msg.number, msg.mHash⟩
def Commit.slot (msg : Commit) : Slot := ⟨msg.view, msg.number, msg.mHash⟩

/-- `from_peer_id` of the messages that are signed and counted; the others have none here. -/
def MessageType.sender : MessageType → Bytes
  | .prePrepare msg => msg.fromPeerId
  | .prepare msg => msg.fromPeerId
  | .commit msg => msg.fromPeerId
  | .reply msg => msg.fromPeerId
  | _ => []

/-- `signature` of the messages that are signed and counted. -/
def MessageType.signature : MessageType → Bytes
  | .prePrepare msg => msg.signature
  | .prepare msg => msg.signature
  | .commit msg => msg.signature
  | .reply msg => msg.signature
  | _ => []

/-- The messages that the thresholds of the protocol count. -/
inductive IsVote : MessageType → Prop
  | prepare (msg : Prepare) : IsVote (.prepare msg)
  | commit (msg : Commit) : IsVote (.commit msg)
  | reply (msg : Reply) : IsVote (.reply msg)

theorem phaseKeyBytes_inj {kind kind' : UInt8} {hash hash' : Bytes} {view view' number number' : UInt64}
    (h : phaseKeyBytes kind hash view number = phaseKeyBytes kind' hash' view' number') :
    kind = kind' ∧ view = view' ∧ number = number' ∧ hash = hash' := by
  obtain ⟨hkind, hrest⟩ := List.cons.inj h
  obtain ⟨hwords, hhash⟩ := List.append_inj hrest (by simp)
  obtain ⟨hview, hnumber⟩ := List.append_inj hwords (by simp)
  exact ⟨hkind, toBeBytes_injective hview, toBeBytes_injective hnumber, hhash⟩

section KeyInjectivity

variable {X : Externals} (hX : X.CollisionFree)
include hX

/-- Under a collision-free hash the key of a phase message determines kind and slot. -/
theorem phaseKey_inj {kind kind' : UInt8} (slot slot' : Slot)
    (h : X.getHashStr (phaseKeyBytes kind (asBytes slot.mHash) slot.view slot.number) =
      X.getHashStr (phaseKeyBytes kind' (asBytes slot'.mHash) slot'.view slot'.number)) :
    kind = kind' ∧ slot = slot' := by
  obtain ⟨hkind, hview, hnumber, hhash⟩ := phaseKeyBytes_inj (hX h)
  refine ⟨hkind, ?_⟩
  cases slot
  cases slot'
  simp_all [asBytes_injective.eq_iff]

theorem prepare_key_inj {msg msg' : Prepare}
    (h : getMessageKey X (.prepare msg) = getMessageKey X (.prepare msg')) : msg.slot = msg'.slot :=
  (phaseKey_inj hX msg.slot msg'.slot h).2

theorem commit_key_inj {msg msg' : Commit}
    (h : getMessageKey X (.commit msg) = getMessageKey X (.commit msg')) : msg.slot = msg'.slot :=
  (phaseKey_inj hX msg.slot msg'.slot h).2

theorem preprepare_key_ne_prepare (msg : PrePrepare) (msg' : Prepare) :
    getMessageKey X (.prePrepare msg) ≠ getMessageKey X (.prepare msg') := fun h ↦
  absurd (phaseKey_inj hX msg.slot msg'.slot h).1 (by decide)

theorem preprepare_key_ne_commit (msg : PrePrepare) (msg' : Commit) :
    getMessageKey X (.prePrepare msg) ≠ getMessageKey X (.commit msg') := fun h ↦
  absurd (phaseKey_inj hX msg.slot msg'.slot h).1 (by decide)

theorem prepare_key_ne_commit (msg : Prepare) (msg' : Commit) :
    getMessageKey X (.prepare msg) ≠ getMessageKey X (.commit msg') := fun h ↦
  absurd (phaseKey_inj hX msg.slot msg'.slot h).1 (by decide)

theorem reply_key_ne_prepare (msg : Reply) (msg' : Prepare) :
    getMessageKey X (.reply msg) ≠ getMessageKey X (.prepare msg') := fun h ↦
  absurd (List.cons.inj (hX h)).1 (by decide)

theorem reply_key_ne_commit (msg : Reply) (msg' : Commit) :
    getMessageKey X (.reply msg) ≠ getMessageKey X (.commit msg') := fun h ↦
  absurd (List.cons.inj (hX h)).1 (by decide)

theorem IsVote.eq_prepare {msg : MessageType} (h : IsVote msg)
    {prepare : Prepare} (hkey : getMessageKey X msg = getMessageKey X (.prepare prepare)) :
    ∃ prepare', msg = .prepare prepare' ∧ prepare'.slot = prepare.slot := by
  cases h with
  | prepare msg => exact ⟨msg, rfl, prepare_key_inj hX hkey⟩
  | commit msg => exact absurd hkey.symm (prepare_key_ne_commit hX prepare msg)
  | reply msg => exact absurd hkey (reply_key_ne_prepare hX msg prepare)

theorem IsVote.eq_commit {msg : MessageType} (h : IsVote msg)
    {commit : Commit} (hkey : getMessageKey X msg = getMessageKey X (.commit commit)) :
    ∃ commit', msg = .commit commit' ∧ commit'.slot = commit.slot := by
  cases h with
  | prepare msg => exact absurd hkey (prepare_key_ne_commit hX msg commit)
  | commit msg => exact ⟨msg, rfl, commit_key_inj hX hkey⟩
  | reply msg => exact absurd hkey (reply_key_ne_commit hX msg commit)

theorem IsVote.eq_reply {msg : MessageType} (h : IsVote msg)
    {reply : Reply} (hkey : getMessageKey X msg = getMessageKey X (.reply reply)) :
    ∃ reply', msg = .reply reply' ∧ getMessageKey X (.reply reply') = getMessageKey X (.reply reply) := by
  cases h with
  | prepare msg => exact absurd hkey.symm (reply_key_ne_prepare hX reply msg)
  | commit msg => exact absurd hkey.symm (reply_key_ne_commit hX reply msg)
  | reply msg => exact ⟨msg, rfl, hkey⟩

end KeyInjectivity

end BFTDiagnosis.Pbft
