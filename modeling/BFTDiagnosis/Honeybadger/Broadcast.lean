import BFTDiagnosis.Lib.Run
import BFTDiagnosis.Honeybadger.Merkle
import BFTDiagnosis.Honeybadger.Network

/-!
# Reliable broadcast

The instance of one node, `Broadcast` in `broadcast.rs`. It keeps the proofs echoed for each proposer and
the root hash of the last Ready of each sender. `none` is a panic: of an `unwrap` on a proposer that was
not entered in the maps, or of an `expect` on shards that cannot be reconstructed.
-/

namespace BFTDiagnosis.Honeybadger

structure PeerSet where
  marks : HashMap String ℕ

namespace PeerSet

def new : PeerSet := ⟨∅⟩

def num (peers : PeerSet) : ℕ := peers.marks.len

def insert (peers : PeerSet) (id : String) : PeerSet := ⟨HashMap.insertNew peers.marks id peers.num⟩

end PeerSet

/-! ## Erasure coding -/

inductive Coding where
  | reedSolomon (dataShards parityShards : ℕ)
  | trivial (dataShards : ℕ)

namespace Coding

def new (dataShardNum parityShardNum : ℕ) : Coding :=
  if 0 < parityShardNum then reedSolomon dataShardNum parityShardNum else trivial dataShardNum

def dataShardCount : Coding → ℕ
  | reedSolomon dataShards _ => dataShards
  | trivial dataShards => dataShards

def reconstructShards (X : Externals) (shards : List (Option Bytes)) : Coding → Option (List (Option Bytes))
  | reedSolomon dataShards parityShards => X.reconstruct dataShards parityShards shards
  | trivial _ => if shards.all Option.isSome then some shards else none

end Coding

def readU32 (b0 b1 b2 b3 : UInt8) : ℕ := ((b0.toNat * 256 + b1.toNat) * 256 + b2.toNat) * 256 + b3.toNat

/-- A length and as many bytes; `none` if there is no length. -/
def readPayload : Bytes → Option Bytes
  | b0 :: b1 :: b2 :: b3 :: bytes => some (bytes.take (readU32 b0 b1 b2 b3))
  | _ => none

theorem readPayload_eq_none_iff {bytes : Bytes} : readPayload bytes = none ↔ bytes.length < 4 := by
  match bytes with
  | [] | [_] | [_, _] | [_, _, _] => simp [readPayload]
  | _ :: _ :: _ :: _ :: bytes => simp [readPayload]

/-- Insert into a map from indices to proofs, listed by increasing index. -/
def insertByIndex (proof : Proof) : List Proof → List Proof
  | [] => [proof]
  | other :: rest =>
    if proof.index < other.index then proof :: other :: rest
    else if proof.index = other.index then proof :: rest
    else other :: insertByIndex proof rest

/-! ## The instance -/

structure Broadcast where
  myId : String
  netinfo : Network
  peerSet : PeerSet
  coding : Coding
  readySent : HashMap String Bool
  canDecode : Finset Digest
  decided : Bool
  output : Bytes
  faultEstimate : ℕ
  echoSet : HashMap String (Finset Proof)
  readys : HashMap String Bytes

/-- A Ready of the instance of a proposer, as it is sent. -/
def readyMessage (source : String) (hash : Digest) : SubsetMessage :=
  ⟨source, .broadcast source (.ready source ⟨hash⟩)⟩

namespace Broadcast

variable (X : Externals)

/-- One entry for this node and for each connected node. -/
def initMap {ν : Type} (myId : String) (netinfo : Network) (value : ν) : HashMap String ν :=
  (X.nodes.order netinfo.connectedNodes.entrySet).foldl
    (fun initial node ↦ HashMap.insertNew initial node.2 value) ((∅ : HashMap String ν).insert myId value)

def new (myId : String) (netinfo : Network) : Broadcast where
  myId := myId
  netinfo := netinfo
  peerSet := PeerSet.new
  coding := Coding.new 2 2
  readySent := initMap X myId netinfo false
  canDecode := ∅
  decided := false
  output := []
  faultEstimate := netinfo.getFaultNum
  echoSet := initMap X myId netinfo ∅
  readys := ∅

/-- The number of proofs with the root hash. -/
def proofCount (proofs : Finset Proof) (hash : Digest) : ℕ :=
  (proofs.filter fun echo ↦ echo.rootHash = hash).card

def countEchos (b : Broadcast) (source : String) (hash : Digest) : Option ℕ := do
  let proofs ← b.echoSet.lookup source
  return proofCount proofs hash

def countReadys (b : Broadcast) (hash : Digest) : ℕ := b.readys.count fun h ↦ h == hash.bytes

def validateProof (b : Broadcast) (proof : Proof) : Bool := proof.validate X b.peerSet.num

def getOutput (b : Broadcast) : Option Bytes := if b.decided then some b.output else none

def handleValue (source : String) (proof : Proof) : List SubsetMessage :=
  [⟨source, .broadcast source (.echo source ⟨proof⟩)⟩]

/-- The tests for a repeated Echo and for a proof that does not validate have no body, so neither is
discarded. -/
def handleEcho (b : Broadcast) (source : String) (e : Echo) : Option (Broadcast × List SubsetMessage) := do
  let proofs ← b.echoSet.lookup source
  let hash := e.proof.rootHash
  let b := { b with echoSet := b.echoSet.insert source (insert e.proof proofs) }
  let count ← b.countEchos source hash
  let b := { b with
    canDecode := if count = b.faultEstimate + 1 then insert hash b.canDecode else b.canDecode }
  let sent ← b.readySent.lookup source
  let announce := sent = false ∧ count = 2 * b.faultEstimate + 1
  let b := { b with readySent := if announce then b.readySent.insert source true else b.readySent }
  return (b, if announce then [readyMessage source hash] else [])

/-- The value is in the first shards, after its length. -/
def decodeFromShards (b : Broadcast) (leafValues : List (Option Bytes)) : Option (Option Bytes) := do
  let leafValues ← b.coding.reconstructShards X leafValues
  let shards := leafValues.filterMap id
  let mtree ← MerkleTree.fromVec X shards
  return readPayload (mtree.values.take b.coding.dataShardCount).flatten

/-- The values of the proofs with the root hash, by increasing index. -/
def leafValues (proofs : Finset Proof) (hash : Digest) : List (Option Bytes) :=
  let finalSet := ((X.proofs.order proofs).filter fun echo ↦ echo.rootHash = hash).foldl
    (fun found echo ↦ insertByIndex echo found) []
  finalSet.map fun echo ↦ if echo.rootHash = hash then some echo.value else none

/-- The method `output`: restore the value from the proofs that have the root hash. -/
def outputValue (b : Broadcast) (source : String) (hash : Digest) : Option Broadcast := do
  let proofs ← b.echoSet.lookup source
  match ← b.decodeFromShards X (leafValues X proofs hash) with
  | some value => return { b with decided := true, output := value }
  | none => return b

def handleReady (b : Broadcast) (source sender : String) (ready : Ready) :
    Option (Broadcast × List SubsetMessage) := do
  let b := { b with readys := b.readys.insert sender ready.hash.bytes }
  let sent ← b.readySent.lookup source
  let announce := sent = false ∧ b.countReadys ready.hash = b.faultEstimate + 1
  let b := { b with readySent := if announce then b.readySent.insert source true else b.readySent }
  let b ← if b.countReadys ready.hash = 2 * b.faultEstimate + 1 ∧ ready.hash ∈ b.canDecode then
    b.outputValue X source ready.hash else some b
  return (b, if announce then [readyMessage source ready.hash] else [])

/-- What is sent comes with the value that the call returns. -/
def handleMessage (b : Broadcast) (source : String) (msg : RbcMessage) :
    Option (Broadcast × (List SubsetMessage × Option Bytes)) :=
  match msg with
  | .value id p => some (b, (handleValue id p, b.getOutput))
  | .echo id e => do
    let (b, out) ← b.handleEcho id e
    return (b, (out, b.getOutput))
  | .ready id ready => do
    let (b, out) ← b.handleReady X id source ready
    return (b, (out, b.getOutput))
  | _ => some (b, ([], b.getOutput))

/-! ## What the handlers do -/

/-- The Echo is the one that completes a quorum, and no Ready has been sent. -/
abbrev EchoAnnounces (b : Broadcast) (proof : Proof) (proofs : Finset Proof) (sent : Bool) : Prop :=
  sent = false ∧ proofCount (insert proof proofs) proof.rootHash = 2 * b.faultEstimate + 1

/-- The instance after an Echo. -/
def afterEcho (b : Broadcast) (source : String) (proof : Proof) (proofs : Finset Proof) (sent : Bool) : Broadcast :=
  { b with
    echoSet := b.echoSet.insert source (insert proof proofs)
    canDecode := if proofCount (insert proof proofs) proof.rootHash = b.faultEstimate + 1 then
      insert proof.rootHash b.canDecode else b.canDecode
    readySent := if b.EchoAnnounces proof proofs sent then b.readySent.insert source true else b.readySent }

theorem handleEcho_eq {b : Broadcast} {source : String} {proofs : Finset Proof} {sent : Bool}
    (hproofs : b.echoSet.lookup source = some proofs) (hsent : b.readySent.lookup source = some sent) (e : Echo) :
    b.handleEcho source e = some (b.afterEcho source e.proof proofs sent,
      if b.EchoAnnounces e.proof proofs sent then [readyMessage source e.proof.rootHash] else []) := by
  simp only [handleEcho, countEchos, hproofs, hsent, Finmap.lookup_insert, bind, pure, Option.bind_some]
  rfl

theorem handleEcho_eq_some_iff {b b' : Broadcast} {source : String} {e : Echo} {out : List SubsetMessage} :
    b.handleEcho source e = some (b', out) ↔
      ∃ proofs sent, b.echoSet.lookup source = some proofs ∧ b.readySent.lookup source = some sent ∧
        b' = b.afterEcho source e.proof proofs sent ∧
        out = if b.EchoAnnounces e.proof proofs sent then [readyMessage source e.proof.rootHash] else [] := by
  constructor
  · intro h
    cases hproofs : b.echoSet.lookup source with
    | none => simp [handleEcho, hproofs] at h
    | some proofs =>
      cases hsent : b.readySent.lookup source with
      | none => simp [handleEcho, countEchos, hproofs, hsent] at h
      | some sent =>
        rw [handleEcho_eq hproofs hsent] at h
        obtain ⟨rfl, rfl⟩ := Prod.mk.inj (Option.some.inj h)
        exact ⟨proofs, sent, rfl, rfl, rfl, rfl⟩
  · rintro ⟨proofs, sent, hproofs, hsent, rfl, rfl⟩
    exact handleEcho_eq hproofs hsent e

/-- The Ready is the one that shows that a correct node has sent one, and none has been sent here. -/
abbrev ReadyAnnounces (b : Broadcast) (sender : String) (hash : Digest) (sent : Bool) : Prop :=
  sent = false ∧ (b.readys.insert sender hash.bytes).count (fun h ↦ h == hash.bytes) = b.faultEstimate + 1

/-- The Ready is the one that completes a quorum, and the root hash can be decoded. -/
abbrev ReadyDelivers (b : Broadcast) (sender : String) (hash : Digest) : Prop :=
  (b.readys.insert sender hash.bytes).count (fun h ↦ h == hash.bytes) = 2 * b.faultEstimate + 1 ∧
    hash ∈ b.canDecode

/-- The instance after a Ready, before it restores the value. -/
def afterReady (b : Broadcast) (source sender : String) (hash : Digest) (sent : Bool) : Broadcast :=
  { b with
    readys := b.readys.insert sender hash.bytes
    readySent := if b.ReadyAnnounces sender hash sent then b.readySent.insert source true else b.readySent }

theorem handleReady_eq {b : Broadcast} {source : String} {sent : Bool}
    (hsent : b.readySent.lookup source = some sent) (sender : String) (ready : Ready) :
    b.handleReady X source sender ready =
      (if b.ReadyDelivers sender ready.hash then
        (b.afterReady source sender ready.hash sent).outputValue X source ready.hash
      else some (b.afterReady source sender ready.hash sent)).map fun b' ↦
        (b', if b.ReadyAnnounces sender ready.hash sent then [readyMessage source ready.hash] else []) := by
  simp only [handleReady, countReadys, hsent, bind, pure, Option.bind_some]
  by_cases hdeliver : b.ReadyDelivers sender ready.hash
  · rw [if_pos hdeliver, Option.map_eq_bind]
    exact if_pos hdeliver
  · rw [if_neg hdeliver]
    exact if_neg hdeliver

theorem handleReady_eq_some_iff {b b' : Broadcast} {source sender : String} {ready : Ready}
    {out : List SubsetMessage} :
    b.handleReady X source sender ready = some (b', out) ↔
      ∃ sent, b.readySent.lookup source = some sent ∧
        (if b.ReadyDelivers sender ready.hash then
          (b.afterReady source sender ready.hash sent).outputValue X source ready.hash
        else some (b.afterReady source sender ready.hash sent)) = some b' ∧
        out = if b.ReadyAnnounces sender ready.hash sent then [readyMessage source ready.hash] else [] := by
  cases hsent : b.readySent.lookup source with
  | none => simp [handleReady, hsent]
  | some sent =>
    rw [handleReady_eq X hsent, Option.map_eq_some_iff]
    constructor
    · rintro ⟨b'', hb'', hpair⟩
      obtain ⟨rfl, rfl⟩ := Prod.mk.inj hpair
      exact ⟨sent, rfl, hb'', rfl⟩
    · rintro ⟨sent', hsent', hb', rfl⟩
      obtain rfl := Option.some.inj hsent'
      exact ⟨b', hb', rfl⟩

/-- Restoring the value changes nothing but the value and whether there is one. -/
theorem outputValue_frame {b b' : Broadcast} {source : String} {hash : Digest}
    (h : b.outputValue X source hash = some b') :
    b' = { b with decided := b'.decided, output := b'.output } := by
  simp only [outputValue, bind, pure, Option.bind_eq_some_iff] at h
  obtain ⟨proofs, -, result, -, hresult⟩ := h
  cases result <;> cases hresult <;> rfl

end Broadcast

/-- A message of reliable broadcast and the node it comes from. -/
structure Delivery where
  source : String
  msg : RbcMessage
  deriving DecidableEq

/-- Messages sent by a step, and what it returns. -/
abbrev BroadcastOut := List SubsetMessage × Option Bytes

abbrev BroadcastRun := List (Transition Broadcast Delivery BroadcastOut)

def Broadcast.step (X : Externals) (b : Broadcast) (delivery : Delivery) : Option (Broadcast × BroadcastOut) :=
  b.handleMessage X delivery.source delivery.msg

/-- What one message can do to an instance. -/
inductive Broadcast.Stepped (X : Externals) (b : Broadcast) (delivery : Delivery) :
    Broadcast → List SubsetMessage → Prop
  | echo {id : String} {proof : Proof} {proofs : Finset Proof} {sent : Bool}
      (msg : delivery.msg = .echo id ⟨proof⟩) (stored : b.echoSet.lookup id = some proofs)
      (ready : b.readySent.lookup id = some sent) :
      Stepped X b delivery (b.afterEcho id proof proofs sent)
        (if b.EchoAnnounces proof proofs sent then [readyMessage id proof.rootHash] else [])
  | ready {id : String} {hash : Digest} {sent : Bool} {b' : Broadcast}
      (msg : delivery.msg = .ready id ⟨hash⟩) (ready : b.readySent.lookup id = some sent)
      (after : (if b.ReadyDelivers delivery.source hash then
          (b.afterReady id delivery.source hash sent).outputValue X id hash
        else some (b.afterReady id delivery.source hash sent)) = some b')
      (frame : b' = { b.afterReady id delivery.source hash sent with decided := b'.decided, output := b'.output }) :
      Stepped X b delivery b'
        (if b.ReadyAnnounces delivery.source hash sent then [readyMessage id hash] else [])
  | value {id : String} {proof : Proof} (msg : delivery.msg = .value id proof) :
      Stepped X b delivery b (handleValue id proof)
  | other (echo : ∀ id e, delivery.msg ≠ .echo id e) (ready : ∀ id r, delivery.msg ≠ .ready id r) :
      Stepped X b delivery b []

theorem Broadcast.step_cases {X : Externals} {b b' : Broadcast} {delivery : Delivery} {out : BroadcastOut}
    (h : step X b delivery = some (b', out)) : Stepped X b delivery b' out.1 ∧ out.2 = b'.getOutput := by
  obtain ⟨source, msg⟩ := delivery
  cases msg with
  | value id proof =>
    obtain ⟨rfl, rfl⟩ := Prod.mk.inj (Option.some.inj h)
    exact ⟨.value rfl, rfl⟩
  | echo id e =>
    simp only [step, handleMessage, bind, pure, Option.bind_eq_some_iff, Prod.exists,
      handleEcho_eq_some_iff] at h
    obtain ⟨_, _, ⟨proofs, sent, hstored, hready, rfl, rfl⟩, hresult⟩ := h
    obtain ⟨rfl, rfl⟩ := Prod.mk.inj (Option.some.inj hresult)
    exact ⟨.echo rfl hstored hready, rfl⟩
  | ready id r =>
    simp only [step, handleMessage, bind, pure, Option.bind_eq_some_iff, Prod.exists,
      handleReady_eq_some_iff] at h
    obtain ⟨_, _, ⟨sent, hready, hafter, rfl⟩, hresult⟩ := h
    obtain ⟨rfl, rfl⟩ := Prod.mk.inj (Option.some.inj hresult)
    refine ⟨.ready rfl hready hafter ?_, rfl⟩
    split at hafter
    · exact outputValue_frame X hafter
    · rw [← Option.some.inj hafter]
  | canDecode | complete | reply =>
    obtain ⟨rfl, rfl⟩ := Prod.mk.inj (Option.some.inj h)
    exact ⟨.other (by simp) (by simp), rfl⟩

end BFTDiagnosis.Honeybadger
