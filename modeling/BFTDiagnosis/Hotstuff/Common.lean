import Mathlib.Data.Fintype.Card
import Mathlib.Data.List.Nodup
import BFTDiagnosis.Utils.Platform
import BFTDiagnosis.Utils.ThresholdBlsttc

/-!
# What the HotStuff protocols have in common

Basic and chained HotStuff each have their own copy of the code that stores shares of votes, picks
the QC of the highest view and hands out keys. The copies agree, so they are one set of definitions
here. `Distribution` is one call of `distribute_keys`, with the facts about its keys that results
about several nodes rest on.
-/

namespace BFTDiagnosis.Hotstuff

open Components Utils Word

/-- The code outside the repository that both protocols call. -/
structure Externals extends Platform, Blsttc

structure ConsensusNodePKInfo where
  number : UInt64
  publicKey : Bytes
deriving DecidableEq

/-- The number of votes and of new views that a leader waits for, `2 * f + 1`. -/
def quorumSize (faultToleranceCount : UInt64) : Option UInt64 := do
  let double ← checkedMul 2 faultToleranceCount
  checkedAdd double 1

theorem toNat_of_quorumSize {f threshold : UInt64} (h : quorumSize f = some threshold) :
    threshold.toNat = 2 * f.toNat + 1 := by
  obtain ⟨double, hdouble, hthreshold⟩ := Option.bind_eq_some_iff.1 h
  have htwo : double.toNat = 2 * f.toNat := toNat_of_checkedMul hdouble
  have hone : threshold.toNat = double.toNat + 1 := toNat_of_checkedAdd hthreshold
  rw [hone, htwo]

/-- One turn of the loop of `get_high_qc_by_view`: a later QC replaces an earlier one only when its
view is greater. -/
def higherQC {κ : Type} (view : κ → UInt64) (highQC justify : Option κ) : Option κ :=
  match justify, highQC with
  | none, _ => highQC
  | some justify, none => some justify
  | some justify, some qc => if view qc < view justify then some justify else some qc

/-! ## Partial signatures -/

/-- The shares of votes, under the hash they sign and the number of the voter's key. -/
abbrev MessageSignatures := HashMap String (HashMap UInt64 Bytes)

/-- `get_partial_signatures_count_by_message_hash`. -/
def countSignatures (signatures : MessageSignatures) (msgHash : String) : ℕ :=
  match signatures.lookup msgHash with
  | some shares => shares.len
  | none => 0

theorem countSignatures_eq_len (signatures : MessageSignatures) (msgHash : String) :
    countSignatures signatures msgHash = (signatures.mapAt msgHash).len := by
  unfold countSignatures HashMap.mapAt
  cases signatures.lookup msgHash <;> rfl

/-! ## Keys -/

variable (X : Externals)

/-- One turn of the loop of `storage_consensus_node_pk`, which panics on an invalid peer id. -/
def storeNumber (nodes : HashMap UInt64 Bytes) (entry : Bytes × ConsensusNodePKInfo) :
    Option (HashMap UInt64 Bytes) :=
  (X.peerIdFromBytes entry.1).map fun _ ↦ nodes.insert entry.2.number entry.1

/-- What the loop of `distribute_keys` does with the key of a node: it is kept if it is the own one. -/
def storeOwnKey (peerId : String) (keypair : Option TBLSKey) (keyInfo : DistributeTBLSKey) :
    Option TBLSKey :=
  if X.peerIdString keyInfo.peerId = peerId then some keyInfo.tblsKey else keypair

def pkInfoOf (keyInfo : DistributeTBLSKey) : Bytes × ConsensusNodePKInfo :=
  (keyInfo.peerId, { number := keyInfo.number, publicKey := keyInfo.tblsKey.publicKey })

/-- One call of `distribute_keys`: the nodes in the order in which the map of nodes is visited, and
what the key set is generated from. -/
structure Distribution (ι : Type) where
  peerId : ι → PeerId
  peerId_injective : Function.Injective peerId
  nodes : List ι
  nodup : nodes.Nodup
  complete : ∀ i, i ∈ nodes
  fits : nodes.length ≤ 2 ^ 64
  faultCount : UInt64
  randomness : Bytes

namespace Distribution

variable {ι : Type}

section Keys

variable [DecidableEq ι] (D : Distribution ι)

def order : List (String × PeerId) := D.nodes.map fun i ↦ (X.peerIdString (D.peerId i), D.peerId i)

def keys : List DistributeTBLSKey := X.generateBlsKeys (D.order X) D.faultCount D.randomness

/-- The public keys that every node stores. -/
def registry : HashMap Bytes ConsensusNodePKInfo := .ofEntries ((D.keys X).map pkInfoOf)

/-- The number of a node's key. -/
def number (i : ι) : UInt64 := UInt64.ofNat (D.nodes.idxOf i)

/-- The key of a node. -/
def key (i : ι) : TBLSKey :=
  let skSet := X.random D.faultCount.toNat D.randomness
  { secretKey := X.secretKeyShare skSet (D.number i)
    publicKey := X.publicKeyShare (X.publicKeys skSet) (D.number i)
    commonPublicKey := X.publicKey (X.publicKeys skSet)
    pkSet := X.publicKeys skSet }

theorem mem_keys {keyInfo : DistributeTBLSKey} (h : keyInfo ∈ D.keys X) :
    ∃ i, keyInfo = { number := D.number i, peerId := D.peerId i, tblsKey := D.key X i } := by
  obtain ⟨k, hk, rfl⟩ := List.mem_iff_getElem.1 h
  have hlength : k < D.nodes.length := by
    simpa [keys, Blsttc.generateBlsKeys, Blsttc.generateKeypairSet, order] using hk
  have hnumber : D.number D.nodes[k] = UInt64.ofNat k := by
    rw [number, D.nodup.idxOf_getElem k hlength]
  refine ⟨D.nodes[k], ?_⟩
  simp only [keys, key, hnumber, Blsttc.generateBlsKeys, Blsttc.generateKeypairSet, order,
    List.getElem_zipWith, List.getElem_map, List.getElem_range]

/-- An entry of the registry is the key of a node under its number. -/
theorem of_lookup_registry {peer : Bytes} {pkInfo : ConsensusNodePKInfo}
    (h : (D.registry X).lookup peer = some pkInfo) :
    ∃ i, peer = D.peerId i ∧ pkInfo.number = D.number i ∧ pkInfo.publicKey = (D.key X i).publicKey := by
  obtain ⟨keyInfo, hmem, hentry⟩ := List.mem_map.1 (HashMap.mem_of_lookup_ofEntries h)
  obtain ⟨i, rfl⟩ := D.mem_keys X hmem
  obtain ⟨rfl, rfl⟩ := Prod.mk.inj hentry
  exact ⟨i, rfl, rfl, rfl⟩

end Keys

end Distribution

/-- The loop over the distributed keys keeps a key of the own id, if there is one. -/
theorem foldl_storeOwnKey {X : Externals} {peerId : String} (keys : List DistributeTBLSKey)
    (keypair : Option TBLSKey) :
    keys.foldl (storeOwnKey X peerId) keypair = keypair ∨
      ∃ keyInfo ∈ keys, X.peerIdString keyInfo.peerId = peerId ∧
        keys.foldl (storeOwnKey X peerId) keypair = some keyInfo.tblsKey := by
  induction keys generalizing keypair with
  | nil => exact .inl rfl
  | cons keyInfo rest ih =>
    rw [List.foldl_cons]
    rcases ih (storeOwnKey X peerId keypair keyInfo) with hsame | ⟨other, hother, hid, hkey⟩
    · by_cases hown : X.peerIdString keyInfo.peerId = peerId
      · rw [hsame, storeOwnKey, if_pos hown]
        exact .inr ⟨keyInfo, List.mem_cons_self, hown, rfl⟩
      · rw [hsame, storeOwnKey, if_neg hown]
        exact .inl rfl
    · exact .inr ⟨other, List.mem_cons_of_mem _ hother, hid, hkey⟩

/-! ## Four nodes -/

/-- Externals on which runs can be evaluated. -/
def Externals.transparent : Externals where
  toPlatform := Platform.transparent
  toBlsttc := Blsttc.transparent

/-- Four nodes that tolerate one fault. -/
def fourNodes : Distribution (Fin 4) where
  peerId i := [UInt8.ofNat (i + 1)]
  peerId_injective := fourPeers_injective
  nodes := [0, 1, 2, 3]
  nodup := by decide
  complete := by decide
  fits := by decide
  faultCount := 1
  randomness := [7]

/-- The keys of the four nodes, as one of them distributes them. -/
def fourKeys : List DistributeTBLSKey := fourNodes.keys .transparent

end BFTDiagnosis.Hotstuff
