import BFTDiagnosis.Lib.Wire
import BFTDiagnosis.Honeybadger.Echoes
import BFTDiagnosis.Honeybadger.MerkleProofs

/-!
# From a value to shards and back

A proposer puts the length in front of its value, fills it up and cuts it into shards, of which the last are
computed from the others. The shards that were echoed are put together in the order of their indices, with
nothing in the place of those that were not. The value comes back if no shard is missing.
-/

namespace BFTDiagnosis.Honeybadger

/-! ## Cutting a value into shards -/

/-- A number as four bytes, most significant first. -/
def writeU32 (n : ℕ) : Bytes :=
  [UInt8.ofNat (n / 256 ^ 3), UInt8.ofNat (n / 256 ^ 2), UInt8.ofNat (n / 256), UInt8.ofNat n]

/-- The length of a value, and the value. -/
def withLength (value : Bytes) : Bytes := writeU32 value.length ++ value

def resize (length : ℕ) (bytes : Bytes) : Bytes := bytes.take length ++ List.replicate (length - bytes.length) 0

variable (X : Externals) (encode : ℕ → ℕ → List Bytes → Option (List Bytes))

namespace Coding

def parityShardCount : Coding → ℕ
  | reedSolomon _ parityShards => parityShards
  | trivial _ => 0

/-- `encode` is `ReedSolomon::encode` with the numbers of data and parity shards; `none` is an error. -/
def encodeShards (shards : List Bytes) : Coding → Option (List Bytes)
  | reedSolomon dataShards parityShards => encode dataShards parityShards shards
  | trivial _ => some shards

def shardLen (coding : Coding) (value : Bytes) : ℕ :=
  ((withLength value).length + coding.dataShardCount - 1) / coding.dataShardCount

/-- The data shards of a value, and parity shards of zeros. -/
def inputShards (coding : Coding) (value : Bytes) : List Bytes :=
  Wire.chunks (coding.shardLen value)
    (resize (coding.shardLen value * (coding.dataShardCount + coding.parityShardCount)) (withLength value))

/-- The tree over the shards of a value. `none` is a panic: of the division by the number of data shards, or
of an `expect`. -/
def inputTree (coding : Coding) (value : Bytes) : Option MerkleTree := do
  if coding.dataShardCount = 0 then none
  let shards ← coding.encodeShards encode (coding.inputShards value)
  MerkleTree.fromVec X shards

end Coding

/-- What `handle_input` takes in place of its input. -/
def mockInput : Bytes := [12, 32, 0, 23, 32, 8, 12, 55]

/-- A shard of a proposer, as it is sent. -/
def valueMessage (myId : String) (proof : Proof) : SubsetMessage := ⟨myId, .broadcast myId (.value myId proof)⟩

/-- One shard for each node, in the order of a walk; the input is not used. -/
def Broadcast.handleInput (marks : Walk (String × ℕ)) (b : Broadcast) (_input : Bytes) :
    Option (List SubsetMessage) := do
  let mtree ← b.coding.inputTree X encode mockInput
  (marks.order b.peerSet.marks.entrySet).mapM fun mark ↦ do
    let proof ← mtree.proof mark.2
    return valueMessage b.myId proof

/-! ## What is sent -/

theorem mapM_eq_some_iff {α β : Type} {f : α → Option β} {list : List α} {results : List β} :
    list.mapM f = some results ↔ list.map f = results.map some := by
  induction list generalizing results with
  | nil =>
    rw [List.mapM_nil, List.map_nil]
    cases results <;> simp [pure]
  | cons first rest ih =>
    simp only [List.mapM_cons, bind, pure, Option.bind_eq_some_iff, Option.some.injEq, ih, List.map_cons]
    constructor
    · rintro ⟨result, hresult, others, hothers, rfl⟩
      rw [hresult, hothers, List.map_cons]
    · intro h
      cases results with
      | nil => cases h
      | cons result others =>
        obtain ⟨hresult, hothers⟩ := List.cons_eq_cons.1 h
        exact ⟨result, hresult, others, hothers, rfl⟩

/-- Each node is sent its proof of the tree over the shards. -/
theorem Broadcast.handleInput_eq_some_iff {marks : Walk (String × ℕ)} {b : Broadcast} {input : Bytes}
    {out : List SubsetMessage} : b.handleInput X encode marks input = some out ↔
      ∃ tree, b.coding.inputTree X encode mockInput = some tree ∧
        (marks.order b.peerSet.marks.entrySet).map (fun mark ↦ (tree.proof mark.2).map (valueMessage b.myId)) =
          out.map some := by
  simp only [handleInput, bind, pure, Option.bind_eq_some_iff, mapM_eq_some_iff, Option.map_eq_bind, Function.comp_def]

/-! ## The length -/

theorem readU32_writeU32 {n : ℕ} (h : n < 2 ^ 32) :
    readU32 (UInt8.ofNat (n / 256 ^ 3)) (UInt8.ofNat (n / 256 ^ 2)) (UInt8.ofNat (n / 256)) (UInt8.ofNat n) = n := by
  simp only [readU32, UInt8.toNat_ofNat']
  omega

/-- The value is read back from behind its length, whatever follows. -/
theorem readPayload_withLength_append {value : Bytes} (h : value.length < 2 ^ 32) (rest : Bytes) :
    readPayload (withLength value ++ rest) = some value := by
  have hread : readPayload (withLength value ++ rest) = some ((value ++ rest).take value.length) := by
    rw [withLength, writeU32]
    simp only [List.cons_append, List.nil_append, readPayload, readU32_writeU32 h]
  rw [hread, List.take_left']
  rfl

/-! ## The shards -/

@[simp] theorem length_resize (length : ℕ) (bytes : Bytes) : (resize length bytes).length = length := by
  rw [resize, List.length_append, List.length_take, List.length_replicate]
  omega

theorem take_resize {bytes : Bytes} {length longer : ℕ} (h : bytes.length ≤ length) (hlonger : length ≤ longer) :
    (resize longer bytes).take length = resize length bytes := by
  rw [resize, resize, List.take_of_length_le (h.trans hlonger), List.take_of_length_le h, List.take_append,
    List.take_of_length_le h, List.take_replicate]
  congr 2
  omega

namespace Coding

variable {X encode}

/-- Nothing is cut off by making room for the parity shards. -/
theorem length_withLength_le {coding : Coding} (hdata : 0 < coding.dataShardCount) (value : Bytes) :
    (withLength value).length ≤ coding.shardLen value * coding.dataShardCount := by
  have hmod := Nat.div_add_mod ((withLength value).length + coding.dataShardCount - 1) coding.dataShardCount
  have hlt := Nat.mod_lt ((withLength value).length + coding.dataShardCount - 1) hdata
  rw [Nat.mul_comm, Coding.shardLen]
  omega

theorem shardLen_pos {coding : Coding} (hdata : 0 < coding.dataShardCount) (value : Bytes) :
    0 < coding.shardLen value := by
  have hle := length_withLength_le hdata value
  have hfour : 0 < (withLength value).length := by simp [withLength, writeU32]
  exact Nat.pos_of_mul_pos_right (hfour.trans_le hle)

@[simp] theorem length_inputShards {coding : Coding} (hdata : 0 < coding.dataShardCount) (value : Bytes) :
    (coding.inputShards value).length = coding.dataShardCount + coding.parityShardCount :=
  Wire.length_chunks (shardLen_pos hdata value) (length_resize _ _)

/-- The data shards are the length and the value, and zeros. -/
theorem flatten_take_inputShards {coding : Coding} (hdata : 0 < coding.dataShardCount) (value : Bytes) :
    ((coding.inputShards value).take coding.dataShardCount).flatten =
      resize (coding.shardLen value * coding.dataShardCount) (withLength value) := by
  have hle := length_withLength_le hdata value
  have hmore : coding.shardLen value * coding.dataShardCount ≤
      coding.shardLen value * (coding.dataShardCount + coding.parityShardCount) :=
    Nat.mul_le_mul_left _ (Nat.le_add_right _ _)
  rw [inputShards, Wire.flatten_take_chunks (shardLen_pos hdata value) (length_resize _ _) (Nat.le_add_right _ _),
    take_resize hle hmore]

end Coding

/-- Encoding changes neither the number of shards nor those that hold the data. -/
def Systematic : Prop :=
  ∀ (data parity : ℕ) (pieces shards : List Bytes), encode data parity pieces = some shards →
    shards.length = pieces.length ∧ shards.take data = pieces.take data

namespace Coding

variable {X encode}

/-- A tree over the shards of a value has the value in its first leaves. -/
theorem of_inputTree_eq_some {coding : Coding} {value : Bytes} {tree : MerkleTree} (hencode : Systematic encode)
    (h : coding.inputTree X encode value = some tree) :
    0 < coding.dataShardCount ∧ tree.values.length = coding.dataShardCount + coding.parityShardCount ∧
      ∃ rest, (tree.values.take coding.dataShardCount).flatten = withLength value ++ rest := by
  by_cases hzero : coding.dataShardCount = 0
  · simp [inputTree, hzero] at h
  · have hdata := Nat.pos_of_ne_zero hzero
    simp only [inputTree, if_neg hzero, bind, Option.bind_eq_some_iff] at h
    obtain ⟨shards, hshards, htree⟩ := h
    have hkept : shards.length = (coding.inputShards value).length ∧
        shards.take coding.dataShardCount = (coding.inputShards value).take coding.dataShardCount := by
      cases coding with
      | reedSolomon data parity => exact hencode data parity _ _ hshards
      | trivial data =>
        obtain rfl := Option.some.inj hshards
        exact ⟨rfl, rfl⟩
    rw [(MerkleTree.eq_of_fromVec X htree).1, hkept.1, hkept.2, length_inputShards hdata,
      flatten_take_inputShards hdata, resize, List.take_of_length_le (length_withLength_le hdata value)]
    exact ⟨hdata, rfl, _, rfl⟩

end Coding

/-! ## The proofs that are put together -/

theorem insertByIndex_perm {proof : Proof} {list : List Proof} (h : ∀ other ∈ list, proof.index ≠ other.index) :
    (insertByIndex proof list).Perm (proof :: list) := by
  induction list with
  | nil => exact List.Perm.refl _
  | cons other rest ih =>
    unfold insertByIndex
    split
    · exact List.Perm.refl _
    · rw [if_neg (h other List.mem_cons_self)]
      have hrest := ih fun other hother ↦ h other (List.mem_cons_of_mem _ hother)
      exact (hrest.cons other).trans (List.Perm.swap proof other rest)

/-- Proofs with different indices all find a place. -/
theorem foldl_insertByIndex_perm {list found : List Proof} (h : ((list ++ found).map Proof.index).Nodup) :
    (list.foldl (fun found echo ↦ insertByIndex echo found) found).Perm (list ++ found) := by
  induction list generalizing found with
  | nil => exact List.Perm.refl _
  | cons proof rest ih =>
    rw [List.cons_append, List.map_cons, List.nodup_cons] at h
    have hnew : ∀ other ∈ found, proof.index ≠ other.index := fun other hother hindex ↦
      h.1 (hindex ▸ List.mem_map_of_mem (List.mem_append_right _ hother))
    have hperm : (rest ++ insertByIndex proof found).Perm (proof :: (rest ++ found)) :=
      ((insertByIndex_perm hnew).append_left rest).trans List.perm_middle
    have hnodup : ((rest ++ insertByIndex proof found).map Proof.index).Nodup := by
      rw [(hperm.map Proof.index).nodup_iff, List.map_cons, List.nodup_cons]
      exact h
    exact (ih hnodup).trans hperm

theorem mem_of_mem_insertByIndex {proof found : Proof} {list : List Proof} (h : found ∈ insertByIndex proof list) :
    found = proof ∨ found ∈ list := by
  induction list with
  | nil => exact .inl (List.mem_singleton.1 h)
  | cons other rest ih =>
    unfold insertByIndex at h
    split at h
    · exact List.mem_cons.1 h
    · split at h
      · exact (List.mem_cons.1 h).imp_right (List.mem_cons_of_mem other)
      · rcases List.mem_cons.1 h with rfl | h
        · exact .inr List.mem_cons_self
        · exact (ih h).imp_right (List.mem_cons_of_mem other)

/-- The map stays in the order of the indices. -/
theorem pairwise_insertByIndex {proof : Proof} {list : List Proof}
    (h : list.Pairwise fun a b ↦ a.index < b.index) :
    (insertByIndex proof list).Pairwise fun a b ↦ a.index < b.index := by
  induction list with
  | nil => exact List.pairwise_singleton _ _
  | cons other rest ih =>
    obtain ⟨hfirst, hrest⟩ := List.pairwise_cons.1 h
    unfold insertByIndex
    split
    case isTrue hlt =>
      refine List.pairwise_cons.2 ⟨fun found hfound ↦ ?_, h⟩
      rcases List.mem_cons.1 hfound with rfl | hfound
      · exact hlt
      · exact hlt.trans (hfirst found hfound)
    case isFalse hnot =>
      split
      case isTrue hsame => exact List.pairwise_cons.2 ⟨fun found hfound ↦ hsame ▸ hfirst found hfound, hrest⟩
      case isFalse hdifferent =>
        refine List.pairwise_cons.2 ⟨fun found hfound ↦ ?_, ih hrest⟩
        rcases mem_of_mem_insertByIndex hfound with rfl | hfound
        · omega
        · exact hfirst found hfound

theorem pairwise_foldl_insertByIndex (list : List Proof) {found : List Proof}
    (h : found.Pairwise fun a b ↦ a.index < b.index) :
    (list.foldl (fun found echo ↦ insertByIndex echo found) found).Pairwise fun a b ↦ a.index < b.index := by
  induction list generalizing found with
  | nil => exact h
  | cons proof rest ih => exact ih (pairwise_insertByIndex h)

/-- Proofs with one root hash and different indices are put in the order of their indices. -/
theorem exists_found {stored : Finset Proof} {root : Digest}
    (hindices : Set.InjOn Proof.index (stored.filter fun echo ↦ echo.rootHash = root)) :
    ∃ found : List Proof, (found : Multiset Proof) = (stored.filter fun echo ↦ echo.rootHash = root).val ∧
      (found.Pairwise fun a b ↦ a.index < b.index) ∧
      Broadcast.leafValues X stored root = found.map fun echo ↦ some echo.value := by
  generalize hechoes : (X.proofs.order stored).filter (fun echo ↦ decide (echo.rootHash = root)) = echoes
  have hval : (echoes : Multiset Proof) = (stored.filter fun echo ↦ echo.rootHash = root).val := by
    rw [← hechoes, Finset.filter_val, ← X.proofs.coe_order stored, Multiset.filter_coe]
  have hmem {echo : Proof} : echo ∈ echoes ↔ echo ∈ stored.filter fun echo ↦ echo.rootHash = root := by
    rw [← Multiset.mem_coe, hval, Finset.mem_val]
  have hnodup : ((echoes ++ []).map Proof.index).Nodup := by
    have hechoes : echoes.Nodup := by
      rw [← Multiset.coe_nodup, hval]
      exact Finset.nodup _
    rw [List.append_nil]
    exact hechoes.map_on fun echo hecho echo' hecho' ↦ hindices (hmem.1 hecho) (hmem.1 hecho')
  have hperm := foldl_insertByIndex_perm hnodup
  rw [List.append_nil] at hperm
  refine ⟨_, (Multiset.coe_eq_coe.2 hperm).trans hval, pairwise_foldl_insertByIndex echoes List.Pairwise.nil, ?_⟩
  rw [Broadcast.leafValues, hechoes]
  apply List.map_congr_left
  intro echo hecho
  exact if_pos (Finset.mem_filter.1 (hmem.1 (hperm.mem_iff.1 hecho))).2

/-- The proofs with the root hash of the tree are proofs of the tree. -/
def OfTree (tree : MerkleTree) (stored : Finset Proof) : Prop :=
  ∀ echo ∈ stored, echo.rootHash = tree.rootHash → tree.proof echo.index = some echo

instance OfTree.decidable (tree : MerkleTree) (stored : Finset Proof) : Decidable (OfTree tree stored) :=
  inferInstanceAs (Decidable (∀ echo ∈ stored, _))

/-- The leaves that are used are the values of the tree at the indices of the proofs, in order. -/
theorem leafValues_of_ofTree {tree : MerkleTree} {stored : Finset Proof} (h : OfTree tree stored) :
    ∃ indices : List ℕ, indices.Sublist (List.range tree.values.length) ∧
      indices.length = Broadcast.proofCount stored tree.rootHash ∧
      Broadcast.leafValues X stored tree.rootHash = indices.map fun index ↦ tree.values[index]? := by
  have howned {echo : Proof} (hecho : echo ∈ stored.filter fun echo ↦ echo.rootHash = tree.rootHash) :
      tree.proof echo.index = some echo :=
    h echo (Finset.mem_filter.1 hecho).1 (Finset.mem_filter.1 hecho).2
  obtain ⟨found, hfound, hsorted, hleaves⟩ := exists_found X fun echo hecho echo' hecho' hindex ↦ by
    have hsame := howned hecho
    rw [hindex, howned hecho'] at hsame
    exact (Option.some.inj hsame).symm
  have hvalue : ∀ echo ∈ found, tree.values[echo.index]? = some echo.value := by
    intro echo hecho
    rw [← Multiset.mem_coe, hfound, Finset.mem_val] at hecho
    obtain ⟨value, hvalue, heq⟩ := MerkleTree.proof_eq_some_iff.1 (howned hecho)
    have hsame : echo.value = value := congrArg Proof.value heq
    rw [hvalue, hsame]
  have hindices : (found.map Proof.index).Pairwise (· < ·) := List.pairwise_map.2 hsorted
  refine ⟨found.map Proof.index, ?_, ?_, ?_⟩
  · refine List.sublist_of_subperm_of_pairwise (List.subperm_of_subset hindices.nodup fun index hindex ↦ ?_) hindices
      List.pairwise_lt_range
    obtain ⟨echo, hecho, rfl⟩ := List.mem_map.1 hindex
    exact List.mem_range.2 (List.getElem?_eq_some_iff.1 (hvalue echo hecho)).1
  · rw [List.length_map, ← Multiset.coe_card, hfound]
    rfl
  · rw [hleaves, List.map_map]
    apply List.map_congr_left
    intro echo hecho
    exact (hvalue echo hecho).symm

variable {X}

/-! ## Restoring the value -/

/-- The shards that are kept, with nothing in the places of the others. -/
def survivors (kept : List Bool) (shards : List Bytes) : List (Option Bytes) :=
  kept.zipWith (fun keep shard ↦ if keep then some shard else none) shards

/-- How `ReedSolomon::reconstruct` treats shards that were encoded together: with an entry for each shard and
enough of them kept it restores all of them, and another number of entries is an error. -/
structure Externals.Restores (X : Externals) (data parity : ℕ) (shards : List Bytes) : Prop where
  restored (kept : List Bool) : kept.length = data + parity → data ≤ kept.count true →
    X.reconstruct data parity (survivors kept shards) = some (shards.map some)
  refused (entries : List (Option Bytes)) : entries.length ≠ data + parity → X.reconstruct data parity entries = none

def Coding.Restores (X : Externals) (shards : List Bytes) : Coding → Prop
  | reedSolomon dataShards parityShards => X.Restores dataShards parityShards shards
  | trivial _ => True

theorem survivors_replicate_true (shards : List Bytes) :
    survivors (List.replicate shards.length true) shards = shards.map some := by
  induction shards with
  | nil => rfl
  | cons shard rest ih => exact congrArg (some shard :: ·) ih

/-- Nothing has to be restored if no shard is missing. -/
theorem Coding.Restores.complete {coding : Coding} {shards : List Bytes} (h : coding.Restores X shards)
    (hlength : shards.length = coding.dataShardCount + coding.parityShardCount) :
    coding.reconstructShards X (shards.map some) = some (shards.map some) := by
  cases coding with
  | reedSolomon data parity =>
    have hall := h.restored (List.replicate shards.length true) (by rw [List.length_replicate, hlength]; rfl) (by
      rw [List.count_replicate_self, hlength]
      exact Nat.le_add_right _ _)
    rwa [survivors_replicate_true] at hall
  | trivial data =>
    have hall : (shards.map some).all Option.isSome = true := by simp
    exact if_pos hall

/-- As the shards that are missing have no entry, restoring them is an error. -/
theorem Coding.Restores.incomplete {coding : Coding} {shards : List Bytes} (h : coding.Restores X shards)
    {entries : List (Option Bytes)} (henough : coding.dataShardCount ≤ entries.length)
    (hmissing : entries.length < coding.dataShardCount + coding.parityShardCount) :
    coding.reconstructShards X entries = none := by
  cases coding with
  | reedSolomon data parity => exact h.refused entries hmissing.ne
  | trivial data => exact absurd hmissing (Nat.not_lt.2 henough)

theorem decodeFromShards_of_reconstruct {b : Broadcast} {leafValues : List (Option Bytes)} {pieces : List Bytes}
    (h : b.coding.reconstructShards X leafValues = some (pieces.map some)) (hne : pieces ≠ []) :
    b.decodeFromShards X leafValues = some (readPayload (pieces.take b.coding.dataShardCount).flatten) := by
  obtain ⟨tree, htree, hvalues⟩ := MerkleTree.exists_fromVec X hne
  have hshards : (pieces.map some).filterMap id = pieces := by
    rw [List.filterMap_map]
    exact List.filterMap_some
  simp only [Broadcast.decodeFromShards, h, bind, pure, Option.bind_some, hshards, htree, hvalues]

theorem map_getElem?_range {α : Type} (list : List α) :
    (List.range list.length).map (fun index ↦ list[index]?) = list.map some := by
  apply List.ext_getElem
  · rw [List.length_map, List.length_range, List.length_map]
  · intro index hindex hindex'
    rw [List.getElem_map, List.getElem_range, List.getElem_map]
    exact List.getElem?_eq_getElem _

namespace Broadcast

variable {encode}

/-- Decoding inverts encoding exactly if the proofs of all shards are stored. With fewer, but at least as many
as there are data shards, the node panics. -/
theorem outputValue_inputTree_iff {b : Broadcast} {payload : Bytes} {tree : MerkleTree} {source : String}
    {stored : Finset Proof} (hencode : Systematic encode) (hsize : payload.length < 2 ^ 32)
    (htree : b.coding.inputTree X encode payload = some tree) (hrestores : b.coding.Restores X tree.values)
    (hstored : b.echoSet.lookup source = some stored) (howned : OfTree tree stored)
    (henough : b.coding.dataShardCount ≤ proofCount stored tree.rootHash) :
    (b.outputValue X source tree.rootHash = some { b with decided := true, output := payload } ↔
      proofCount stored tree.rootHash = b.coding.dataShardCount + b.coding.parityShardCount) ∧
    (b.outputValue X source tree.rootHash = none ↔
      proofCount stored tree.rootHash < b.coding.dataShardCount + b.coding.parityShardCount) := by
  obtain ⟨hdata, hlength, rest, hfirst⟩ := Coding.of_inputTree_eq_some hencode htree
  obtain ⟨indices, hsublist, hcount, hleaves⟩ := leafValues_of_ofTree (X := X) howned
  have hle := hsublist.length_le
  rw [List.length_range, hcount, hlength] at hle
  rcases hle.lt_or_eq with hmissing | hall
  · have hreconstruct : b.coding.reconstructShards X (leafValues X stored tree.rootHash) = none := by
      apply hrestores.incomplete <;> rwa [hleaves, List.length_map, hcount]
    have hnone : b.outputValue X source tree.rootHash = none := by
      simp only [outputValue, hstored, decodeFromShards, hreconstruct, bind, Option.bind_some, Option.bind_none]
    rw [hnone]
    exact ⟨iff_of_false (by simp) hmissing.ne, iff_of_true rfl hmissing⟩
  · have hindices := hsublist.eq_of_length (by rw [List.length_range, hcount, hlength, hall])
    have hne : tree.values ≠ [] := List.ne_nil_of_length_pos (by omega)
    have hdecode := decodeFromShards_of_reconstruct (hrestores.complete hlength) hne
    rw [hfirst, readPayload_withLength_append hsize, ← map_getElem?_range, ← hindices, ← hleaves] at hdecode
    have hsome : b.outputValue X source tree.rootHash = some { b with decided := true, output := payload } := by
      simp only [outputValue, hstored, hdecode, bind, pure, Option.bind_some]
    rw [hsome]
    exact ⟨iff_of_true rfl hall, iff_of_false (by simp) hall.not_lt⟩

end Broadcast

/-! ## Two data and two parity shards -/

namespace Field8

/-- Twice a byte, in the field with 256 elements. -/
def double (x : UInt8) : UInt8 := if x < 128 then x <<< 1 else x <<< 1 ^^^ 0x1d

def triple (x : UInt8) : UInt8 := double x ^^^ x

/-- Doubling 255 times leaves a byte as it is, and so does tripling. -/
def half : UInt8 → UInt8 := Nat.iterate double 254

def third : UInt8 → UInt8 := Nat.iterate triple 254

end Field8

open Field8

/-- The one parity shard; the data shards the other way round give the other. -/
def parityShard (a b : Bytes) : Bytes := List.zipWith (fun x y ↦ triple x ^^^ double y) a b

def encodeTwo : ℕ → ℕ → List Bytes → Option (List Bytes)
  | 2, 2, [a, b, _, _] => some [a, b, parityShard a b, parityShard b a]
  | _, _, _ => none

/-- The data shards from any two of the four shards. -/
def solveTwo : List (Option Bytes) → Option (Bytes × Bytes)
  | [some a, some b, _, _] => some (a, b)
  | [some a, none, some p, _] => some (a, List.zipWith (fun x y ↦ half (y ^^^ triple x)) a p)
  | [some a, none, none, some q] => some (a, List.zipWith (fun x y ↦ third (y ^^^ double x)) a q)
  | [none, some b, some p, _] => some (List.zipWith (fun x y ↦ third (y ^^^ double x)) b p, b)
  | [none, some b, none, some q] => some (List.zipWith (fun x y ↦ half (y ^^^ triple x)) b q, b)
  | [none, none, some p, some q] => some (parityShard p q, parityShard q p)
  | _ => none

def reconstructTwo (data parity : ℕ) (entries : List (Option Bytes)) : Option (List (Option Bytes)) := do
  guard (data = 2 ∧ parity = 2 ∧ entries.length = data + parity ∧ SameSize (entries.filterMap id))
  -- entries of which none is missing are not compared with each other
  if entries.all Option.isSome then return entries
  let (a, b) ← solveTwo entries
  return [a, b, parityShard a b, parityShard b a].map some

def Externals.solving : Externals := { Externals.transparent with reconstruct := reconstructTwo }

def mockTree : MerkleTree := ((Coding.new 2 2).inputTree .solving encodeTwo mockInput).get (by decide +kernel)

theorem inputTree_mockInput : (Coding.new 2 2).inputTree .solving encodeTwo mockInput = some mockTree :=
  (Option.some_get _).symm

theorem systematic_encodeTwo : Systematic encodeTwo := by
  intro data parity pieces shards h
  unfold encodeTwo at h
  split at h
  · obtain rfl := Option.some.inj h
    exact ⟨rfl, rfl⟩
  · cases h

theorem restores_mockTree : (Coding.new 2 2).Restores .solving mockTree.values where
  restored kept hlength henough := by
    match kept, hlength with
    | [k0, k1, k2, k3], _ => revert k0 k1 k2 k3; decide +kernel
  refused entries hlength := by
    change reconstructTwo 2 2 entries = none
    simp [reconstructTwo, hlength]

def mockProofs : List Proof := (List.range 4).filterMap mockTree.proof

/-- An instance that has stored proofs. -/
def storing (proofs : List Proof) : Broadcast :=
  let b := Broadcast.withPeers .solving "a" fourNodes fourPeers
  { b with echoSet := b.echoSet.insert "a" proofs.toFinset }

theorem lookup_storing (proofs : List Proof) : (storing proofs).echoSet.lookup "a" = some proofs.toFinset :=
  Finmap.lookup_insert _

theorem outputValue_inputTree_iff_mockInput :
    (storing mockProofs).outputValue .solving "a" mockTree.rootHash =
        some { storing mockProofs with decided := true, output := mockInput } ∧
      (storing (mockProofs.take 3)).outputValue .solving "a" mockTree.rootHash = none := by
  have hall := Broadcast.outputValue_inputTree_iff (b := storing mockProofs) systematic_encodeTwo (by decide)
    inputTree_mockInput restores_mockTree (lookup_storing _) (by decide +kernel) (by decide +kernel)
  have hthree := Broadcast.outputValue_inputTree_iff (b := storing (mockProofs.take 3)) systematic_encodeTwo
    (by decide) inputTree_mockInput restores_mockTree (lookup_storing _) (by decide +kernel) (by decide +kernel)
  exact ⟨hall.1.2 (by decide +kernel), hthree.2.2 (by decide +kernel)⟩

/-- Three of the four proofs are more than there are data shards. -/
theorem not_outputValue_inputTree_threeProofs :
    ¬ ∀ (b : Broadcast) (payload : Bytes) (tree : MerkleTree) (source : String) (stored : Finset Proof),
      payload.length < 2 ^ 32 → b.coding.inputTree .solving encodeTwo payload = some tree →
      b.coding.Restores .solving tree.values → b.echoSet.lookup source = some stored → OfTree tree stored →
      b.coding.dataShardCount ≤ Broadcast.proofCount stored tree.rootHash →
      b.outputValue .solving source tree.rootHash = some { b with decided := true, output := payload } := by
  intro h
  have hvalue := h (storing (mockProofs.take 3)) mockInput mockTree "a" (mockProofs.take 3).toFinset (by decide)
    inputTree_mockInput restores_mockTree (lookup_storing _) (by decide +kernel) (by decide +kernel)
  have hpanic : ((storing (mockProofs.take 3)).outputValue .solving "a" mockTree.rootHash).isSome = false := by
    decide +kernel
  rw [hvalue] at hpanic
  cases hpanic

end BFTDiagnosis.Honeybadger
