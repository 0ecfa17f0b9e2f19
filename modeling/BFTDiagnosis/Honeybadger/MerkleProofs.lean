import BFTDiagnosis.Honeybadger.Merkle

/-!
# What a valid proof proves

The tree, the proof and the check each go up the levels with a rule of their own for the last node of an odd
level. They stay in step, so that every proof taken from a tree is valid. An index that is not below the
number of values has no neighbour on the way up, once it is large enough, and the check does not exclude it.
-/

namespace BFTDiagnosis.Honeybadger

variable (X : Externals)

/-! ## One level up -/

@[simp] theorem length_nextLevel (level : List Digest) : (nextLevel X level).length = (level.length + 1) / 2 := by
  fun_induction nextLevel X level with
  | case1 => rfl
  | case2 => simp
  | case3 v0 v1 rest ih =>
    rw [List.length_cons, List.length_cons, List.length_cons, ih]
    omega

namespace MerkleTree

/-- The digests of a level that are hashed together. -/
def pairsOf : List Digest → List (Digest × Digest)
  | v0 :: v1 :: rest => (v0, v1) :: pairsOf rest
  | _ => []

/-- Two neighbours are hashed together. -/
theorem getElem?_pairsOf {level : List Digest} {position : ℕ} {digest sibling : Digest}
    (h : level[position]? = some digest) (hsibling : level[position ^^^ 1]? = some sibling) :
    (pairsOf level)[position / 2]? = some (Merkle.pairAt position digest sibling) := by
  induction level using nextLevel.induct generalizing position with
  | case1 => cases h
  | case2 only =>
    -- one of the two positions is not the first
    cases position with
    | zero => cases hsibling
    | succ position => cases h
  | case3 v0 v1 rest ih =>
    match position with
    | 0 =>
      obtain rfl : v0 = digest := Option.some.inj h
      obtain rfl : v1 = sibling := Option.some.inj hsibling
      rfl
    | 1 =>
      obtain rfl : v1 = digest := Option.some.inj h
      obtain rfl : v0 = sibling := Option.some.inj hsibling
      rfl
    | position + 2 =>
      rw [Merkle.add_two_xor_one] at hsibling
      have hhalf : (position + 2) / 2 = position / 2 + 1 := by omega
      rw [Merkle.pairAt_add_two, hhalf]
      exact ih h hsibling

end MerkleTree

/-- The digest above two that are hashed together. -/
theorem getElem?_nextLevel_of_pairsOf {level : List Digest} {position : ℕ} {pair : Digest × Digest}
    (h : (MerkleTree.pairsOf level)[position]? = some pair) :
    (nextLevel X level)[position]? = some (hashPair X pair.1 pair.2) := by
  induction level using nextLevel.induct generalizing position with
  | case1 => cases h
  | case2 only => cases h
  | case3 v0 v1 rest ih =>
    cases position with
    | zero =>
      obtain rfl := Option.some.inj h
      rfl
    | succ position => exact ih h

/-- A digest without a neighbour moves up as it is. -/
theorem getElem?_nextLevel_of_last {level : List Digest} {position : ℕ} {digest : Digest}
    (h : level[position]? = some digest) (hlast : level.length ≤ position ^^^ 1) :
    (nextLevel X level)[position / 2]? = some digest := by
  induction level using nextLevel.induct generalizing position with
  | case1 => cases h
  | case2 only =>
    cases position with
    | zero => exact h
    | succ position => cases h
  | case3 v0 v1 rest ih =>
    match position with
    | 0 => exact absurd hlast (by simp)
    | 1 => exact absurd hlast (by simp)
    | position + 2 =>
      rw [Merkle.add_two_xor_one, List.length_cons, List.length_cons] at hlast
      have hhalf : (position + 2) / 2 = position / 2 + 1 := by omega
      rw [hhalf]
      exact ih h (by omega)

namespace MerkleTree

/-- The levels end with one digest, and the path that is taken from them leads to it. -/
theorem climb_siblings {fuel : ℕ} {level : List Digest} (hfuel : level.length ≤ fuel) {position : ℕ}
    {digest : Digest} (h : level[position]? = some digest) :
    ∃ root, (climbLevels X fuel level).2 = [root] ∧
      Merkle.climb (hashPair X) level.length position digest (siblings (climbLevels X fuel level).1 position) =
        some root := by
  have hposition : position < level.length := (List.getElem?_eq_some_iff.1 h).1
  induction fuel generalizing level position digest with
  | zero => exact absurd hposition (by omega)
  | succ fuel ih =>
    rw [Merkle.climb_eq]
    unfold climbLevels
    by_cases hcount : 1 < level.length
    · have hupper : (nextLevel X level).length ≤ fuel := by
        rw [length_nextLevel]
        omega
      have hhalf : position / 2 < (nextLevel X level).length := by
        rw [length_nextLevel]
        omega
      rw [if_pos hcount, if_pos hcount]
      by_cases hneighbour : position ^^^ 1 < level.length
      · have hsibling := List.getElem?_eq_getElem hneighbour
        obtain ⟨root, htop, hclimb⟩ := ih hupper (getElem?_nextLevel_of_pairsOf X (getElem?_pairsOf h hsibling)) hhalf
        rw [length_nextLevel] at hclimb
        refine ⟨root, htop, ?_⟩
        rw [if_pos hneighbour, siblings, hsibling]
        exact hclimb
      · have hlast : level.length ≤ position ^^^ 1 := Nat.le_of_not_lt hneighbour
        obtain ⟨root, htop, hclimb⟩ := ih hupper (getElem?_nextLevel_of_last X h hlast) hhalf
        rw [length_nextLevel] at hclimb
        refine ⟨root, htop, ?_⟩
        rw [if_neg hneighbour, siblings, List.getElem?_eq_none hlast]
        exact hclimb
    · -- one digest is left, and it is the root
      obtain ⟨root, rfl⟩ := List.length_eq_one_iff.1 (show level.length = 1 by omega)
      obtain rfl : position = 0 := by simpa using hposition
      obtain rfl : root = digest := Option.some.inj h
      exact ⟨root, rfl, rfl⟩

/-- What a tree is made of. -/
theorem eq_of_fromVec {values : List Bytes} {tree : MerkleTree} (h : fromVec X values = some tree) :
    tree.values = values ∧ tree.levels = (climbLevels X values.length (values.map (hash X))).1 ∧
      (climbLevels X values.length (values.map (hash X))).2.head? = some tree.rootHash := by
  simp only [fromVec, bind, pure, Option.bind_eq_some_iff] at h
  obtain ⟨root, hroot, htree⟩ := h
  obtain rfl := Option.some.inj htree
  exact ⟨rfl, rfl, hroot⟩

theorem proof_eq_some_iff {tree : MerkleTree} {index : ℕ} {proof : Proof} :
    tree.proof index = some proof ↔
      ∃ value, tree.values[index]? = some value ∧
        proof = ⟨value, index, siblings tree.levels index, tree.rootHash⟩ := by
  simp only [MerkleTree.proof, bind, pure, Option.bind_eq_some_iff, Option.some.injEq, eq_comm (a := proof)]

/-- A proof is valid for the tree it was taken from. -/
theorem validate_of_proof {values : List Bytes} {tree : MerkleTree} (h : fromVec X values = some tree)
    {index : ℕ} {proof : Proof} (hproof : tree.proof index = some proof) :
    proof.validate X values.length = true := by
  obtain ⟨hvalues, hlevels, hroot⟩ := eq_of_fromVec X h
  obtain ⟨value, hvalue, rfl⟩ := proof_eq_some_iff.1 hproof
  rw [hvalues] at hvalue
  have hleaf : (values.map (hash X))[index]? = some (hash X value) := by
    rw [List.getElem?_map, hvalue, Option.map_some]
  have hfuel : (values.map (hash X)).length ≤ values.length := by rw [List.length_map]
  obtain ⟨root, htop, hclimb⟩ := climb_siblings X hfuel hleaf
  rw [htop, List.head?_cons] at hroot
  rw [← hlevels, List.length_map, hroot] at hclimb
  exact beq_iff_eq.2 hclimb

/-- Completeness: a tree over any values proves each of them, and no index beyond them. -/
theorem proof_complete {values : List Bytes} (h : values ≠ []) :
    ∃ tree, fromVec X values = some tree ∧
      (∀ index value, values[index]? = some value →
        ∃ proof, tree.proof index = some proof ∧ proof.value = value ∧ proof.index = index ∧
          proof.rootHash = tree.rootHash ∧ proof.validate X values.length = true) ∧
      ∀ index, values.length ≤ index → tree.proof index = none := by
  obtain ⟨tree, htree, hvalues⟩ := exists_fromVec X h
  refine ⟨tree, htree, fun index value hvalue ↦ ?_, fun index hindex ↦ ?_⟩
  · rw [← hvalues] at hvalue
    have hproof := proof_eq_some_iff.2 ⟨value, hvalue, rfl⟩
    exact ⟨_, hproof, rfl, rfl, rfl, validate_of_proof X htree hproof⟩
  · rw [← hvalues] at hindex
    rw [MerkleTree.proof, List.getElem?_eq_none hindex]
    rfl

theorem proof_complete_oddLevels :
    ∃ tree, fromVec .transparent [[5], [6, 6], [7], [8], []] = some tree ∧
      (∀ index value, [[5], [6, 6], [7], [8], []][index]? = some value →
        ∃ proof, tree.proof index = some proof ∧ proof.value = value ∧ proof.index = index ∧
          proof.rootHash = tree.rootHash ∧ proof.validate .transparent 5 = true) ∧
      ∀ index, 5 ≤ index → tree.proof index = none :=
  proof_complete .transparent (List.cons_ne_nil _ _)

/-! ## What was hashed -/

/-- What is hashed to build the tree. -/
def hashed (tree : MerkleTree) : List Bytes :=
  tree.values ++ (tree.levels.flatMap pairsOf).map fun pair ↦ pair.1.bytes ++ pair.2.bytes

/-- The path that is taken from the levels only combines pairs of theirs. -/
theorem mem_pairsOf_of_mem_climbPairs {fuel : ℕ} {level : List Digest} (hfuel : level.length ≤ fuel)
    {position : ℕ} {digest : Digest} (h : level[position]? = some digest) {pair : Digest × Digest}
    (hpair : pair ∈ Merkle.climbPairs (hashPair X) level.length position digest
      (siblings (climbLevels X fuel level).1 position)) :
    pair ∈ (climbLevels X fuel level).1.flatMap pairsOf := by
  induction fuel generalizing level position digest with
  | zero =>
    obtain rfl : level = [] := List.length_eq_zero_iff.1 (by omega)
    cases h
  | succ fuel ih =>
    rw [Merkle.climbPairs_eq] at hpair
    unfold climbLevels at hpair ⊢
    by_cases hcount : 1 < level.length
    · have hupper : (nextLevel X level).length ≤ fuel := by
        rw [length_nextLevel]
        omega
      rw [if_pos hcount, if_pos hcount] at hpair
      rw [if_pos hcount, List.flatMap_cons, List.mem_append]
      by_cases hneighbour : position ^^^ 1 < level.length
      · have hsibling := List.getElem?_eq_getElem hneighbour
        rw [if_pos hneighbour, siblings, hsibling] at hpair
        rcases List.mem_cons.1 hpair with rfl | hpair
        · exact .inl (List.mem_of_getElem? (getElem?_pairsOf h hsibling))
        · have hnext := getElem?_nextLevel_of_pairsOf X (getElem?_pairsOf h hsibling)
          rw [← length_nextLevel X] at hpair
          exact .inr (ih hupper hnext hpair)
      · have hlast : level.length ≤ position ^^^ 1 := Nat.le_of_not_lt hneighbour
        have hnext := getElem?_nextLevel_of_last X h hlast
        rw [if_neg hneighbour, siblings, List.getElem?_eq_none hlast, ← length_nextLevel X] at hpair
        exact .inr (ih hupper hnext hpair)
    · rw [if_neg hcount] at hpair
      cases hpair

/-- Checking a proof of the tree hashes nothing that was not hashed to build the tree. -/
theorem hashed_subset_of_proof {values : List Bytes} {tree : MerkleTree} (h : fromVec X values = some tree)
    {index : ℕ} {proof : Proof} (hproof : tree.proof index = some proof) :
    proof.hashed X values.length ⊆ tree.hashed := by
  obtain ⟨hvalues, hlevels, -⟩ := eq_of_fromVec X h
  obtain ⟨value, hvalue, rfl⟩ := proof_eq_some_iff.1 hproof
  intro bytes hbytes
  rcases List.mem_cons.1 hbytes with rfl | hbytes
  · exact List.mem_append_left _ (List.mem_of_getElem? hvalue)
  · obtain ⟨pair, hpair, rfl⟩ := List.mem_map.1 hbytes
    rw [hvalues] at hvalue
    have hleaf : (values.map (hash X))[index]? = some (hash X value) := by
      rw [List.getElem?_map, hvalue, Option.map_some]
    have hlength : (values.map (hash X)).length = values.length := List.length_map _
    rw [← hlength, hlevels] at hpair
    have hmem := mem_pairsOf_of_mem_climbPairs X hlength.le hleaf hpair
    rw [← hlevels] at hmem
    exact List.mem_append_right _ (List.mem_map_of_mem hmem)

/-! ## Proofs that were not taken from the tree -/

theorem forall_mem_nextLevel_hash {level : List Digest} (h : ∀ digest ∈ level, ∃ value, hash X value = digest) :
    ∀ digest ∈ nextLevel X level, ∃ value, hash X value = digest := by
  induction level using nextLevel.induct with
  | case1 => exact h
  | case2 only => exact h
  | case3 v0 v1 rest ih =>
    intro digest hdigest
    rcases List.mem_cons.1 hdigest with rfl | hdigest
    · exact ⟨v0.bytes ++ v1.bytes, rfl⟩
    · exact ih (fun digest hdigest ↦ h digest (List.mem_cons_of_mem _ (List.mem_cons_of_mem _ hdigest))) digest hdigest

theorem forall_mem_climbLevels_hash (fuel : ℕ) {level : List Digest}
    (h : ∀ digest ∈ level, ∃ value, hash X value = digest) :
    ∀ digest ∈ (climbLevels X fuel level).2, ∃ value, hash X value = digest := by
  induction fuel generalizing level with
  | zero => exact h
  | succ fuel ih =>
    unfold climbLevels
    split
    · exact ih (forall_mem_nextLevel_hash X h)
    · exact h

/-- The root is the hash of some bytes: of a value or of two digests put together. -/
theorem exists_hash_eq_rootHash {values : List Bytes} {tree : MerkleTree} (h : fromVec X values = some tree) :
    ∃ value, hash X value = tree.rootHash := by
  obtain ⟨-, -, hroot⟩ := eq_of_fromVec X h
  have hleaves : ∀ digest ∈ values.map (hash X), ∃ value, hash X value = digest := by
    intro digest hdigest
    obtain ⟨value, -, rfl⟩ := List.mem_map.1 hdigest
    exact ⟨value, rfl⟩
  exact forall_mem_climbLevels_hash X values.length hleaves _ (List.mem_of_mem_head? hroot)

/-- Beyond a full tree an index has no neighbour on any level, so what was hashed to the root passes as the
value. -/
theorem exists_validate_of_pow_le {values : List Bytes} {tree : MerkleTree} (h : fromVec X values = some tree)
    {height index : ℕ} (hheight : values.length ≤ 2 ^ height) (hindex : 2 ^ height ≤ index) :
    ∃ proof : Proof, proof.index = index ∧ proof.rootHash = tree.rootHash ∧
      proof.validate X values.length = true := by
  obtain ⟨value, hvalue⟩ := exists_hash_eq_rootHash X h
  refine ⟨⟨value, index, [], tree.rootHash⟩, rfl, rfl, beq_iff_eq.2 ?_⟩
  rw [← hvalue]
  exact Merkle.climb_of_pow_le (hashPair X) hheight hindex (hash X value)

/-- A valid proof with an index of the tree proves the value at the index. -/
theorem getElem?_of_validate {values : List Bytes} {tree : MerkleTree} (h : fromVec X values = some tree)
    {proof : Proof} (hroot : proof.rootHash = tree.rootHash) (hvalid : proof.validate X values.length = true)
    (hfree : X.NoCollision (tree.hashed ++ proof.hashed X values.length)) (hindex : proof.index < values.length) :
    values[proof.index]? = some proof.value := by
  obtain ⟨hvalues, -, -⟩ := eq_of_fromVec X h
  obtain ⟨value, hvalue⟩ : ∃ value, values[proof.index]? = some value := ⟨_, List.getElem?_eq_getElem hindex⟩
  have hproof := proof_eq_some_iff.2 ⟨value, hvalues ▸ hvalue, rfl⟩
  have hown := hashed_subset_of_proof X h hproof
  have heq := Proof.eq_of_validate hvalid (validate_of_proof X h hproof) rfl hroot <| hfree.mono <| by
    rintro bytes (hbytes | hbytes)
    · exact List.mem_append_right _ hbytes
    · exact List.mem_append_left _ (hown hbytes)
  rw [hvalue, heq]

/-- Soundness: a valid proof for the root of a tree proves the value at its index exactly if the index is one
of the tree. For every index beyond a full tree there is a valid proof of something else. -/
theorem proof_sound_iff_index_lt {values : List Bytes} {tree : MerkleTree} (h : fromVec X values = some tree) :
    (∀ proof : Proof, proof.rootHash = tree.rootHash → proof.validate X values.length = true →
      X.NoCollision (tree.hashed ++ proof.hashed X values.length) →
      (values[proof.index]? = some proof.value ↔ proof.index < values.length)) ∧
    ∀ height index, values.length ≤ 2 ^ height → 2 ^ height ≤ index →
      ∃ proof : Proof, proof.index = index ∧ proof.rootHash = tree.rootHash ∧
        proof.validate X values.length = true := by
  refine ⟨fun proof hroot hvalid hfree ↦ ⟨fun hvalue ↦ ?_, fun hindex ↦ ?_⟩, fun height index hheight hindex ↦ ?_⟩
  · exact (List.getElem?_eq_some_iff.1 hvalue).1
  · exact getElem?_of_validate X h hroot hvalid hfree hindex
  · exact exists_validate_of_pow_le X h hheight hindex

/-! A tree over four shards. -/

def fourShards : List Bytes := [[0, 1], [0, 2], [0, 3], [0, 4]]

def fourTree : MerkleTree := (fromVec .transparent fourShards).get (by decide +kernel)

theorem fromVec_fourShards : fromVec .transparent fourShards = some fourTree := (Option.some_get _).symm

theorem proof_sound_iff_index_lt_fourShards :
    (∀ proof : Proof, proof.rootHash = fourTree.rootHash → proof.validate .transparent 4 = true →
      Externals.transparent.NoCollision (fourTree.hashed ++ proof.hashed .transparent 4) →
      (fourShards[proof.index]? = some proof.value ↔ proof.index < 4)) ∧
    ∀ height index, 4 ≤ 2 ^ height → 2 ^ height ≤ index →
      ∃ proof : Proof, proof.index = index ∧ proof.rootHash = fourTree.rootHash ∧
        proof.validate .transparent 4 = true :=
  proof_sound_iff_index_lt .transparent fromVec_fourShards

/-- The two digests below the root, as a value. -/
def innerProof : Proof where
  value := (fourTree.levels.flatten.drop 4).flatMap Digest.bytes
  index := 4
  digests := []
  rootHash := fourTree.rootHash

theorem not_proof_sound_innerProof :
    ¬ ∀ (values : List Bytes) (tree : MerkleTree) (proof : Proof), fromVec .transparent values = some tree →
      proof.rootHash = tree.rootHash → proof.validate .transparent values.length = true →
      Externals.transparent.NoCollision (tree.hashed ++ proof.hashed .transparent values.length) →
      proof.index < values.length ∧ values[proof.index]? = some proof.value := by
  intro h
  have hsound := h fourShards fourTree innerProof fromVec_fourShards rfl (by decide +kernel) (by decide +kernel)
  exact absurd hsound.1 (by decide +kernel)

end MerkleTree

end BFTDiagnosis.Honeybadger
