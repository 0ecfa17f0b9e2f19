import Mathlib.Data.Set.Function
import BFTDiagnosis.Lib.Merkle
import BFTDiagnosis.Honeybadger.Message

/-!
# Merkle trees of shards

The tree that a proposer builds over its shards and the check of a proof. A proof that is checked for a
number of leaves is determined by its index and its root hash, as long as the hash function does not
collide on what was hashed.
-/

namespace BFTDiagnosis.Honeybadger

variable (X : Externals)

def hash (value : Bytes) : Digest := X.sha3 value

def hashPair (v0 v1 : Digest) : Digest := hash X (v0.bytes ++ v1.bytes)

/-- A level of the tree from the one below it; `hash_chunk` leaves a single digest as it is. -/
def nextLevel : List Digest → List Digest
  | [] => []
  | [digest] => [digest]
  | v0 :: v1 :: rest => hashPair X v0 v1 :: nextLevel rest

/-- No two of the inputs have one hash. -/
def Externals.NoCollision (inputs : List Bytes) : Prop := Set.InjOn X.sha3 {bytes | bytes ∈ inputs}

instance Externals.NoCollision.decidable (inputs : List Bytes) : Decidable (X.NoCollision inputs) :=
  inferInstanceAs (Decidable (∀ bytes ∈ inputs, ∀ bytes' ∈ inputs, _))

/-- Two digests put together can be told apart again. -/
theorem Digest.append_inj {left right left' right' : Digest}
    (h : left.bytes ++ right.bytes = left'.bytes ++ right'.bytes) : left = left' ∧ right = right' := by
  obtain ⟨left, hlength⟩ := left
  obtain ⟨left', hlength'⟩ := left'
  obtain ⟨right, _⟩ := right
  obtain ⟨right', _⟩ := right'
  obtain ⟨rfl, rfl⟩ := List.append_inj h (hlength.trans hlength'.symm)
  exact ⟨rfl, rfl⟩

structure MerkleTree where
  levels : List (List Digest)
  values : List Bytes
  rootHash : Digest

namespace MerkleTree

/-- The levels with more than one digest, and the last level. A level is shorter than the one below it, so
the length of the lowest one is enough fuel. -/
def climbLevels : ℕ → List Digest → List (List Digest) × List Digest
  | 0, level => ([], level)
  | fuel + 1, level =>
    if 1 < level.length then
      let (levels, top) := climbLevels fuel (nextLevel X level)
      (level :: levels, top)
    else ([], level)

/-- `none` is the panic on no values. -/
def fromVec (values : List Bytes) : Option MerkleTree := do
  let (levels, top) := climbLevels X values.length (values.map (hash X))
  let rootHash ← top.head?
  return { levels, values, rootHash }

/-- The neighbours of a position, from the lowest level up. -/
def siblings : List (List Digest) → ℕ → List Digest
  | [], _ => []
  | level :: levels, position => level[position ^^^ 1]?.toList ++ siblings levels (position / 2)

def proof (tree : MerkleTree) (index : ℕ) : Option Proof := do
  let value ← tree.values[index]?
  return { value, index, digests := siblings tree.levels index, rootHash := tree.rootHash }

end MerkleTree

/-- Climbing leaves at least one digest of a level that has one. -/
theorem nextLevel_ne_nil {level : List Digest} (h : level ≠ []) : nextLevel X level ≠ [] := by
  match level with
  | [] => exact absurd rfl h
  | [digest] => exact List.cons_ne_nil _ _
  | v0 :: v1 :: rest => exact List.cons_ne_nil _ _

theorem MerkleTree.climbLevels_ne_nil (fuel : ℕ) {level : List Digest} (h : level ≠ []) :
    (climbLevels X fuel level).2 ≠ [] := by
  induction fuel generalizing level with
  | zero => exact h
  | succ fuel ih =>
    unfold climbLevels
    split
    · exact ih (nextLevel_ne_nil X h)
    · exact h

/-- A tree is built over any values but none. -/
theorem MerkleTree.exists_fromVec {values : List Bytes} (h : values ≠ []) :
    ∃ tree, fromVec X values = some tree ∧ tree.values = values := by
  have hlevel : values.map (hash X) ≠ [] := by simpa using h
  have htop := climbLevels_ne_nil X values.length hlevel
  unfold fromVec
  cases hclimb : climbLevels X values.length (values.map (hash X)) with
  | mk levels top =>
    rw [hclimb] at htop
    obtain ⟨digest, rest, rfl⟩ := List.exists_cons_of_ne_nil htop
    exact ⟨⟨levels, values, digest⟩, rfl, rfl⟩

namespace Proof

/-- Climb from the value to the root of a tree over `n` values. -/
def validate (proof : Proof) (n : ℕ) : Bool :=
  Merkle.climb (hashPair X) n proof.index (hash X proof.value) proof.digests == some proof.rootHash

/-- What is hashed to check a proof. -/
def hashed (proof : Proof) (n : ℕ) : List Bytes :=
  proof.value :: (Merkle.climbPairs (hashPair X) n proof.index (hash X proof.value) proof.digests).map
    fun pair ↦ pair.1.bytes ++ pair.2.bytes

variable {X}

/-- There is one valid proof for an index and a root. -/
theorem eq_of_validate {n : ℕ} {proof proof' : Proof} (h : proof.validate X n = true)
    (h' : proof'.validate X n = true) (hindex : proof.index = proof'.index)
    (hroot : proof.rootHash = proof'.rootHash)
    (hfree : Set.InjOn X.sha3 {bytes | bytes ∈ proof.hashed X n ∨ bytes ∈ proof'.hashed X n}) :
    proof = proof' := by
  obtain ⟨value, index, digests, root⟩ := proof
  obtain ⟨value', index', digests', root'⟩ := proof'
  obtain rfl : index = index' := hindex
  obtain rfl : root = root' := hroot
  have hclimb := beq_iff_eq.1 h
  have hclimb' := beq_iff_eq.1 h'
  have hpath := Merkle.climb_inj hclimb hclimb' fun pair hpair pair' hpair' hsame ↦ by
    have hbytes := hfree (.inl (List.mem_cons_of_mem _ (List.mem_map_of_mem hpair)))
      (.inr (List.mem_cons_of_mem _ (List.mem_map_of_mem hpair'))) hsame
    obtain ⟨hleft, hright⟩ := Digest.append_inj hbytes
    exact Prod.ext hleft hright
  obtain rfl : value = value' := hfree (.inl List.mem_cons_self) (.inr List.mem_cons_self) hpath.1
  obtain rfl : digests = digests' := hpath.2
  rfl

end Proof

end BFTDiagnosis.Honeybadger
