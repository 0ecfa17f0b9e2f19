import BFTDiagnosis.Lib.JsonTree

/-!
# Field paths of a JSON object

`map_into_string_tree` of `utils/src/parse.rs`: the tree of the keys of an object, and the paths of the
fields that are no objects themselves. The kind of numbers in the object makes no difference.
-/

namespace BFTDiagnosis.Utils

/-- `Tree<String>` of the `trees` crate: a value and the subtrees in order. -/
inductive Tree where
  | node (value : String) (children : List Tree)

variable {ν : Type}

mutual

/-- The subtree of one entry and the paths that start with its key. -/
def entryIntoStringTree (key : String) : JsonValue ν → Tree × List (List String)
  | .object fields =>
    let (children, paths) := entriesIntoStringTrees fields
    (.node key children, paths.map (key :: ·))
  | _ => (.node key [], [[key]])

def entriesIntoStringTrees : List (String × JsonValue ν) → List Tree × List (List String)
  | [] => ([], [])
  | (key, value) :: rest =>
    let (tree, paths) := entryIntoStringTree key value
    let (trees, morePaths) := entriesIntoStringTrees rest
    (tree :: trees, paths ++ morePaths)

end

def mapIntoStringTree (rootValue : String) (map : List (String × JsonValue ν)) : Tree × List (List String) :=
  let (children, fieldSet) := entriesIntoStringTrees map
  (.node rootValue children, fieldSet)

theorem ne_nil_of_mem_entryIntoStringTree (key : String) (value : JsonValue ν) :
    ∀ path ∈ (entryIntoStringTree key value).2, path ≠ [] := by
  intro path hpath
  cases value with
  | object fields =>
    rw [entryIntoStringTree] at hpath
    obtain ⟨rest, -, rfl⟩ := List.mem_map.1 hpath
    exact List.cons_ne_nil _ _
  | null | bool | number | string | array =>
    obtain rfl := List.mem_singleton.1 hpath
    exact List.cons_ne_nil _ _

/-- Every path has the key of its entry. -/
theorem ne_nil_of_mem_mapIntoStringTree (rootValue : String) (map : List (String × JsonValue ν)) :
    ∀ path ∈ (mapIntoStringTree rootValue map).2, path ≠ [] := by
  unfold mapIntoStringTree
  induction map with
  | nil => exact List.forall_mem_nil _
  | cons entry rest ih =>
    obtain ⟨key, value⟩ := entry
    rw [entriesIntoStringTrees]
    exact List.forall_mem_append.2 ⟨ne_nil_of_mem_entryIntoStringTree key value, ih⟩

end BFTDiagnosis.Utils
