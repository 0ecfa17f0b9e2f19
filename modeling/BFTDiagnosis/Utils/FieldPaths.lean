import BFTDiagnosis.Utils.Parse

/-!
# Field paths of any JSON object

What `map_into_string_tree` lists and `motify_map_value_with_field` of `utils/src/parse.rs` changes. The listed
paths are those to the values that are no objects, and a change at one of them leaves the others as they are.
-/

namespace BFTDiagnosis.Utils.Tree

def value : Tree → String
  | .node value _ => value

def children : Tree → List Tree
  | .node _ children => children

def labels (tree : Tree) : List String := tree.children.map value

/-- The subtree that a path of values leads to. -/
def subtreeAt : List String → Tree → Option Tree
  | [], tree => some tree
  | key :: rest, tree => (tree.children.find? fun child ↦ child.value == key).bind (subtreeAt rest)

end BFTDiagnosis.Utils.Tree

namespace BFTDiagnosis.JsonValue

open Utils

variable {ν : Type}

/-- The value that takes the place of a field. The sum with 99 is one of floating point numbers; `none` is one that
JSON has no number for. -/
def errorValue (add99 : ν → Option ν) : JsonValue ν → JsonValue ν
  | .null => .null
  | .bool value => .bool !value
  | .number n => ((add99 n).map number).getD .null
  | .string _ => .string "ErrorString"
  | .array _ => .array (["E", "R", "R", "O", "R"].map string)
  | .object fields => .object fields

/-- `none` is a panic: of a field without a key, of an `unwrap` on a key that is not in the map, or of a path
through a value that is no object. -/
def motifyMapValueWithField (add99 : ν → Option ν) (map : List (String × JsonValue ν)) :
    List String → Option (List (String × JsonValue ν))
  | [] => none
  | [f] => do
    let value ← map.lookup f
    return setEntry f (errorValue add99 value) map
  | f :: field => do
    let value ← map.lookup f
    match value with
    | .object nextMap =>
      let newMap ← motifyMapValueWithField add99 nextMap field
      return setEntry f (.object newMap) map
    | _ => none

/-! ## What is listed -/

theorem entriesIntoStringTrees_eq (fields : List (String × JsonValue ν)) :
    entriesIntoStringTrees fields =
      (fields.map fun entry ↦ (entryIntoStringTree entry.1 entry.2).1,
        fields.flatMap fun entry ↦ (entryIntoStringTree entry.1 entry.2).2) := by
  induction fields with
  | nil => rfl
  | cons entry rest ih =>
    obtain ⟨key, value⟩ := entry
    rw [entriesIntoStringTrees, ih]
    rfl

theorem entryIntoStringTree_of_isObject_eq_false (key : String) {value : JsonValue ν} (h : value.isObject = false) :
    entryIntoStringTree key value = (.node key [], [[key]]) := by
  cases value with
  | object fields => cases h
  | null | bool | number | string | array => rfl

/-- The paths of an entry are its key in front of the paths to the leaves of its value. -/
theorem mem_entryIntoStringTree {value : JsonValue ν} (h : value.uniqueKeys = true) (key : String)
    (path : List String) :
    path ∈ (entryIntoStringTree key value).2 ↔ ∃ rest, path = key :: rest ∧ LeafAt value rest := by
  induction value using objectInduction generalizing key path with
  | leaf value hvalue =>
    rw [entryIntoStringTree_of_isObject_eq_false key hvalue, List.mem_singleton]
    simp [leafAt_of_isObject_eq_false hvalue]
  | object fields ih =>
    obtain ⟨hnodup, hunique⟩ := uniqueKeys_object.1 h
    have hlisted (rest : List String) :
        rest ∈ (entriesIntoStringTrees fields).2 ↔ LeafAt (.object fields) rest := by
      rw [entriesIntoStringTrees_eq, List.mem_flatMap]
      constructor
      · rintro ⟨⟨key', child⟩, hentry, hrest⟩
        obtain ⟨others, rfl, hleaf⟩ := (ih _ hentry (hunique _ hentry) _ _).1 hrest
        exact leafAt_cons.2 ⟨child, (lookup_iff_mem hnodup).2 hentry, hleaf⟩
      · intro hleaf
        cases rest with
        | nil => exact absurd hleaf not_leafAt_nil
        | cons key' others =>
          obtain ⟨child, hchild, hend⟩ := leafAt_cons.1 hleaf
          have hentry := (lookup_iff_mem hnodup).1 hchild
          exact ⟨_, hentry, (ih _ hentry (hunique _ hentry) _ _).2 ⟨others, rfl, hend⟩⟩
    rw [entryIntoStringTree, List.mem_map]
    constructor
    · rintro ⟨rest, hrest, rfl⟩
      exact ⟨rest, rfl, (hlisted rest).1 hrest⟩
    · rintro ⟨rest, rfl, hleaf⟩
      exact ⟨rest, (hlisted rest).2 hleaf, rfl⟩

/-- The paths to the leaves are listed, and no others. -/
theorem mem_mapIntoStringTree {map : List (String × JsonValue ν)} (h : (object map).uniqueKeys = true)
    (rootValue : String) (path : List String) :
    path ∈ (mapIntoStringTree rootValue map).2 ↔ LeafAt (.object map) path := by
  have hentry := mem_entryIntoStringTree h rootValue (rootValue :: path)
  rw [entryIntoStringTree, List.mem_map_of_injective (List.cons_injective)] at hentry
  simpa [mapIntoStringTree] using hentry

/-- No path is listed twice. -/
theorem nodup_entryIntoStringTree {value : JsonValue ν} (h : value.uniqueKeys = true) (key : String) :
    (entryIntoStringTree key value).2.Nodup := by
  induction value using objectInduction generalizing key with
  | leaf value hvalue =>
    rw [entryIntoStringTree_of_isObject_eq_false key hvalue]
    exact List.nodup_singleton _
  | object fields ih =>
    obtain ⟨hnodup, hunique⟩ := uniqueKeys_object.1 h
    rw [entryIntoStringTree, entriesIntoStringTrees_eq]
    refine List.Nodup.map List.cons_injective (List.nodup_flatMap.2 ⟨fun entry hentry ↦ ?_, ?_⟩)
    · exact ih entry hentry (hunique entry hentry) entry.1
    · -- the paths of two entries start with different keys
      refine (List.pairwise_map.1 hnodup).imp_of_mem fun {first second} hfirst hsecond hne ↦ ?_
      intro path hpath hpath'
      obtain ⟨rest, rfl, -⟩ := (mem_entryIntoStringTree (hunique first hfirst) _ _).1 hpath
      obtain ⟨rest', hsame, -⟩ := (mem_entryIntoStringTree (hunique second hsecond) _ _).1 hpath'
      exact hne (List.cons.inj hsame).1

/-! ## The tree -/

theorem value_entryIntoStringTree (key : String) (value : JsonValue ν) :
    (entryIntoStringTree key value).1.value = key := by
  cases value <;> rfl

/-- Below the label stand the subtrees of the entries. -/
theorem children_entryIntoStringTree (key : String) (value : JsonValue ν) :
    (entryIntoStringTree key value).1.children =
      value.fields.map fun entry ↦ (entryIntoStringTree entry.1 entry.2).1 := by
  cases value with
  | object fields =>
    rw [entryIntoStringTree, entriesIntoStringTrees_eq]
    rfl
  | null | bool | number | string | array => rfl

theorem labels_entryIntoStringTree (key : String) (value : JsonValue ν) :
    (entryIntoStringTree key value).1.labels = value.keys := by
  rw [Tree.labels, children_entryIntoStringTree, List.map_map]
  exact List.map_congr_left fun entry _ ↦ value_entryIntoStringTree entry.1 entry.2

/-- A path leads through the tree as through the value. -/
theorem map_labels_subtreeAt (path : List String) (key : String) (value : JsonValue ν) :
    (Tree.subtreeAt path (entryIntoStringTree key value).1).map Tree.labels = (valueAt path value).map keys := by
  induction path generalizing key value with
  | nil => exact congrArg some (labels_entryIntoStringTree key value)
  | cons first rest ih =>
    rw [Tree.subtreeAt, valueAt, children_entryIntoStringTree]
    generalize value.fields = fields
    induction fields with
    | nil => rfl
    | cons entry fields ihFields =>
      obtain ⟨other, child⟩ := entry
      rw [List.map_cons, List.find?_cons, List.lookup_cons, value_entryIntoStringTree]
      by_cases hkey : first = other
      · subst hkey
        rw [beq_self_eq_true]
        exact ih first child
      · rw [beq_false_of_ne hkey, beq_false_of_ne (Ne.symm hkey)]
        exact ihFields

/-- The root label, and below it the keys of the map at every path. -/
def HasKeyStructure (tree : Tree) (rootValue : String) (map : List (String × JsonValue ν)) : Prop :=
  tree.value = rootValue ∧
    ∀ path, (tree.subtreeAt path).map Tree.labels = (valueAt path (.object map)).map keys

theorem hasKeyStructure_mapIntoStringTree (rootValue : String) (map : List (String × JsonValue ν)) :
    HasKeyStructure (mapIntoStringTree rootValue map).1 rootValue map :=
  ⟨rfl, fun path ↦ map_labels_subtreeAt path rootValue (.object map)⟩

/-- Exactly the leaves are listed, each once, beside the tree of the keys. What ends the tree without being listed
is an empty object. -/
theorem mapIntoStringTree_spec (rootValue : String) {map : List (String × JsonValue ν)}
    (h : (object map).uniqueKeys = true) :
    (mapIntoStringTree rootValue map).2.Nodup ∧
      (∀ path, path ∈ (mapIntoStringTree rootValue map).2 ↔ LeafAt (.object map) path) ∧
      HasKeyStructure (mapIntoStringTree rootValue map).1 rootValue map ∧
      ∀ path, ((mapIntoStringTree rootValue map).1.subtreeAt path).map Tree.labels = some [] →
        path ∉ (mapIntoStringTree rootValue map).2 → valueAt path (.object map) = some (.object []) := by
  have hlisted := mem_mapIntoStringTree h rootValue
  have hstructure := hasKeyStructure_mapIntoStringTree rootValue map
  refine ⟨?_, hlisted, hstructure, fun path hend hpath ↦ ?_⟩
  · exact List.Nodup.of_map _ (nodup_entryIntoStringTree h rootValue)
  · rw [hstructure.2, Option.map_eq_some_iff] at hend
    obtain ⟨value, hvalue, hkeys⟩ := hend
    cases hobject : value.isObject with
    | false => exact absurd ((hlisted path).2 ⟨value, hvalue, hobject⟩) hpath
    | true =>
      cases value with
      | object fields =>
        obtain rfl := List.map_eq_nil_iff.1 hkeys
        exact hvalue
      | null | bool | number | string | array => cases hobject

/-- A map with a key on two levels and an empty object. -/
def nestedMap : List (String × JsonValue ℤ) :=
  [("a", .object [("a", .number (-1)), ("b", .object [])]), ("b", .null), ("c", .array [.object []])]

theorem mapIntoStringTree_spec_nestedMap :
    (mapIntoStringTree "1" nestedMap).2.Nodup ∧
      (∀ path, path ∈ (mapIntoStringTree "1" nestedMap).2 ↔ LeafAt (.object nestedMap) path) ∧
      HasKeyStructure (mapIntoStringTree "1" nestedMap).1 "1" nestedMap ∧
      ∀ path, ((mapIntoStringTree "1" nestedMap).1.subtreeAt path).map Tree.labels = some [] →
        path ∉ (mapIntoStringTree "1" nestedMap).2 → valueAt path (.object nestedMap) = some (.object []) :=
  mapIntoStringTree_spec "1" (by decide)

/-! ## What is changed -/

section Change

variable (add99 : ν → Option ν)

theorem isObject_errorValue {value : JsonValue ν} (h : value.isObject = false) :
    (errorValue add99 value).isObject = false := by
  cases value with
  | object fields => cases h
  | number n => cases hsum : add99 n <;> simp [errorValue, hsum, isObject]
  | null | bool | string | array => rfl

/-- The recursion of the source changes the value at the end of a path. -/
theorem motifyMapValueWithField_eq_modifyAt (path : List String) (map : List (String × JsonValue ν)) :
    motifyMapValueWithField add99 map path = modifyAt (errorValue add99) path map := by
  induction path generalizing map with
  | nil => rfl
  | cons key rest ih =>
    cases rest with
    | nil =>
      rw [motifyMapValueWithField, modifyAt]
      cases map.lookup key <;> rfl
    | cons second rest =>
      unfold motifyMapValueWithField modifyAt
      cases hvalue : map.lookup key with
      | none => rfl
      | some value =>
        cases value with
        | object next =>
          simp only [bind, pure, Option.bind_some, ih]
          cases modifyAt (errorValue add99) (second :: rest) next <;> rfl
        | null | bool | number | string | array => rfl

/-- Trees and paths only depend on those of the entries. -/
theorem entriesIntoStringTrees_congr {fields fields' : List (String × JsonValue ν)}
    (h : (fields'.map fun entry ↦ entryIntoStringTree entry.1 entry.2) =
      fields.map fun entry ↦ entryIntoStringTree entry.1 entry.2) :
    entriesIntoStringTrees fields' = entriesIntoStringTrees fields := by
  have htrees := congrArg (List.map Prod.fst) h
  have hpaths := congrArg (List.flatMap Prod.snd) h
  rw [List.map_map, List.map_map] at htrees
  rw [List.flatMap_map, List.flatMap_map] at hpaths
  rw [entriesIntoStringTrees_eq, entriesIntoStringTrees_eq]
  exact Prod.ext htrees hpaths

/-- A change at a leaf keeps the paths, in the same order, and the tree. -/
theorem entriesIntoStringTrees_modifyAt {change : JsonValue ν → JsonValue ν}
    (hchange : ∀ value : JsonValue ν, value.isObject = false → (change value).isObject = false)
    {path : List String} {map map' : List (String × JsonValue ν)} (h : modifyAt change path map = some map')
    (hpath : LeafAt (.object map) path) : entriesIntoStringTrees map' = entriesIntoStringTrees map := by
  induction path generalizing map map' with
  | nil => exact absurd hpath not_leafAt_nil
  | cons key rest ih =>
    obtain ⟨child, hchild, hleaf⟩ := leafAt_cons.1 hpath
    apply entriesIntoStringTrees_congr
    cases rest with
    | nil =>
      obtain ⟨value, hvalue, rfl⟩ := Option.map_eq_some_iff.1 h
      obtain rfl := Option.some.inj (hvalue.symm.trans hchild)
      obtain ⟨leaf, hend, hobject⟩ := hleaf
      obtain rfl := Option.some.inj hend
      refine map_setEntry _ hvalue ?_
      rw [entryIntoStringTree_of_isObject_eq_false _ (hchange _ hobject),
        entryIntoStringTree_of_isObject_eq_false _ hobject]
    | cons second rest =>
      obtain ⟨next, next', hnext, hchanged, rfl⟩ := modifyAt_cons_cons h
      obtain rfl := Option.some.inj (hnext.symm.trans hchild)
      refine map_setEntry _ hnext ?_
      rw [entryIntoStringTree, entryIntoStringTree, ih hchanged hleaf]

/-- A listed field can be changed: it gets a value that is no object, the tree and the listed paths stay, and so do
the values at the other paths. -/
theorem motifyMapValueWithField_frame (rootValue : String) {map : List (String × JsonValue ν)}
    (h : (object map).uniqueKeys = true) {path : List String} (hpath : path ∈ (mapIntoStringTree rootValue map).2) :
    ∃ leaf map', valueAt path (.object map) = some leaf ∧ motifyMapValueWithField add99 map path = some map' ∧
      valueAt path (.object map') = some (errorValue add99 leaf) ∧ (errorValue add99 leaf).isObject = false ∧
      mapIntoStringTree rootValue map' = mapIntoStringTree rootValue map ∧
      ∀ other ∈ (mapIntoStringTree rootValue map).2, other ≠ path →
        valueAt other (.object map') = valueAt other (.object map) := by
  have hleafAt := (mem_mapIntoStringTree h rootValue path).1 hpath
  obtain ⟨leaf, hleaf, hobject⟩ := hleafAt
  obtain ⟨map', hmap'⟩ := Option.isSome_iff_exists.1 (isSome_modifyAt ⟨leaf, hleaf, hobject⟩)
  have hmotified := (motifyMapValueWithField_eq_modifyAt add99 path map).trans hmap'
  refine ⟨leaf, map', hleaf, hmotified, valueAt_modifyAt_self hmap' hleaf, isObject_errorValue add99 hobject, ?_,
    fun other hother hne ↦ ?_⟩
  · rw [mapIntoStringTree, mapIntoStringTree,
      entriesIntoStringTrees_modifyAt (fun _ ↦ isObject_errorValue add99) hmap' ⟨leaf, hleaf, hobject⟩]
  · exact valueAt_modifyAt_of_ne hmap' ⟨leaf, hleaf, hobject⟩ ((mem_mapIntoStringTree h rootValue other).1 hother) hne

theorem motifyMapValueWithField_frame_nestedMap :
    ∃ leaf map', valueAt ["a", "a"] (.object nestedMap) = some leaf ∧
      motifyMapValueWithField (fun n ↦ some (n + 99)) nestedMap ["a", "a"] = some map' ∧
      valueAt ["a", "a"] (.object map') = some (errorValue (fun n ↦ some (n + 99)) leaf) ∧
      (errorValue (fun n ↦ some (n + 99)) leaf).isObject = false ∧
      mapIntoStringTree "1" map' = mapIntoStringTree "1" nestedMap ∧
      ∀ other ∈ (mapIntoStringTree "1" nestedMap).2, other ≠ ["a", "a"] →
        valueAt other (.object map') = valueAt other (.object nestedMap) :=
  motifyMapValueWithField_frame _ "1" (by decide) (by decide)

end Change

end BFTDiagnosis.JsonValue
