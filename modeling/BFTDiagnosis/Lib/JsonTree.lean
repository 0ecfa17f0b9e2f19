import Mathlib.Data.List.Nodup
import Mathlib.Tactic.Common
import BFTDiagnosis.Lib.Json

/-!
# Paths through JSON values

A JSON value over any kind of numbers, with the entries of an object in the order in which they are visited. A
path is a list of keys and leads through objects; its end may be changed, which leaves the values at the ends of
all other paths as they are.

The last section takes the values with natural numbers, which have a text, for such values.
-/

namespace BFTDiagnosis

inductive JsonValue (ν : Type) where
  | null
  | bool (value : Bool)
  | number (value : ν)
  | string (value : String)
  | array (values : List (JsonValue ν))
  | object (fields : List (String × JsonValue ν))

namespace JsonValue

variable {ν : Type}

def isObject : JsonValue ν → Bool
  | .object _ => true
  | _ => false

/-- The entries of an object; other values have none. -/
def fields : JsonValue ν → List (String × JsonValue ν)
  | .object fields => fields
  | _ => []

def keys (value : JsonValue ν) : List String := value.fields.map Prod.fst

mutual

/-- Every object in the value has one entry for each key. -/
def uniqueKeys : JsonValue ν → Bool
  | .object fields => decide (fields.map Prod.fst).Nodup && uniqueKeysEach fields
  | _ => true

def uniqueKeysEach : List (String × JsonValue ν) → Bool
  | [] => true
  | (_, value) :: rest => value.uniqueKeys && uniqueKeysEach rest

end

/-- The value that a path leads to. -/
def valueAt : List String → JsonValue ν → Option (JsonValue ν)
  | [], value => some value
  | key :: rest, value => (value.fields.lookup key).bind (valueAt rest)

/-- A path to a value that is no object. -/
def LeafAt (value : JsonValue ν) (path : List String) : Prop :=
  ∃ leaf, valueAt path value = some leaf ∧ leaf.isObject = false

mutual

/-- Induction over the nesting of objects. -/
theorem objectInduction {P : JsonValue ν → Prop}
    (object : ∀ fields, (∀ entry ∈ fields, P entry.2) → P (.object fields))
    (leaf : ∀ value, value.isObject = false → P value) : ∀ value, P value
  | .object fields => object fields (objectInductionEach object leaf fields)
  | .null => leaf _ rfl
  | .bool _ => leaf _ rfl
  | .number _ => leaf _ rfl
  | .string _ => leaf _ rfl
  | .array _ => leaf _ rfl

theorem objectInductionEach {P : JsonValue ν → Prop}
    (object : ∀ fields, (∀ entry ∈ fields, P entry.2) → P (.object fields))
    (leaf : ∀ value, value.isObject = false → P value) :
    ∀ fields : List (String × JsonValue ν), ∀ entry ∈ fields, P entry.2
  | [] => List.forall_mem_nil _
  | (_, value) :: rest =>
    List.forall_mem_cons.2 ⟨objectInduction object leaf value, objectInductionEach object leaf rest⟩

end

theorem fields_of_isObject_eq_false {value : JsonValue ν} (h : value.isObject = false) : value.fields = [] := by
  cases value with
  | object fields => cases h
  | null | bool | number | string | array => rfl

theorem uniqueKeysEach_iff {fields : List (String × JsonValue ν)} :
    uniqueKeysEach fields = true ↔ ∀ entry ∈ fields, entry.2.uniqueKeys = true := by
  induction fields with
  | nil => exact iff_of_true rfl (List.forall_mem_nil _)
  | cons entry rest ih =>
    obtain ⟨key, value⟩ := entry
    rw [uniqueKeysEach, Bool.and_eq_true, ih, List.forall_mem_cons]

theorem uniqueKeys_object {fields : List (String × JsonValue ν)} :
    (object fields).uniqueKeys = true ↔
      (fields.map Prod.fst).Nodup ∧ ∀ entry ∈ fields, entry.2.uniqueKeys = true := by
  rw [uniqueKeys, Bool.and_eq_true, decide_eq_true_eq, uniqueKeysEach_iff]

/-- With one entry for each key, the entry that is looked up is the one that is there. -/
theorem lookup_iff_mem {fields : List (String × JsonValue ν)} (h : (fields.map Prod.fst).Nodup) {key : String}
    {value : JsonValue ν} : fields.lookup key = some value ↔ (key, value) ∈ fields := by
  induction fields with
  | nil => simp
  | cons entry rest ih =>
    obtain ⟨other, first⟩ := entry
    rw [List.map_cons, List.nodup_cons] at h
    rw [List.lookup_cons, List.mem_cons, Prod.mk.injEq]
    by_cases hkey : key = other
    · subst hkey
      have hrest : (key, value) ∉ rest := fun hmem ↦ h.1 (List.mem_map.2 ⟨_, hmem, rfl⟩)
      simp [hrest, eq_comm]
    · rw [beq_false_of_ne hkey, ih h.2]
      simp [hkey]

/-! ## Leaves -/

theorem not_leafAt_nil {fields : List (String × JsonValue ν)} : ¬ LeafAt (object fields) [] := by
  rintro ⟨leaf, hleaf, hobject⟩
  cases hleaf
  cases hobject

/-- The leaves of an object are those of its entries. -/
theorem leafAt_cons {value : JsonValue ν} {key : String} {rest : List String} :
    LeafAt value (key :: rest) ↔ ∃ child, value.fields.lookup key = some child ∧ LeafAt child rest := by
  simp only [LeafAt, valueAt, Option.bind_eq_some_iff]
  constructor
  · rintro ⟨leaf, ⟨child, hchild, hvalue⟩, hleaf⟩
    exact ⟨child, hchild, leaf, hvalue, hleaf⟩
  · rintro ⟨child, hchild, leaf, hvalue, hleaf⟩
    exact ⟨leaf, ⟨child, hchild, hvalue⟩, hleaf⟩

/-- A value that is no object is its only leaf. -/
theorem leafAt_of_isObject_eq_false {value : JsonValue ν} (h : value.isObject = false) {path : List String} :
    LeafAt value path ↔ path = [] := by
  cases path with
  | nil => exact iff_of_true ⟨value, rfl, h⟩ rfl
  | cons key rest => simp [leafAt_cons, fields_of_isObject_eq_false h]

/-! ## Changing the end of a path -/

/-- Set the entry of a key. It keeps its place where there is one. -/
def setEntry (key : String) (value : JsonValue ν) : List (String × JsonValue ν) → List (String × JsonValue ν)
  | [] => [(key, value)]
  | (other, old) :: rest =>
    if other = key then (key, value) :: rest else (other, old) :: setEntry key value rest

theorem lookup_setEntry_self (key : String) (value : JsonValue ν) (fields : List (String × JsonValue ν)) :
    (setEntry key value fields).lookup key = some value := by
  induction fields with
  | nil => simp [setEntry]
  | cons entry rest ih =>
    obtain ⟨other, old⟩ := entry
    unfold setEntry
    split
    case isTrue => exact List.lookup_cons_self
    case isFalse h => rw [List.lookup_cons, beq_false_of_ne (Ne.symm h), ih]

theorem lookup_setEntry_of_ne {key other : String} (h : other ≠ key) (value : JsonValue ν)
    (fields : List (String × JsonValue ν)) : (setEntry key value fields).lookup other = fields.lookup other := by
  induction fields with
  | nil => rw [setEntry, List.lookup_cons, beq_false_of_ne h]
  | cons entry rest ih =>
    obtain ⟨first, old⟩ := entry
    unfold setEntry
    split
    case isTrue hfirst =>
      subst hfirst
      rw [List.lookup_cons, List.lookup_cons, beq_false_of_ne h]
    case isFalse => rw [List.lookup_cons, List.lookup_cons, ih]

/-- Replacing an entry by one with the same trace leaves the trace of all entries as it is. -/
theorem map_setEntry {β : Type} (trace : String × JsonValue ν → β) {key : String} {old value : JsonValue ν}
    {fields : List (String × JsonValue ν)} (h : fields.lookup key = some old)
    (hsame : trace (key, value) = trace (key, old)) : (setEntry key value fields).map trace = fields.map trace := by
  induction fields with
  | nil => cases h
  | cons entry rest ih =>
    obtain ⟨other, first⟩ := entry
    rw [List.lookup_cons] at h
    unfold setEntry
    split
    case isTrue hkey =>
      subst hkey
      rw [beq_self_eq_true] at h
      obtain rfl : first = old := Option.some.inj h
      rw [List.map_cons, List.map_cons, hsame]
    case isFalse hkey =>
      rw [beq_false_of_ne (Ne.symm hkey)] at h
      rw [List.map_cons, List.map_cons, ih h]

/-- Change the value at the end of a path, through the objects on the way. -/
def modifyAt (change : JsonValue ν → JsonValue ν) :
    List String → List (String × JsonValue ν) → Option (List (String × JsonValue ν))
  | [], _ => none
  | [key], fields => (fields.lookup key).map fun value ↦ setEntry key (change value) fields
  | key :: rest, fields =>
    match fields.lookup key with
    | some (.object next) => (modifyAt change rest next).map fun changed ↦ setEntry key (.object changed) fields
    | _ => none

section Change

variable {change : JsonValue ν → JsonValue ν}

theorem modifyAt_cons_cons {key second : String} {rest : List String} {fields changed : List (String × JsonValue ν)}
    (h : modifyAt change (key :: second :: rest) fields = some changed) :
    ∃ next next', fields.lookup key = some (.object next) ∧ modifyAt change (second :: rest) next = some next' ∧
      changed = setEntry key (.object next') fields := by
  unfold modifyAt at h
  split at h
  case h_1 next hnext =>
    obtain ⟨next', hchanged, rfl⟩ := Option.map_eq_some_iff.1 h
    exact ⟨next, next', hnext, hchanged, rfl⟩
  case h_2 => cases h

/-- A leaf can be changed. -/
theorem isSome_modifyAt {path : List String} {fields : List (String × JsonValue ν)}
    (h : LeafAt (.object fields) path) : (modifyAt change path fields).isSome = true := by
  induction path generalizing fields with
  | nil => exact absurd h not_leafAt_nil
  | cons key rest ih =>
    obtain ⟨child, hchild, hleaf⟩ := leafAt_cons.1 h
    change fields.lookup key = some child at hchild
    cases rest with
    | nil => rw [modifyAt, hchild, Option.map_some, Option.isSome_some]
    | cons second rest =>
      cases child with
      | object next =>
        unfold modifyAt
        rw [hchild]
        simpa using ih hleaf
      | null | bool | number | string | array =>
        rw [leafAt_of_isObject_eq_false rfl] at hleaf
        cases hleaf

/-- The end of the path has the changed value. -/
theorem valueAt_modifyAt_self {path : List String} {fields changed : List (String × JsonValue ν)}
    (h : modifyAt change path fields = some changed) {leaf : JsonValue ν}
    (hleaf : valueAt path (.object fields) = some leaf) : valueAt path (.object changed) = some (change leaf) := by
  induction path generalizing fields changed with
  | nil => cases h
  | cons key rest ih =>
    cases rest with
    | nil =>
      obtain ⟨value, hvalue, rfl⟩ := Option.map_eq_some_iff.1 h
      obtain ⟨value', hvalue', hend⟩ := Option.bind_eq_some_iff.1 hleaf
      obtain rfl := Option.some.inj (hvalue.symm.trans hvalue')
      obtain rfl := Option.some.inj hend
      exact Option.bind_eq_some_iff.2 ⟨_, lookup_setEntry_self _ _ _, rfl⟩
    | cons second rest =>
      obtain ⟨next, next', hnext, hchanged, rfl⟩ := modifyAt_cons_cons h
      obtain ⟨value, hvalue, hend⟩ := Option.bind_eq_some_iff.1 hleaf
      obtain rfl := Option.some.inj (hnext.symm.trans hvalue)
      exact Option.bind_eq_some_iff.2 ⟨_, lookup_setEntry_self _ _ _, ih hchanged hend⟩

/-- The other leaves keep their values. -/
theorem valueAt_modifyAt_of_ne {path other : List String} {fields changed : List (String × JsonValue ν)}
    (h : modifyAt change path fields = some changed) (hpath : LeafAt (.object fields) path)
    (hother : LeafAt (.object fields) other) (hne : other ≠ path) :
    valueAt other (.object changed) = valueAt other (.object fields) := by
  induction path generalizing other fields changed with
  | nil => cases h
  | cons key rest ih =>
    cases other with
    | nil => exact absurd hother not_leafAt_nil
    | cons first others =>
      obtain ⟨child, hchild, hleaf⟩ := leafAt_cons.1 hpath
      obtain ⟨child', hchild', hleaf'⟩ := leafAt_cons.1 hother
      change fields.lookup key = some child at hchild
      change fields.lookup first = some child' at hchild'
      by_cases hkey : first = key
      · subst hkey
        obtain rfl := Option.some.inj (hchild.symm.trans hchild')
        have hrest : others ≠ rest := fun hsame ↦ hne (congrArg _ hsame)
        cases rest with
        | nil =>
          -- the value at the end is no object, and no other path leads through it
          obtain ⟨leaf, hend, hobject⟩ := hleaf
          obtain rfl := Option.some.inj hend
          exact absurd ((leafAt_of_isObject_eq_false hobject).1 hleaf') hrest
        | cons second rest =>
          obtain ⟨next, next', hnext, hchanged, rfl⟩ := modifyAt_cons_cons h
          obtain rfl := Option.some.inj (hnext.symm.trans hchild)
          have hsame := ih hchanged hleaf hleaf' hrest
          change ((setEntry first (.object next') fields).lookup first).bind _ = (fields.lookup first).bind _
          rw [lookup_setEntry_self, hnext]
          exact hsame
      · have hlookup : changed.lookup first = fields.lookup first := by
          cases rest with
          | nil =>
            obtain ⟨value, -, rfl⟩ := Option.map_eq_some_iff.1 h
            exact lookup_setEntry_of_ne hkey _ _
          | cons second rest =>
            obtain ⟨next, next', -, -, rfl⟩ := modifyAt_cons_cons h
            exact lookup_setEntry_of_ne hkey _ _
        change (changed.lookup first).bind _ = (fields.lookup first).bind _
        rw [hlookup]

end Change

theorem setEntry_self {key : String} {value : JsonValue ν} {fields : List (String × JsonValue ν)}
    (h : fields.lookup key = some value) : setEntry key value fields = fields := by
  have hsame := map_setEntry id h rfl
  rwa [List.map_id, List.map_id] at hsame

/-- Putting the value back that is there changes nothing. -/
theorem modifyAt_const_self {path : List String} (hpath : path ≠ []) {fields : List (String × JsonValue ν)}
    {value : JsonValue ν} (h : valueAt path (.object fields) = some value) :
    modifyAt (fun _ ↦ value) path fields = some fields := by
  induction path generalizing fields with
  | nil => exact absurd rfl hpath
  | cons key rest ih =>
    obtain ⟨child, hchild, hend⟩ := Option.bind_eq_some_iff.1 h
    change fields.lookup key = some child at hchild
    cases rest with
    | nil =>
      obtain rfl := Option.some.inj hend
      rw [modifyAt, hchild, Option.map_some, setEntry_self hchild]
    | cons second rest =>
      cases child with
      | object next =>
        unfold modifyAt
        rw [hchild]
        dsimp only
        rw [ih (List.cons_ne_nil _ _) hend, Option.map_some, setEntry_self hchild]
      | null | bool | number | string | array => cases hend

end JsonValue

/-! ## Values with natural numbers -/

namespace Json

mutual

/-- The same value, with its natural numbers as one kind of numbers. -/
def toValue : Json → JsonValue ℕ
  | .null => .null
  | .bool value => .bool value
  | .number n => .number n
  | .string s => .string s
  | .array values => .array (toValues values)
  | .object fields => .object (toFields fields)

def toValues : List Json → List (JsonValue ℕ)
  | [] => []
  | value :: rest => value.toValue :: toValues rest

def toFields : List (String × Json) → List (String × JsonValue ℕ)
  | [] => []
  | (key, value) :: rest => (key, value.toValue) :: toFields rest

end

end Json

end BFTDiagnosis
