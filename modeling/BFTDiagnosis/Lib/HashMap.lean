import Mathlib.Data.Finmap
import Mathlib.Data.Finset.Card

/-!
# Finite maps without an iteration order

The contents of a hash map are a finite set of keys with one value each. `Finmap` carries the
uniqueness of keys in the type and forgets the order of the entries, so nothing proved about a
map can depend on an iteration order. Code that walks over a map takes a listing of its entries
as an extra argument; `Listing` says when a list is one.
-/

namespace BFTDiagnosis

/-- Finitely many keys of type `κ`, each with one value of type `ν`. -/
abbrev HashMap (κ ν : Type) := Finmap fun _ : κ ↦ ν

namespace HashMap

variable {κ ν : Type} [DecidableEq κ]

/-- Set the value of a key, keeping the type of the map for later field notation. -/
abbrev insert (m : HashMap κ ν) (key : κ) (value : ν) : HashMap κ ν := Finmap.insert key value m

/-- Number of entries. -/
def len (m : HashMap κ ν) : ℕ := m.keys.card

/-- Number of values that the test accepts. -/
def count (m : HashMap κ ν) (test : ν → Bool) : ℕ := m.entries.countP fun entry ↦ test entry.2

/-- The entries as pairs, for code that walks over a map. -/
def entrySet (m : HashMap κ ν) : Finset (κ × ν) where
  val := m.entries.map fun entry ↦ (entry.1, entry.2)
  nodup := by
    refine Multiset.Nodup.map ?_ m.nodupKeys.nodup
    rintro ⟨key, value⟩ ⟨key', value'⟩ h
    obtain ⟨rfl, rfl⟩ := Prod.mk.inj h
    rfl

/-- Drop every entry that `keep` rejects. -/
def retain (m : HashMap κ ν) (keep : κ → ν → Bool) : HashMap κ ν where
  entries := m.entries.filter fun entry ↦ keep entry.1 entry.2
  nodupKeys := by
    obtain ⟨entries, hnodup⟩ := m
    induction entries using Quotient.inductionOn with
    | h list =>
      simp only [Multiset.quot_mk_to_coe, Multiset.filter_coe, Multiset.coe_nodupKeys] at hnodup ⊢
      exact hnodup.sublist List.filter_sublist

/-- One order in which an iterator may visit the entries of a map. -/
def Listing (m : HashMap κ ν) (entries : List (κ × ν)) : Prop :=
  (entries.map fun entry ↦ (⟨entry.1, entry.2⟩ : Sigma fun _ : κ ↦ ν) :
    Multiset (Sigma fun _ : κ ↦ ν)) = m.entries

instance Listing.decidable [DecidableEq ν] (m : HashMap κ ν) (entries : List (κ × ν)) :
    Decidable (m.Listing entries) :=
  inferInstanceAs (Decidable ((_ : Multiset (Sigma fun _ : κ ↦ ν)) = _))

/-- The map that a list of entries builds when they are inserted one after the other. -/
def ofEntries (entries : List (κ × ν)) : HashMap κ ν :=
  entries.foldl (fun m entry ↦ m.insert entry.1 entry.2) ∅

omit [DecidableEq κ] in
/-- A walk takes as many steps as there are entries. -/
theorem Listing.length_eq {m : HashMap κ ν} {entries : List (κ × ν)} (h : m.Listing entries) :
    entries.length = m.len := by
  have hcard : m.len = Multiset.card m.entries := Multiset.card_map _ _
  rw [hcard, ← h, Multiset.coe_card, List.length_map]

/-- Append to the list stored under a key, starting a new list when the key is absent. -/
def pushAt (m : HashMap κ (List ν)) (key : κ) (value : ν) : HashMap κ (List ν) :=
  match m.lookup key with
  | some values => m.insert key (values ++ [value])
  | none => m.insert key [value]

/-- The list stored under a key, empty when the key is absent. -/
def listAt (m : HashMap κ (List ν)) (key : κ) : List ν := (m.lookup key).getD []

theorem pushAt_eq_insert (m : HashMap κ (List ν)) (key : κ) (value : ν) :
    m.pushAt key value = m.insert key (m.listAt key ++ [value]) := by
  unfold pushAt listAt
  cases m.lookup key <;> rfl

@[simp] theorem listAt_pushAt_self (m : HashMap κ (List ν)) (key : κ) (value : ν) :
    (m.pushAt key value).listAt key = m.listAt key ++ [value] := by
  rw [pushAt_eq_insert, listAt, Finmap.lookup_insert, Option.getD_some]

theorem listAt_pushAt_of_ne (m : HashMap κ (List ν)) {key other : κ} (value : ν)
    (h : other ≠ key) : (m.pushAt key value).listAt other = m.listAt other := by
  rw [pushAt_eq_insert, listAt, Finmap.lookup_insert_of_ne _ h, listAt]

/-- A push keeps agreement at a key. -/
theorem listAt_pushAt_congr {m m' : HashMap κ (List ν)} {key : κ} (h : m.listAt key = m'.listAt key) (other : κ)
    (value : ν) : (m.pushAt other value).listAt key = (m'.pushAt other value).listAt key := by
  by_cases hkey : key = other
  · subst hkey
    rw [listAt_pushAt_self, listAt_pushAt_self, h]
  · rw [listAt_pushAt_of_ne m value hkey, listAt_pushAt_of_ne m' value hkey, h]

@[simp] theorem listAt_empty (key : κ) : (∅ : HashMap κ (List ν)).listAt key = [] := by
  rw [listAt, Finmap.lookup_empty, Option.getD_none]

/-- Membership after a push: an old member, or the pushed value under its own key. -/
theorem mem_listAt_pushAt {m : HashMap κ (List ν)} {key other : κ} {value member : ν}
    (h : member ∈ (m.pushAt key value).listAt other) :
    member ∈ m.listAt other ∨ (other = key ∧ member = value) := by
  by_cases hkey : other = key
  · subst hkey
    rw [listAt_pushAt_self, List.mem_append, List.mem_singleton] at h
    exact h.imp_right fun hvalue ↦ ⟨rfl, hvalue⟩
  · rw [listAt_pushAt_of_ne m value hkey] at h
    exact .inl h

/-- A property of every listed value, checked entry by entry. -/
theorem forall_mem_listAt {m : HashMap κ (List ν)} {P : ν → Prop} (h : ∀ entry ∈ m.entries, ∀ value ∈ entry.2, P value)
    (key : κ) : ∀ value ∈ m.listAt key, P value := by
  intro value hvalue
  unfold listAt at hvalue
  cases hlookup : m.lookup key with
  | none =>
    rw [hlookup] at hvalue
    cases hvalue
  | some values =>
    rw [hlookup] at hvalue
    exact h ⟨key, values⟩ (Finmap.lookup_eq_some_iff.1 hlookup) value hvalue

/-- Every entry of a map built from a list is an entry of the list. -/
theorem mem_of_lookup_ofEntries {entries : List (κ × ν)} {key : κ} {value : ν}
    (h : (ofEntries entries).lookup key = some value) : (key, value) ∈ entries := by
  unfold ofEntries at h
  induction entries using List.reverseRecOn with
  | nil => simp at h
  | append_singleton entries entry ih =>
    rw [List.foldl_append, List.foldl_cons, List.foldl_nil] at h
    by_cases hkey : key = entry.1
    · subst hkey
      rw [Finmap.lookup_insert] at h
      rw [← Option.some.inj h]
      exact List.mem_append_right _ (List.mem_singleton.2 rfl)
    · rw [Finmap.lookup_insert_of_ne _ hkey] at h
      exact List.mem_append_left _ (ih h)

theorem lookup_retain (m : HashMap κ ν) (keep : κ → Bool) (key : κ) :
    (m.retain fun other _ ↦ keep other).lookup key = if keep key then m.lookup key else none := by
  have hentry (value : ν) : (m.retain fun other _ ↦ keep other).lookup key = some value ↔
      m.lookup key = some value ∧ keep key = true := by
    rw [Finmap.lookup_eq_some_iff, Finmap.lookup_eq_some_iff, retain, Multiset.mem_filter]
  cases hkeep : keep key <;> cases hlookup : m.lookup key <;>
    simp_all [Option.eq_none_iff_forall_ne_some]

/-- Dropping keys leaves the list under a key as it is or empties it. -/
theorem listAt_retain (m : HashMap κ (List ν)) (keep : κ → Bool) (key : κ) :
    (m.retain fun other _ ↦ keep other).listAt key = m.listAt key ∨
      (m.retain fun other _ ↦ keep other).listAt key = [] := by
  unfold listAt
  rw [lookup_retain]
  cases keep key
  · exact .inr rfl
  · exact .inl rfl

section FirstWins

/-- Insert under a key that is absent; an entry that is there already stays. -/
def insertNew (m : HashMap κ ν) (key : κ) (value : ν) : HashMap κ ν :=
  if key ∈ m then m else m.insert key value

theorem lookup_insertNew (m : HashMap κ ν) (key other : κ) (value : ν) :
    (m.insertNew key value).lookup other =
      (m.lookup other).or (if key = other then some value else none) := by
  unfold insertNew
  by_cases hkey : key = other
  · subst hkey
    by_cases hmem : key ∈ m
    · obtain ⟨old, hold⟩ := Finmap.mem_iff.1 hmem
      rw [if_pos hmem, if_pos rfl, hold, Option.some_or]
    · rw [if_neg hmem, if_pos rfl, Finmap.lookup_insert, Finmap.lookup_eq_none.2 hmem, Option.none_or]
  · rw [if_neg hkey, Option.or_none]
    split
    case isTrue => rfl
    case isFalse => exact Finmap.lookup_insert_of_ne m (Ne.symm hkey)

/-- Collecting values under their keys finds the first value of every key. -/
theorem lookup_foldl_insertNew (keyOf : ν → κ) (values : List ν) (m : HashMap κ ν) (key : κ) :
    (values.foldl (fun m value ↦ m.insertNew (keyOf value) value) m).lookup key =
      (m.lookup key).or (values.find? fun value ↦ keyOf value == key) := by
  induction values generalizing m with
  | nil => simp
  | cons value rest ih =>
    rw [List.foldl_cons, ih, lookup_insertNew, Option.or_assoc, List.find?_cons]
    by_cases hkey : keyOf value = key
    · rw [if_pos hkey, Option.some_or, beq_iff_eq.2 hkey]
    · rw [if_neg hkey, Option.none_or, beq_false_of_ne hkey]

end FirstWins

section Nested

variable {κ' : Type} [DecidableEq κ']

/-- The map stored under a key, empty when the key is absent. -/
def mapAt (m : HashMap κ (HashMap κ' ν)) (key : κ) : HashMap κ' ν := (m.lookup key).getD ∅

/-- Insert into the map stored under a key, starting a new map when the key is absent. -/
def insertAt (m : HashMap κ (HashMap κ' ν)) (key : κ) (inner : κ') (value : ν) :
    HashMap κ (HashMap κ' ν) :=
  match m.lookup key with
  | some values => m.insert key (values.insert inner value)
  | none => m.insert key ((∅ : HashMap κ' ν).insert inner value)

variable (m : HashMap κ (HashMap κ' ν)) (key : κ) (inner : κ') (value : ν)

theorem insertAt_eq_insert : m.insertAt key inner value = m.insert key ((m.mapAt key).insert inner value) := by
  unfold insertAt mapAt
  cases m.lookup key <;> rfl

theorem lookup_insertAt_self :
    (m.insertAt key inner value).lookup key = some ((m.mapAt key).insert inner value) := by
  rw [insertAt_eq_insert, Finmap.lookup_insert]

@[simp] theorem mapAt_insertAt_self :
    (m.insertAt key inner value).mapAt key = (m.mapAt key).insert inner value := by
  rw [mapAt, lookup_insertAt_self, Option.getD_some]

theorem mapAt_insertAt_of_ne {other : κ} (h : other ≠ key) :
    (m.insertAt key inner value).mapAt other = m.mapAt other := by
  rw [insertAt_eq_insert, mapAt, Finmap.lookup_insert_of_ne _ h, mapAt]

omit [DecidableEq κ'] in
@[simp] theorem mapAt_insert (m : HashMap κ (HashMap κ' ν)) (key other : κ) (inner : HashMap κ' ν) :
    HashMap.mapAt (m.insert key inner) other = if other = key then inner else m.mapAt other := by
  unfold mapAt
  split
  case isTrue h => rw [h, Finmap.lookup_insert, Option.getD_some]
  case isFalse h => rw [Finmap.lookup_insert_of_ne _ h]

omit [DecidableEq κ'] in
@[simp] theorem mapAt_empty : (∅ : HashMap κ (HashMap κ' ν)).mapAt key = ∅ := by
  rw [mapAt, Finmap.lookup_empty, Option.getD_none]

end Nested

theorem keys_insert (m : HashMap κ ν) (key : κ) (value : ν) :
    (m.insert key value).keys = Insert.insert key m.keys := by
  ext other
  rw [Finmap.mem_keys, Finmap.mem_insert, Finset.mem_insert, Finmap.mem_keys]

/-- Erasing an absent key changes nothing. -/
theorem erase_of_notMem {m : HashMap κ ν} {key : κ} (h : key ∉ m) : Finmap.erase key m = m := by
  apply Finmap.ext_lookup
  intro other
  by_cases hkey : other = key
  · rw [hkey, Finmap.lookup_erase, Finmap.lookup_eq_none.2 h]
  · exact Finmap.lookup_erase_ne hkey

/-- Inserting under a present key keeps the number of entries. -/
theorem len_insert_of_mem {m : HashMap κ ν} {key : κ} (value : ν) (h : key ∈ m) :
    (m.insert key value).len = m.len := by
  rw [len, keys_insert, Finset.insert_eq_of_mem (Finmap.mem_keys.2 h), len]

/-- Inserting under a fresh key adds one entry. -/
theorem len_insert_of_notMem {m : HashMap κ ν} {key : κ} (value : ν) (h : key ∉ m) :
    (m.insert key value).len = m.len + 1 := by
  rw [len, keys_insert, Finset.card_insert_of_notMem (fun hmem ↦ h (Finmap.mem_keys.1 hmem)), len]

section Distinct

variable {entries : List (κ × ν)}

theorem mem_ofEntries {key : κ} : key ∈ ofEntries entries ↔ key ∈ entries.map Prod.fst := by
  unfold ofEntries
  induction entries using List.reverseRecOn with
  | nil => exact iff_of_false Finmap.notMem_empty List.not_mem_nil
  | append_singleton entries entry ih =>
    rw [List.foldl_append, List.foldl_cons, List.foldl_nil, Finmap.mem_insert, ih, List.map_append, List.mem_append,
      List.map_singleton, List.mem_singleton, or_comm]

/-- With one entry for each key, a map built from a list has the entries of the list. -/
theorem lookup_ofEntries (h : (entries.map Prod.fst).Nodup) {key : κ} {value : ν} :
    (ofEntries entries).lookup key = some value ↔ (key, value) ∈ entries := by
  refine ⟨mem_of_lookup_ofEntries, fun hmem ↦ ?_⟩
  have hkey : key ∈ ofEntries entries := mem_ofEntries.2 (List.mem_map_of_mem hmem)
  obtain ⟨other, hother⟩ := Finmap.mem_iff.1 hkey
  have hentry := List.inj_on_of_nodup_map h hmem (mem_of_lookup_ofEntries hother) rfl
  rw [hother, (Prod.mk.inj hentry).2]

end Distinct

/-- There are no more accepted values than keys that may hold one. -/
theorem count_le_card {m : HashMap κ ν} {test : ν → Bool} {keys : Finset κ}
    (h : ∀ key value, m.lookup key = some value → test value = true → key ∈ keys) : m.count test ≤ keys.card := by
  have hnodup : ((m.entries.filter fun entry ↦ test entry.2 = true).map Sigma.fst).Nodup := by
    exact Multiset.nodup_of_le (Multiset.map_le_map (Multiset.filter_le _ _)) m.nodupKeys.nodup_keys
  have hsubset : (⟨_, hnodup⟩ : Finset κ) ⊆ keys := by
    intro key hkey
    obtain ⟨⟨key', value⟩, hentry, rfl⟩ := Multiset.mem_map.1 hkey
    obtain ⟨hmem, htest⟩ := Multiset.mem_filter.1 hentry
    exact h key' value (Finmap.lookup_eq_some_iff.2 hmem) htest
  have hcard := Finset.card_le_card hsubset
  rwa [Finset.card_mk, Multiset.card_map, ← Multiset.countP_eq_card_filter] at hcard

theorem count_insert_of_notMem {m : HashMap κ ν} {key : κ} (test : ν → Bool) {value : ν} (h : key ∉ m)
    (htest : test value = true) : (m.insert key value).count test = m.count test + 1 := by
  unfold count insert
  rw [Finmap.entries_insert_of_notMem h]
  exact Multiset.countP_cons_of_pos _ htest

end HashMap

end BFTDiagnosis
