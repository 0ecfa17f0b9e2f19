import BFTDiagnosis.Lib.HashMap
import Mathlib.Data.Multiset.Filter
import Mathlib.Data.Multiset.AddSub

/-!
# Draining a map

The entries of a finite map as a multiset, and the loop that walks over a copy of a map and removes from
the original the entries it has dealt with. Whatever the order of the walk, the entries that remain are
those the loop did not deal with, and together with the others they are the entries at the start.
-/

namespace BFTDiagnosis

section Multiset

variable {α β : Type}

theorem filterMap_congr_of_mem {entries : Multiset α} {read read' : α → Option β}
    (h : ∀ entry ∈ entries, read entry = read' entry) :
    entries.filterMap read = entries.filterMap read' := by
  induction entries using Quotient.inductionOn with
  | h entries => exact congrArg Multiset.ofList (List.filterMap_congr h)

theorem filterMap_eq_zero_of_forall {entries : Multiset α} {read : α → Option β}
    (h : ∀ entry ∈ entries, read entry = none) : entries.filterMap read = 0 := by
  induction entries using Quotient.inductionOn with
  | h entries => exact congrArg Multiset.ofList (List.filterMap_eq_nil_iff.2 h)

theorem card_filterMap_of_forall {entries : Multiset α} {read : α → Option β}
    (h : ∀ entry ∈ entries, (read entry).isSome = true) : (entries.filterMap read).card = entries.card := by
  induction entries using Quotient.inductionOn with
  | h entries => exact List.filterMap_length_eq_length.2 h

/-- Where something can be read off every entry, a part with the same readings is the whole. -/
theorem filterMap_eq_iff_of_le {entries part : Multiset α} {read : α → Option β} (hle : part ≤ entries)
    (h : ∀ entry ∈ entries, (read entry).isSome = true) :
    part.filterMap read = entries.filterMap read ↔ part = entries := by
  constructor
  · intro heq
    apply Multiset.eq_of_le_of_card_le hle
    calc
      entries.card = (entries.filterMap read).card := (card_filterMap_of_forall h).symm
      _ = (part.filterMap read).card := by rw [heq]
      _ ≤ part.card := le_of_eq (card_filterMap_of_forall fun entry hentry ↦
        h entry (Multiset.mem_of_le hle hentry))
  · intro heq
    rw [heq]

/-- Entries with nothing to be read off them can be left out. -/
theorem filterMap_filter_isSome (entries : Multiset α) (read : α → Option β) :
    (entries.filter fun entry ↦ (read entry).isSome = true).filterMap read = entries.filterMap read := by
  induction entries using Quotient.inductionOn with
  | h entries =>
    apply congrArg Multiset.ofList
    rw [List.filterMap_filter]
    apply List.filterMap_congr
    intro entry _
    cases hread : read entry <;> simp [hread]

end Multiset

namespace HashMap

section Entries

variable {κ ν : Type}

/-- The entries of a map. -/
def toMultiset (m : HashMap κ ν) : Multiset (κ × ν) := m.entries.map fun entry ↦ (entry.1, entry.2)

theorem Listing.coe_eq {m : HashMap κ ν} {entries : List (κ × ν)} (h : m.Listing entries) :
    (entries : Multiset (κ × ν)) = m.toMultiset := by
  rw [toMultiset, ← h, Multiset.map_coe, List.map_map]
  exact congrArg Multiset.ofList (List.map_id'' (fun _ ↦ rfl) entries).symm

/-- Every map can be walked over. -/
theorem exists_listing (m : HashMap κ ν) : ∃ entries, m.Listing entries := by
  obtain ⟨entries, hentries⟩ := Quotient.exists_rep m.entries
  refine ⟨entries.map fun entry ↦ (entry.1, entry.2), ?_⟩
  rw [Listing, List.map_map]
  exact (congrArg Multiset.ofList (List.map_id'' (fun _ ↦ rfl) entries)).trans hentries

theorem toMultiset_retain (m : HashMap κ ν) (keep : κ → ν → Bool) :
    (m.retain keep).toMultiset = m.toMultiset.filter fun entry ↦ keep entry.1 entry.2 := by
  rw [toMultiset, toMultiset, Multiset.filter_map]
  rfl

theorem eq_false_of_mem_retain {m : HashMap κ ν} (done : κ × ν → Bool) {entry : κ × ν}
    (h : entry ∈ (m.retain fun key value ↦ !done (key, value)).toMultiset) : done entry = false := by
  rw [toMultiset_retain] at h
  have hnot := (Multiset.mem_filter.1 h).2
  rwa [Bool.not_eq_true'] at hnot

theorem nodup_keys_toMultiset (m : HashMap κ ν) : (m.toMultiset.map Prod.fst).Nodup := by
  rw [toMultiset, Multiset.map_map]
  exact Multiset.nodup_keys.2 m.nodupKeys

end Entries

variable {κ ν : Type} [DecidableEq κ]

/-- Remove a key, keeping the type of the map for later field notation. -/
abbrev remove (m : HashMap κ ν) (key : κ) : HashMap κ ν := Finmap.erase key m

/-- The map as a function. -/
abbrev get (m : HashMap κ ν) (key : κ) : Option ν := m.lookup key

/-- Insert every entry of another map. The keys of that map are different, so the order does not matter. -/
def extend (m other : HashMap κ ν) : HashMap κ ν := other ∪ m

@[simp] theorem empty_extend (other : HashMap κ ν) : extend ∅ other = other := Finmap.union_empty

theorem mem_toMultiset {m : HashMap κ ν} {key : κ} {value : ν} :
    (key, value) ∈ m.toMultiset ↔ m.lookup key = some value := by
  rw [Finmap.lookup_eq_some_iff, toMultiset, Multiset.mem_map]
  constructor
  · rintro ⟨⟨key', value'⟩, hmem, heq⟩
    obtain ⟨rfl, rfl⟩ := Prod.mk.inj heq
    exact hmem
  · intro hmem
    exact ⟨⟨key, value⟩, hmem, rfl⟩

theorem mem_listing {m : HashMap κ ν} {entries : List (κ × ν)} (h : m.Listing entries) {key : κ}
    {value : ν} : (key, value) ∈ entries ↔ m.lookup key = some value := by
  rw [← mem_toMultiset, ← h.coe_eq, Multiset.mem_coe]

/-- A walk over a map that was built from a list visits the entries of the list, in some order. -/
theorem Listing.perm {entries order : List (κ × ν)} (h : (ofEntries entries).Listing order)
    (hnodup : (entries.map Prod.fst).Nodup) : order.Perm entries := by
  have horder : order.Nodup := by
    rw [← Multiset.coe_nodup, h.coe_eq]
    exact Multiset.Nodup.of_map _ (nodup_keys_toMultiset _)
  refine (List.perm_ext_iff_of_nodup horder (List.Nodup.of_map _ hnodup)).2 fun ⟨key, value⟩ ↦ ?_
  rw [mem_listing h, lookup_ofEntries hnodup]

theorem toMultiset_insert {m : HashMap κ ν} {key : κ} (value : ν) (h : key ∉ m) :
    (m.insert key value).toMultiset = (key, value) ::ₘ m.toMultiset := by
  rw [toMultiset, Finmap.entries_insert_of_notMem h, Multiset.map_cons]
  rfl

theorem lookup_retain_filter (m : HashMap κ ν) (keep : κ → ν → Bool) (key : κ) :
    (m.retain keep).lookup key = (m.lookup key).filter (keep key) := by
  apply Option.ext
  intro value
  rw [← mem_toMultiset, toMultiset_retain, Multiset.mem_filter,
    mem_toMultiset, Option.filter_eq_some_iff]

/-- Two maps that agree in what is read off their values have the same entries up to that. -/
theorem map_toMultiset_eq {μ : Type} {m m' : HashMap κ ν} {read : ν → μ}
    (h : ∀ key, (m.lookup key).map read = (m'.lookup key).map read) :
    m.toMultiset.map (fun entry ↦ (entry.1, read entry.2)) =
      m'.toMultiset.map fun entry ↦ (entry.1, read entry.2) := by
  have hnodup (m : HashMap κ ν) : (m.toMultiset.map fun entry ↦ (entry.1, read entry.2)).Nodup := by
    apply Multiset.Nodup.of_map Prod.fst
    rw [Multiset.map_map]
    exact m.nodup_keys_toMultiset
  have hmem (m : HashMap κ ν) (key : κ) (value : μ) :
      (key, value) ∈ m.toMultiset.map (fun entry ↦ (entry.1, read entry.2)) ↔
        (m.lookup key).map read = some value := by
    rw [Multiset.mem_map, Option.map_eq_some_iff]
    constructor
    · rintro ⟨⟨key', value'⟩, hentry, heq⟩
      obtain ⟨rfl, rfl⟩ := Prod.mk.inj heq
      exact ⟨value', mem_toMultiset.1 hentry, rfl⟩
    · rintro ⟨value', hlookup, rfl⟩
      exact ⟨(key, value'), mem_toMultiset.2 hlookup, rfl⟩
  apply (Multiset.Nodup.ext (hnodup m) (hnodup m')).2
  rintro ⟨key, value⟩
  rw [hmem, hmem, h]

/-- Walk over a list of entries and remove those that are dealt with. -/
def drain (m : HashMap κ ν) (entries : List (κ × ν)) (done : κ × ν → Bool) : HashMap κ ν :=
  entries.foldl (fun m entry ↦ if done entry then m.remove entry.1 else m) m

theorem lookup_drain (m : HashMap κ ν) (entries : List (κ × ν)) (done : κ × ν → Bool) (key : κ) :
    (m.drain entries done).lookup key =
      if entries.any (fun entry ↦ decide (entry.1 = key) && done entry) then none else m.lookup key := by
  induction entries generalizing m with
  | nil => simp [drain]
  | cons entry rest ih =>
    have hstep : (m.drain (entry :: rest) done).lookup key =
        ((if done entry then m.remove entry.1 else m).drain rest done).lookup key := rfl
    rw [hstep, ih, List.any_cons]
    by_cases hkey : entry.1 = key
    · cases hdone : done entry with
      | true =>
        subst hkey
        simp
      | false =>
        rw [Bool.and_false, Bool.false_or]
        rfl
    · have hlookup : (if done entry then m.remove entry.1 else m).lookup key = m.lookup key := by
        split
        case isTrue => exact Finmap.lookup_erase_ne (Ne.symm hkey)
        case isFalse => rfl
      rw [hlookup, decide_eq_false hkey, Bool.false_and, Bool.false_or]

/-- The entries that a walk over the whole map does not deal with remain. -/
theorem drain_of_listing {m : HashMap κ ν} {entries : List (κ × ν)} (h : m.Listing entries)
    (done : κ × ν → Bool) : m.drain entries done = m.retain fun key value ↦ !done (key, value) := by
  apply Finmap.ext_lookup
  intro key
  rw [lookup_drain, lookup_retain_filter]
  cases hlookup : m.lookup key with
  | none => simp
  | some value =>
    have hdone : entries.any (fun entry ↦ decide (entry.1 = key) && done entry) = done (key, value) := by
      apply Bool.eq_iff_iff.2
      rw [List.any_eq_true]
      constructor
      · rintro ⟨⟨key', value'⟩, hmem, hboth⟩
        rw [Bool.and_eq_true, decide_eq_true_iff] at hboth
        obtain ⟨rfl, hdone⟩ := hboth
        rw [mem_listing h, hlookup] at hmem
        rw [Option.some.inj hmem]
        exact hdone
      · intro hdone
        exact ⟨(key, value), (mem_listing h).2 hlookup, by simp [hdone]⟩
    rw [hdone]
    cases hvalue : done (key, value) with
    | true => simp [Option.filter, hvalue]
    | false => simp [Option.filter, hvalue]

/-! ## Balance -/

/-- Every entry that was stored is still in the map or has been dealt with, and only one of the two. -/
def Balanced (stored : Multiset (κ × ν)) (m : HashMap κ ν) (dealt : Multiset (κ × ν)) : Prop :=
  stored = m.toMultiset + dealt

namespace Balanced

variable {stored dealt : Multiset (κ × ν)} {m : HashMap κ ν}

omit [DecidableEq κ] in
theorem empty : Balanced 0 (∅ : HashMap κ ν) 0 := rfl

omit [DecidableEq κ] in
theorem mem_of_mem_map (h : Balanced stored m dealt) {entry : κ × ν} (hentry : entry ∈ m.toMultiset) :
    entry ∈ stored := by
  rw [h]
  exact Multiset.mem_add.2 (.inl hentry)

omit [DecidableEq κ] in
theorem mem_of_mem_dealt (h : Balanced stored m dealt) {entry : κ × ν} (hentry : entry ∈ dealt) :
    entry ∈ stored := by
  rw [h]
  exact Multiset.mem_add.2 (.inr hentry)

omit [DecidableEq κ] in
/-- What has been dealt with is determined by what was stored and what is left. -/
theorem dealt_eq (h : Balanced stored m dealt) {dealt' : Multiset (κ × ν)} (h' : Balanced stored m dealt') :
    dealt = dealt' := add_left_cancel (h.symm.trans h')

omit [DecidableEq κ] in
theorem nodup_dealt (h : Balanced stored m dealt) (hnodup : stored.Nodup) : dealt.Nodup := by
  rw [h] at hnodup
  exact Multiset.nodup_of_le (Multiset.le_add_left _ _) hnodup

theorem lookup (h : Balanced stored m dealt) {entry : κ × ν} (hentry : entry ∈ stored)
    (hdealt : entry ∉ dealt) : m.lookup entry.1 = some entry.2 := by
  rw [h] at hentry
  have hmem := (Multiset.mem_add.1 hentry).resolve_right hdealt
  exact mem_toMultiset.1 hmem

/-- No key of an entry that has been dealt with is left, where every key was stored once. -/
theorem lookup_eq_none (h : Balanced stored m dealt) (hkeys : (stored.map Prod.fst).Nodup) {entry : κ × ν}
    (hentry : entry ∈ dealt) : m.lookup entry.1 = none := by
  apply Option.eq_none_iff_forall_ne_some.2
  intro value hlookup
  have hmap : entry.1 ∈ m.toMultiset.map Prod.fst := Multiset.mem_map.2 ⟨_, mem_toMultiset.2 hlookup, rfl⟩
  rw [h, Multiset.map_add, Multiset.nodup_add] at hkeys
  exact Multiset.disjoint_left.1 hkeys.2.2 hmap (Multiset.mem_map_of_mem Prod.fst hentry)

/-- An entry with a new key is stored. -/
theorem insert (h : Balanced stored m dealt) {key : κ} (value : ν)
    (hfresh : ∀ entry ∈ stored, entry.1 ≠ key) :
    Balanced (stored + {(key, value)}) (m.insert key value) dealt := by
  have hkey : key ∉ m := by
    intro hmem
    obtain ⟨value', hvalue⟩ := Finmap.mem_iff.1 hmem
    exact hfresh (key, value') (h.mem_of_mem_map (mem_toMultiset.2 hvalue)) rfl
  calc
    stored + {(key, value)} = {(key, value)} + (m.toMultiset + dealt) := by rw [h, add_comm]
    _ = (m.insert key value).toMultiset + dealt := by
      rw [toMultiset_insert value hkey, ← Multiset.singleton_add, add_assoc]

omit [DecidableEq κ] in
/-- Some entries are dealt with and leave the map. -/
theorem retain (h : Balanced stored m dealt) (done : κ × ν → Bool) :
    Balanced stored (m.retain fun key value ↦ !done (key, value))
      (dealt + m.toMultiset.filter fun entry ↦ done entry = true) := by
  have hnot : (fun entry : κ × ν ↦ (!done (entry.1, entry.2)) = true) =
      fun entry ↦ ¬ done entry = true := by
    funext entry
    simp
  have hsplit := Multiset.filter_add_not (fun entry ↦ done entry = true) m.toMultiset
  calc
    stored = m.toMultiset + dealt := h
    _ = m.toMultiset.filter (fun entry ↦ done entry = true) +
        m.toMultiset.filter (fun entry ↦ ¬ done entry = true) + dealt := by rw [hsplit]
    _ = _ := by
      rw [toMultiset_retain]
      simp only [hnot]
      rw [add_comm (Multiset.filter _ _), add_assoc, add_comm dealt]

end Balanced

end HashMap

end BFTDiagnosis
