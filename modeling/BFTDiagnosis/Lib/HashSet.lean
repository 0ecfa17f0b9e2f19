import Mathlib.Data.Finset.Card
import Mathlib.Data.List.Sort
import BFTDiagnosis.Lib.Word

/-!
# Walks over finite sets

A hash set is a `Finset`, and code that iterates over one takes a `Walk`, which lists the elements of every
set in some order. What is proved for every walk does not depend on the order that a hash function happens
to give. `Walk.ofKey` is a walk that can be evaluated.
-/

namespace BFTDiagnosis

/-- An order in which an iterator visits the elements of a set, for every set. -/
structure Walk (α : Type) where
  order : Finset α → List α
  coe_order : ∀ set, (order set : Multiset α) = set.val

namespace Walk

variable {α : Type} (walk : Walk α) {set : Finset α}

/-- The element that the iterator visits last. -/
def last (set : Finset α) : Option α := (walk.order set).getLast?

@[simp] theorem mem_order {a : α} : a ∈ walk.order set ↔ a ∈ set := by
  rw [← Multiset.mem_coe, walk.coe_order, Finset.mem_val]

theorem nodup_order : (walk.order set).Nodup := by
  rw [← Multiset.coe_nodup, walk.coe_order]
  exact set.nodup

@[simp] theorem length_order : (walk.order set).length = set.card := by
  rw [← Multiset.coe_card, walk.coe_order]
  rfl

theorem mem_of_last {walk : Walk α} {a : α} (h : walk.last set = some a) : a ∈ set :=
  walk.mem_order.1 (List.mem_of_getLast? h)

theorem last_eq_none_iff : walk.last set = none ↔ set = ∅ := by
  rw [last, List.getLast?_eq_none_iff, ← List.length_eq_zero_iff, length_order, Finset.card_eq_zero]

section Key

variable (key : α → ℕ)

theorem pairwise_insertionSort_key (list : List α) :
    (list.insertionSort fun a b ↦ key a ≤ key b).Pairwise fun a b ↦ key a ≤ key b := by
  have htotal : Std.Total fun a b ↦ key a ≤ key b := ⟨fun a b ↦ Nat.le_total (key a) (key b)⟩
  have htrans : IsTrans α fun a b ↦ key a ≤ key b := ⟨fun _ _ _ ↦ Nat.le_trans⟩
  exact List.pairwise_insertionSort _ list

/-- Visit the elements by increasing keys. -/
def ofKey (hkey : Function.Injective key) : Walk α where
  order set := Quot.liftOn set.val (List.insertionSort fun a b ↦ key a ≤ key b) fun list list' hperm ↦
    List.Perm.eq_of_pairwise (fun _ _ _ _ hle hle' ↦ hkey (Nat.le_antisymm hle hle'))
      (pairwise_insertionSort_key key list) (pairwise_insertionSort_key key list')
      (((List.perm_insertionSort _ list).trans hperm).trans (List.perm_insertionSort _ list').symm)
  coe_order set := by
    obtain ⟨elements, hnodup⟩ := set
    induction elements using Quotient.inductionOn with
    | h list => exact Multiset.coe_eq_coe.2 (List.perm_insertionSort _ list)

end Key

end Walk

/-- A number for every byte string, a different one for each. -/
def Bytes.key (bytes : Bytes) : ℕ := bytes.foldr (fun byte rest ↦ rest * 257 + byte.toNat + 1) 0

theorem Bytes.key_injective : Function.Injective Bytes.key := by
  intro bytes bytes' h
  induction bytes generalizing bytes' with
  | nil =>
    cases bytes' with
    | nil => rfl
    | cons byte rest =>
      simp only [Bytes.key, List.foldr_nil, List.foldr_cons] at h
      omega
  | cons byte rest ih =>
    cases bytes' with
    | nil =>
      simp only [Bytes.key, List.foldr_nil, List.foldr_cons] at h
      omega
    | cons byte' rest' =>
      have hlt := byte.toNat_lt
      have hlt' := byte'.toNat_lt
      simp only [Bytes.key, List.foldr_cons] at h
      have hrest : Bytes.key rest = Bytes.key rest' := by
        unfold Bytes.key
        omega
      have hbyte : byte.toNat = byte'.toNat := by
        unfold Bytes.key at hrest
        omega
      rw [UInt8.toNat_inj.1 hbyte, ih hrest]

end BFTDiagnosis
