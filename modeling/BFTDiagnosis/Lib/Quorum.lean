import Mathlib.Data.Fintype.Card
import Mathlib.Data.Finset.Card
import Mathlib.Tactic.Common

/-!
# Quorums

Two quorums of a finite population whose sizes exceed the population together with the faulty
members share a member that is not faulty. With `3 * f + 1` members, at most `f` of them faulty,
quorums of `2 * f + 1` members are large enough. A list of messages whose senders are pairwise
different yields a quorum as large as the list.
-/

namespace BFTDiagnosis.Quorum

variable {ι : Type} [Fintype ι] [DecidableEq ι]

/-- The counting form of quorum intersection. -/
theorem exists_mem_inter_notMem {faulty left right : Finset ι}
    (hsize : Fintype.card ι + faulty.card < left.card + right.card) :
    ∃ i, i ∈ left ∧ i ∈ right ∧ i ∉ faulty := by
  have hinter : faulty.card < (left ∩ right).card := by
    have hunion := Finset.card_union_add_card_inter left right
    have hle := Finset.card_le_univ (left ∪ right)
    omega
  obtain ⟨i, hi, hfaulty⟩ := Finset.exists_mem_notMem_of_card_lt_card hinter
  exact ⟨i, (Finset.mem_inter.1 hi).1, (Finset.mem_inter.1 hi).2, hfaulty⟩

/-- Two quorums of `2 * f + 1` among `3 * f + 1` share a correct member. -/
theorem exists_correct_of_two_quorums {f : ℕ} {faulty left right : Finset ι}
    (hcard : Fintype.card ι = 3 * f + 1) (hfaulty : faulty.card ≤ f)
    (hleft : 2 * f + 1 ≤ left.card) (hright : 2 * f + 1 ≤ right.card) :
    ∃ i, i ∈ left ∧ i ∈ right ∧ i ∉ faulty :=
  exists_mem_inter_notMem (by omega)

omit [Fintype ι] [DecidableEq ι] in
/-- A quorum of more members than can be faulty has a correct member. -/
theorem exists_correct {f : ℕ} {faulty quorum : Finset ι} (hfaulty : faulty.card ≤ f)
    (hquorum : f < quorum.card) : ∃ i ∈ quorum, i ∉ faulty :=
  Finset.exists_mem_notMem_of_card_lt_card (by omega)

omit [DecidableEq ι] in
open Classical in
/-- Names that each belong to a member with a property give at least as many such members. -/
theorem exists_members {α : Type} (name : ι → α) (names : Finset α) {P : ι → Prop}
    (h : ∀ a ∈ names, ∃ i, name i = a ∧ P i) :
    ∃ members : Finset ι, names.card ≤ members.card ∧ ∀ i ∈ members, P i := by
  refine ⟨Finset.univ.filter P, ?_, fun i hi ↦ (Finset.mem_filter.1 hi).2⟩
  have hsubset : names ⊆ (Finset.univ.filter P).image name := by
    intro a ha
    obtain ⟨i, rfl, hi⟩ := h a ha
    exact Finset.mem_image_of_mem name (Finset.mem_filter.2 ⟨Finset.mem_univ i, hi⟩)
  calc names.card
      ≤ ((Finset.univ.filter P).image name).card := Finset.card_le_card hsubset
    _ ≤ (Finset.univ.filter P).card := Finset.card_image_le

/-- Pairwise different senders of a list of messages, as a set. -/
theorem card_toFinset_map {μ α : Type} [DecidableEq α] (sender : μ → α) {messages : List μ}
    (h : (messages.map sender).Nodup) : (messages.map sender).toFinset.card = messages.length := by
  rw [List.toFinset_card_of_nodup h, List.length_map]

/-- A list names as many members as it is long exactly when it repeats none. -/
theorem length_le_card_toFinset_iff {α : Type} [DecidableEq α] {names : List α} :
    names.length ≤ names.toFinset.card ↔ names.Nodup := by
  constructor
  · intro h
    have hcard : names.toFinset.card = names.length := Nat.le_antisymm (List.toFinset_card_le names) h
    exact Multiset.toFinset_card_eq_card_iff_nodup.1 hcard
  · intro h
    rw [List.toFinset_card_of_nodup h]

/-- A list that repeats no member and is as long as the population names all of it. -/
theorem mem_of_card_le_length {α : Type} [DecidableEq α] {names : List α} {population : Finset α}
    (hnodup : names.Nodup) (hsubset : ∀ a ∈ names, a ∈ population) (hcard : population.card ≤ names.length)
    {a : α} (ha : a ∈ population) : a ∈ names := by
  have heq : names.toFinset = population := by
    apply Finset.eq_of_subset_of_card_le
    · exact fun b hb ↦ hsubset b (List.mem_toFinset.1 hb)
    · rwa [List.toFinset_card_of_nodup hnodup]
  rw [← heq] at ha
  exact List.mem_toFinset.1 ha

end BFTDiagnosis.Quorum
