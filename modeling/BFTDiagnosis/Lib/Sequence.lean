import Mathlib.Data.List.Induction

/-!
# The order of the entries of a record

A sublist of a record says which entries came after which. These are the sublists of a record that has
grown by one entry.
-/

namespace BFTDiagnosis

variable {α : Type}

theorem concat_sublist_concat {pattern record : List α} {last entry : α} :
    List.Sublist (pattern ++ [last]) (record ++ [entry]) ↔
      List.Sublist (pattern ++ [last]) record ∨ last = entry ∧ List.Sublist pattern record := by
  constructor
  · intro h
    obtain ⟨left, right, heq, hleft, hright⟩ := List.sublist_append_iff.1 h
    rcases List.eq_nil_or_concat right with rfl | ⟨rest, x, rfl⟩
    · rw [List.append_nil] at heq
      rw [heq]
      exact .inl hleft
    · rw [List.concat_eq_append] at heq hright
      rw [← List.append_assoc] at heq
      obtain ⟨hpattern, hlast⟩ := List.append_inj' heq rfl
      have hlength := hright.length_le
      have hrest : rest = [] := by
        apply List.eq_nil_of_length_eq_zero
        simpa using hlength
      subst hrest
      have hentry : x = entry := by simpa using hright
      rw [List.append_nil] at hpattern
      rw [hpattern]
      exact .inr ⟨(List.singleton_inj.1 hlast).trans hentry, hleft⟩
  · rintro (h | ⟨rfl, h⟩)
    · exact h.trans (List.sublist_append_left _ _)
    · exact h.append (List.Sublist.refl _)

/-- One entry after another in a record that has grown. -/
theorem pair_sublist_concat {record : List α} {first second entry : α} :
    List.Sublist [first, second] (record ++ [entry]) ↔
      List.Sublist [first, second] record ∨ second = entry ∧ first ∈ record := by
  rw [← List.singleton_sublist]
  exact @concat_sublist_concat α [first] record second entry

/-- Three entries in order in a record that has grown. -/
theorem triple_sublist_concat {record : List α} {first second third entry : α} :
    List.Sublist [first, second, third] (record ++ [entry]) ↔
      List.Sublist [first, second, third] record ∨ third = entry ∧ List.Sublist [first, second] record :=
  @concat_sublist_concat α [first, second] record third entry

theorem mem_of_pair_sublist {record : List α} {first second : α}
    (h : List.Sublist [first, second] record) : first ∈ record :=
  h.subset List.mem_cons_self

/-- An entry that does not come after a mark that follows the first entry has that mark after it. -/
theorem pair_sublist_of_not_after {record : List α} {first mark entry : α} (hne : entry ≠ mark)
    (hmark : List.Sublist [first, mark] record) (hentry : entry ∈ record)
    (hnot : ¬ List.Sublist [first, mark, entry] record) : List.Sublist [entry, mark] record := by
  induction record using List.reverseRecOn with
  | nil => exact absurd hentry List.not_mem_nil
  | append_singleton record last ih =>
    rw [triple_sublist_concat, not_or, not_and] at hnot
    rw [pair_sublist_concat] at hmark ⊢
    rcases List.mem_append.1 hentry with hbefore | hlast
    · rcases hmark with hmark | ⟨rfl, -⟩
      · exact .inl (ih hmark hbefore hnot.1)
      · exact .inr ⟨rfl, hbefore⟩
    · -- The entry is the last one, so the mark is before it.
      have heq := List.mem_singleton.1 hlast
      rcases hmark with hmark | ⟨hmark, -⟩
      · exact absurd hmark (hnot.2 heq)
      · exact absurd (heq.trans hmark.symm) hne

/-- A mark after an entry that occurs once comes after whatever is before the entry. -/
theorem quadruple_sublist {record : List α} {first mark entry : α} (hne : entry ≠ mark)
    (honce : ¬ List.Sublist [entry, entry] record) (htriple : List.Sublist [first, mark, entry] record)
    (hpair : List.Sublist [entry, mark] record) : List.Sublist [first, mark, entry, mark] record := by
  induction record using List.reverseRecOn with
  | nil => exact absurd (mem_of_pair_sublist hpair) List.not_mem_nil
  | append_singleton record last ih =>
    rw [pair_sublist_concat, not_or, not_and] at honce
    rw [triple_sublist_concat] at htriple
    rw [pair_sublist_concat] at hpair
    have hgoal := @concat_sublist_concat α [first, mark, entry] record mark last
    apply hgoal.2
    rcases htriple with htriple | ⟨hentry, -⟩
    · rcases hpair with hpair | ⟨hmark, -⟩
      · exact .inl (ih honce.1 htriple hpair)
      · exact .inr ⟨hmark, htriple⟩
    · -- The entry is the last one, so no mark can come after it.
      rcases hpair with hpair | ⟨hmark, -⟩
      · exact absurd (mem_of_pair_sublist hpair) (honce.2 hentry)
      · exact absurd (hentry.trans hmark.symm) hne

end BFTDiagnosis
