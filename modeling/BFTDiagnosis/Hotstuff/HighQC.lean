import BFTDiagnosis.Hotstuff.Common

/-!
# The highest QC

A leader of either protocol walks over the new views that it has recorded for a view and keeps the QC of the
greatest view number, starting with its own one. New views without a QC are skipped, and a QC of the same view
number does not replace an earlier one, so what is left is the first one of the greatest view number.
-/

namespace BFTDiagnosis.Hotstuff

variable {κ : Type} {view : κ → UInt64}

/-- The result is the first certificate of the greatest view number among the candidates, none when there is no
certificate. -/
structure FirstHighest (view : κ → UInt64) (candidates : List (Option κ)) (result : Option κ) : Prop where
  eq_none_iff : result = none ↔ ∀ candidate ∈ candidates, candidate = none
  exists_split : ∀ qc, result = some qc → ∃ before after, candidates = before ++ some qc :: after ∧
    (∀ other, some other ∈ before → view other < view qc) ∧ ∀ other, some other ∈ after → view other ≤ view qc

theorem firstHighest_singleton (candidate : Option κ) : FirstHighest view [candidate] candidate where
  eq_none_iff := by rw [List.forall_mem_singleton]
  exists_split := by
    rintro qc rfl
    exact ⟨[], [], rfl, fun _ hother ↦ absurd hother List.not_mem_nil, fun _ hother ↦ absurd hother List.not_mem_nil⟩

namespace FirstHighest

variable {candidates : List (Option κ)} {result : Option κ}

/-- Every certificate among the candidates has at most the view number of the result. -/
theorem le {qc : κ} (h : FirstHighest view candidates (some qc)) {other : κ} (hother : some other ∈ candidates) :
    view other ≤ view qc := by
  obtain ⟨before, after, rfl, hbefore, hafter⟩ := h.exists_split qc rfl
  rcases List.mem_append.1 hother with hmem | hmem
  · exact UInt64.le_of_lt (hbefore other hmem)
  · rcases List.mem_cons.1 hmem with hsame | hmem
    · exact Option.some.inj hsame ▸ UInt64.le_refl _
    · exact hafter other hmem

/-- The result is one of the candidates, of which there is at least one. -/
theorem mem (h : FirstHighest view candidates result) (hne : candidates ≠ []) : result ∈ candidates := by
  cases result with
  | none =>
    obtain ⟨candidate, hcandidate⟩ := List.exists_mem_of_ne_nil candidates hne
    exact h.eq_none_iff.1 rfl candidate hcandidate ▸ hcandidate
  | some qc =>
    obtain ⟨before, after, rfl, -⟩ := h.exists_split qc rfl
    exact List.mem_append_right _ List.mem_cons_self

/-- A candidate that is not above the result comes too late to replace it. -/
theorem concat_of_le {qc : κ} (h : FirstHighest view candidates (some qc)) {candidate : Option κ}
    (hle : ∀ other, candidate = some other → view other ≤ view qc) :
    FirstHighest view (candidates ++ [candidate]) (some qc) where
  eq_none_iff := by
    refine iff_of_false (Option.some_ne_none qc) fun hnone ↦ ?_
    exact Option.some_ne_none qc (h.eq_none_iff.2 fun other hother ↦ hnone other (List.mem_append_left _ hother))
  exists_split := by
    intro qc' hqc'
    obtain rfl := Option.some.inj hqc'
    obtain ⟨before, after, rfl, hbefore, hafter⟩ := h.exists_split qc rfl
    refine ⟨before, after ++ [candidate], by rw [List.append_assoc, List.cons_append], hbefore, ?_⟩
    intro other hother
    rcases List.mem_append.1 hother with hmem | hmem
    · exact hafter other hmem
    · exact hle other (List.mem_singleton.1 hmem).symm

/-- A certificate above all candidates is the new result. -/
theorem concat_of_lt {qc : κ} (hlt : ∀ other, some other ∈ candidates → view other < view qc) :
    FirstHighest view (candidates ++ [some qc]) (some qc) where
  eq_none_iff := by
    refine iff_of_false (Option.some_ne_none qc) fun hnone ↦ ?_
    exact Option.some_ne_none qc (hnone _ List.mem_concat_self)
  exists_split := by
    intro qc' hqc'
    obtain rfl := Option.some.inj hqc'
    exact ⟨candidates, [], rfl, hlt, fun _ hother ↦ absurd hother List.not_mem_nil⟩

/-- One turn of the loop. -/
theorem concat (h : FirstHighest view candidates result) (candidate : Option κ) :
    FirstHighest view (candidates ++ [candidate]) (higherQC view result candidate) := by
  unfold higherQC
  split
  case h_1 =>
    cases result with
    | none =>
      have hnone := h.eq_none_iff.1 rfl
      refine ⟨iff_of_true rfl ?_, nofun⟩
      exact List.forall_mem_append.2 ⟨hnone, List.forall_mem_singleton.2 rfl⟩
    | some qc => exact h.concat_of_le nofun
  case h_2 justify =>
    refine concat_of_lt fun other hother ↦ ?_
    cases h.eq_none_iff.1 rfl _ hother
  case h_3 justify qc =>
    split
    case isTrue hlt => exact concat_of_lt fun other hother ↦ UInt64.lt_of_le_of_lt (h.le hother) hlt
    case isFalse hnot =>
      refine h.concat_of_le ?_
      intro other hother
      exact Option.some.inj hother ▸ UInt64.not_lt.1 hnot

/-- The loop over the new views. -/
theorem foldl (own : Option κ) (justifies : List (Option κ)) :
    FirstHighest view (own :: justifies) (justifies.foldl (higherQC view) own) := by
  induction justifies using List.reverseRecOn with
  | nil => exact firstHighest_singleton own
  | append_singleton justifies justify ih =>
    rw [List.foldl_concat, ← List.cons_append]
    exact ih.concat justify

end FirstHighest

end BFTDiagnosis.Hotstuff
