import BFTDiagnosis.Honeybadger.BinaryValues

/-!
# The nodes behind an output of binary values

The senders of AUXs are kept for each value by itself and added up. A node that has sent both AUXs is counted
twice once both values have enough BVALs, so the AUXs can suffice for an output without enough nodes.
-/

namespace BFTDiagnosis.Honeybadger

/-- The nodes that have sent an AUX for the value. -/
def auxSources (initial : BvBroadcast) (run : BvRun) (b : Bool) : Finset String :=
  BvBroadcast.sendersOf initial.auxFrom b ∪ bvSenders run (BaMessage.isAux b)

/-- Enough nodes have sent an AUX for a value that has enough BVALs. -/
def AuxQuorum (initial : BvBroadcast) (run : BvRun) (values : BoolSet) : Prop :=
  initial.network.numHonest ≤
    ((Finset.univ.filter fun b ↦ values.contains b = true).biUnion (auxSources initial run)).card

instance AuxQuorum.decidable (initial : BvBroadcast) (run : BvRun) (values : BoolSet) :
    Decidable (AuxQuorum initial run values) :=
  inferInstanceAs (Decidable (_ ≤ _))

/-- The nodes that have sent AUXs for both values. -/
def auxTwice (initial : BvBroadcast) (run : BvRun) : Finset String :=
  auxSources initial run true ∩ auxSources initial run false

/-- When both values have enough BVALs, no more nodes have sent both AUXs than there are AUXs beyond the number
that is needed. -/
def SparesRepeats (initial : BvBroadcast) (run : BvRun) (values : BoolSet) : Prop :=
  (∀ b, values.contains b = true) → initial.network.numHonest + (auxTwice initial run).card ≤
    (auxSources initial run true).card + (auxSources initial run false).card

section Runs

variable {initial bv bv' : BvBroadcast} {arrival : BvBroadcast.Arrival} {out : List Payload} {run before after : BvRun}
  {t : Transition BvBroadcast BvBroadcast.Arrival (List Payload)}

theorem auxSources_of_isRun (h : IsRun BvBroadcast.step initial run bv) :
    bv.network = initial.network ∧ ∀ b, BvBroadcast.sendersOf bv.auxFrom b = auxSources initial run b := by
  induction h with
  | nil => exact ⟨rfl, fun b ↦ (Finset.union_empty _).symm⟩
  | snoc previous taken ih =>
    refine ⟨(BvBroadcast.frame_of_step taken).1.trans ih.1, fun b ↦ ?_⟩
    rw [(BvBroadcast.senders_of_step taken b).2, ih.2, auxSources, auxSources, bvSenders_concat, Finset.union_assoc]

/-- The AUXs that lead to an output are counted for each value by itself. -/
theorem le_sum_of_step (h : bv.step arrival = some (bv', out)) (hrunning : bv.terminated = false)
    (hover : bv'.terminated = true) : bv.network.numHonest ≤
      (bv'.binValues.toList.map fun b ↦ (BvBroadcast.sendersOf bv'.auxFrom b).card).sum := by
  have hreceived := (bv.network_received arrival.source arrival.msg).2.1
  cases BvBroadcast.handleMessage_cases h with
  | seen => cases hrunning.symm.trans hover
  | entered => cases hrunning.symm.trans (hreceived.symm.trans hover)
  | output outputs =>
    obtain ⟨-, -, -, -, count, hcount, hmany⟩ := outputs
    rwa [(BvBroadcast.spec_of_countAux hcount).1] at hmany

theorem filter_contains (values : BoolSet) :
    (Finset.univ.filter fun b ↦ values.contains b = true) = values.toList.toFinset := by
  ext b
  simp [BoolSet.mem_toList]

/-- The sources of AUXs for values are the AUXs for each value, less the nodes that are counted twice. -/
theorem auxQuorum_iff_of_le_sum {values : BoolSet}
    (h : initial.network.numHonest ≤ (values.toList.map fun b ↦ (auxSources initial run b).card).sum) :
    AuxQuorum initial run values ↔ SparesRepeats initial run values := by
  have hlist := values.toList_eq_filter
  have hunion := Finset.card_union_add_card_inter (auxSources initial run true) (auxSources initial run false)
  rw [AuxQuorum, SparesRepeats, filter_contains, auxTwice]
  cases htrue : values.contains true <;> cases hfalse : values.contains false
  all_goals
    simp [htrue, hfalse] at hlist
    simp [hlist, htrue, hfalse] at h ⊢
    try omega

theorem auxSources_subset (hsplit : run = before ++ t :: after) (b : Bool) :
    auxSources initial (before ++ [t]) b ⊆ auxSources initial run b := by
  have happend : run = (before ++ [t]) ++ after := by rw [hsplit, List.append_assoc, List.singleton_append]
  rw [auxSources, auxSources, happend, bvSenders, bvSenders, List.filter_append (before ++ [t]), List.map_append,
    List.toFinset_append]
  exact Finset.union_subset_union_right Finset.subset_union_left

/-- An instance outputs with enough nodes behind it exactly when it spares the nodes that are counted twice,
and always when there are none. -/
theorem auxQuorum_iff_sparesRepeats (h : IsRun BvBroadcast.step initial run bv) :
    (∀ before t after, run = before ++ t :: after → SetsOutput t →
      (AuxQuorum initial (before ++ [t]) t.post.binValues ↔ SparesRepeats initial (before ++ [t]) t.post.binValues)) ∧
    (auxTwice initial run = ∅ → ∀ before t after, run = before ++ t :: after → SetsOutput t →
      AuxQuorum initial (before ++ [t]) t.post.binValues) := by
  have hiff (before : BvRun) (t : Transition BvBroadcast BvBroadcast.Arrival (List Payload)) (after : BvRun)
      (hsplit : run = before ++ t :: after) (hsets : SetsOutput t) :
      initial.network.numHonest ≤
        (t.post.binValues.toList.map fun b ↦ (auxSources initial (before ++ [t]) b).card).sum := by
    obtain ⟨hbefore, htaken⟩ := h.before hsplit
    have hsources := (auxSources_of_isRun (hbefore.snoc htaken)).2
    have hsum := le_sum_of_step htaken hsets.1 hsets.2
    simp only [hsources, (auxSources_of_isRun hbefore).1] at hsum
    exact hsum
  refine ⟨fun before t after hsplit hsets ↦ auxQuorum_iff_of_le_sum (hiff before t after hsplit hsets),
    fun hnone before t after hsplit hsets ↦ ?_⟩
  have hsum := hiff before t after hsplit hsets
  rw [auxQuorum_iff_of_le_sum hsum]
  intro hboth
  have htwice : auxTwice initial (before ++ [t]) = ∅ := by
    rw [← Finset.subset_empty, ← hnone]
    exact Finset.inter_subset_inter (auxSources_subset hsplit true) (auxSources_subset hsplit false)
  have hlist : t.post.binValues.toList = [true, false] := by
    rw [BoolSet.toList_eq_filter]
    simp [hboth]
  rw [hlist] at hsum
  rw [htwice, Finset.card_empty]
  simpa using hsum

end Runs

/-! ## Runs of four nodes -/

def threeBvals (value : Bool) : List BvBroadcast.Arrival := ["a", "b", "c"].map (bvalFrom value)

/-- One node sends both AUXs before the second value enters, and there is one AUX more than are needed. -/
def sparedArrivals : List BvBroadcast.Arrival :=
  threeBvals true ++ [auxFrom false "a", auxFrom false "b", auxFrom true "b", auxFrom true "c"] ++ threeBvals false

def sparedRun : BvRun := transitions BvBroadcast.step (BvBroadcast.new fourNodes 0 "a") sparedArrivals

theorem isRun_sparedRun : IsRun BvBroadcast.step (BvBroadcast.new fourNodes 0 "a") sparedRun
    (final BvBroadcast.step (BvBroadcast.new fourNodes 0 "a") sparedArrivals) :=
  IsRun.of_isSome (by decide +kernel)

theorem auxQuorum_iff_sparesRepeats_sparedRun : (∃ t ∈ sparedRun, SetsOutput t) ∧
    (∀ before t after, sparedRun = before ++ t :: after → SetsOutput t →
      (AuxQuorum (BvBroadcast.new fourNodes 0 "a") (before ++ [t]) t.post.binValues ↔
        SparesRepeats (BvBroadcast.new fourNodes 0 "a") (before ++ [t]) t.post.binValues)) :=
  ⟨by decide +kernel, (auxQuorum_iff_sparesRepeats isRun_sparedRun).1⟩

/-- One of two nodes sends both AUXs. -/
def repeatedRun : BvRun :=
  transitions BvBroadcast.step (BvBroadcast.new fourNodes 0 "a")
    (threeBvals true ++ threeBvals false ++ [auxFrom true "b", auxFrom false "b", auxFrom true "c"])

theorem eight_lt_length_repeatedRun : 8 < repeatedRun.length := by decide +kernel

theorem not_auxQuorum_repeatedRun :
    ¬ ∀ before t after, repeatedRun = before ++ t :: after → SetsOutput t →
      AuxQuorum (BvBroadcast.new fourNodes 0 "a") (before ++ [t]) t.post.binValues := by
  intro h
  have hquorum := h _ _ _ (eq_take_append_cons_drop repeatedRun 8 eight_lt_length_repeatedRun)
    ⟨by decide +kernel, by decide +kernel⟩
  exact absurd hquorum (by decide +kernel)

end BFTDiagnosis.Honeybadger
