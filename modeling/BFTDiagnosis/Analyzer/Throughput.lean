import BFTDiagnosis.Analyzer.Steps

/-!
# Throughput accounting

The count of a peer is the number of its end records that have left `t_end_data`, and an end record
leaves it in the first computation that finds the start record of its request.
-/

namespace BFTDiagnosis.Analyzer

open Components DataWarehouse

variable {X : Externals}

/-! ## The invariant -/

/-- The throughput data agrees with the records stored so far: the start records by their hashes and the
end records under their keys. -/
structure ThroughputInv (starts : String → Option ConsensusStartData)
    (ends : List (EndKey × ConsensusEndData)) (w : DataWarehouse) : Prop where
  started : ∀ requestHash, w.tStartData.lookup requestHash = starts requestHash
  startComputing : w.tStartDataComputing = ∅
  endComputing : w.tEndDataComputing = ∅
  balance : ∃ counted, HashMap.Balanced (ends : Multiset (EndKey × ConsensusEndData)) w.tEndData counted ∧
    (∀ entry ∈ counted, (starts entry.1.2).isSome = true) ∧
    ∀ peer, w.midCount peer = counted.countP fun entry ↦ entry.1.1 = peer

theorem ThroughputInv.reset (w : DataWarehouse) : ThroughputInv (fun _ ↦ none) [] w.reset where
  started _ := rfl
  startComputing := rfl
  endComputing := rfl
  balance := ⟨0, HashMap.Balanced.empty, by simp, fun _ ↦ rfl⟩

theorem ThroughputInv.storeStart {starts : String → Option ConsensusStartData}
    {ends : List (EndKey × ConsensusEndData)} {w : DataWarehouse} (h : ThroughputInv starts ends w)
    (data : ConsensusStartData) :
    ThroughputInv (startsAfter X starts (some data)) ends (w.storeConsensusStartData X data) where
  started := lookup_insert_start h.started data
  startComputing := h.startComputing
  endComputing := h.endComputing
  balance := by
    obtain ⟨counted, hbalance, hstarted, hcount⟩ := h.balance
    refine ⟨counted, hbalance, fun entry hentry ↦ ?_, hcount⟩
    rw [startsAfter_some]
    split
    case isTrue => rfl
    case isFalse => exact hstarted entry hentry

theorem ThroughputInv.storeEnd {starts : String → Option ConsensusStartData}
    {ends : List (EndKey × ConsensusEndData)} {w : DataWarehouse} (h : ThroughputInv starts ends w)
    (peer : PeerId) (data : ConsensusEndData)
    (hfresh : ∀ entry ∈ ends, entry.1 ≠ (keyedEnd X (peer, data)).1) :
    ThroughputInv starts (ends ++ [keyedEnd X (peer, data)]) (w.storeConsensusEndData X peer data) where
  started := h.started
  startComputing := h.startComputing
  endComputing := h.endComputing
  balance := by
    obtain ⟨counted, hbalance, hstarted, hcount⟩ := h.balance
    refine ⟨counted, ?_, hstarted, hcount⟩
    rw [← Multiset.coe_add, Multiset.coe_singleton]
    exact hbalance.insert data hfresh

/-- A computation counts the started end records, and leaves none of them. -/
theorem ThroughputInv.compute {row : UInt64 → PeerId → UInt64 → Row} {rows : List Row}
    {starts : String → Option ConsensusStartData} {ends : List (EndKey × ConsensusEndData)}
    {w w' : DataWarehouse} (h : ThroughputInv starts ends w) (htaken : ThroughputStep X row w w' rows) :
    ThroughputInv starts ends w' ∧ ∀ entry ∈ w'.tEndData.toMultiset, starts entry.1.2 = none := by
  obtain ⟨counted, hbalance, hstarted, hcount⟩ := h.balance
  obtain ⟨counts, round, hframe⟩ := htaken.frame
  have hstartedIff (entry : EndKey × ConsensusEndData) :
      Started w.tStartData entry = (starts entry.1.2).isSome := by rw [Started, h.started]
  have hends : w'.tEndData = w.tEndData.retain fun key data ↦ !Started w.tStartData (key, data) := by
    rw [hframe]
  refine ⟨⟨?_, ?_, ?_, ?_⟩, ?_⟩
  · rw [hframe]
    exact h.started
  · rw [hframe]
  · rw [hframe]
  · refine ⟨counted + w.tEndData.toMultiset.filter fun entry ↦ Started w.tStartData entry = true, ?_, ?_, ?_⟩
    · rw [hends]
      exact hbalance.retain _
    · intro entry hentry
      rcases Multiset.mem_add.1 hentry with hbefore | hnow
      · exact hstarted entry hbefore
      · rw [← hstartedIff]
        exact (Multiset.mem_filter.1 hnow).2
    · intro peer
      rw [htaken.counts.count, hcount, Multiset.countP_add, Multiset.countP_filter]
      simp only [StartedOf, Bool.and_eq_true, decide_eq_true_eq]
  · intro entry hentry
    rw [hends] at hentry
    have hnot := HashMap.eq_false_of_mem_retain (Started w.tStartData) hentry
    rw [hstartedIff] at hnot
    exact Option.isNone_iff_eq_none.1 (Option.isSome_eq_false_iff.1 hnot)

theorem ThroughputInv.step {starts : String → Option ConsensusStartData}
    {ends : List (EndKey × ConsensusEndData)} {w w' : DataWarehouse} {op : Op} {rows : List Row}
    (h : ThroughputInv starts ends w) (htaken : step X w op = some (w', rows)) (hreset : op.isReset = false)
    (hfresh : ∀ entry ∈ ends, ∀ stored ∈ op.endData, entry.1 ≠ (keyedEnd X stored).1) :
    ThroughputInv (startsAfter X starts op.startData) (ends ++ (op.endData.map (keyedEnd X)).toList) w' := by
  have hsame := append_keyedEnd_of_none (X := X) ends op
  cases step_effect htaken with
  | start =>
    rw [hsame rfl]
    exact h.storeStart _
  | finish => exact h.storeEnd _ _ fun entry hentry ↦ hfresh entry hentry _ rfl
  | reset => exact Bool.noConfusion hreset
  | throughput htaken | scalabilityThroughput htaken =>
    rw [hsame rfl]
    exact (h.compute htaken).1
  | latency htaken | scalabilityLatency htaken =>
    rw [hsame rfl, htaken.frame]
    exact ⟨h.started, h.startComputing, h.endComputing, h.balance⟩
  | crash | malicious | crashNode | interval =>
    rw [hsame rfl]
    exact ⟨h.started, h.startComputing, h.endComputing, h.balance⟩

theorem throughputInv_of_isRun {w final : DataWarehouse} {run : Run}
    (h : IsRun (step X) w.reset run final) (hreset : ∀ t ∈ run, t.event.isReset = false)
    (honce : EndKeysOnce X run) : ThroughputInv (latestStartAt X run) (keyedEnds X run) final := by
  have hinitial : EndKeysOnce X [] →
      ThroughputInv (latestStartAt X []) (keyedEnds X []) w.reset := fun _ ↦ .reset w
  revert honce
  apply IsRun.induction_of_forall hinitial ?_ h hreset
  intro run w op rows w' hinv hop htaken honce
  have hfresh := honce.fresh
  rw [latestStartAt_concat, keyedEnds_concat]
  exact (hinv hfresh.1).step htaken hop hfresh.2

/-! ## The accounts -/

def Op.computesThroughput : Op → Bool
  | .computeThroughput .. => true
  | .computeScalabilityThroughput .. => true
  | _ => false

/-- The requests for which the end record of a peer and some start record have been stored. -/
def completedRequests (run : Run) (peer : PeerId) : Finset Request :=
  (((storedEnds run).filter fun entry ↦
    entry.1 = peer ∧ entry.2.request ∈ (storedStarts run).map (·.request)).map (·.2.request)).toFinset

/-- The counts are those of the completed requests, every other end record is still there, and nothing
is left in the maps of the computation. -/
structure ThroughputAccounted (X : Externals) (run : Run) (w : DataWarehouse) : Prop where
  counts : ∀ peer, w.midCount peer = (completedRequests run peer).card
  ends : ∀ entry ∈ storedEnds run, entry.2.request ∉ completedRequests run entry.1 →
    w.tEndData.lookup (entry.1, getRequestHash X entry.2.request) = some entry.2
  startComputing : w.tStartDataComputing = ∅
  endComputing : w.tEndDataComputing = ∅

/-- Every start record is still there. -/
def StartsKept (X : Externals) (run : Run) (w : DataWarehouse) : Prop :=
  ∀ data ∈ storedStarts run, w.tStartData.lookup (getRequestHash X data.request) = some data

/-- The last start record of every started request is still there. -/
def LatestStartsKept (X : Externals) (run : Run) (w : DataWarehouse) : Prop :=
  ∀ data ∈ storedStarts run,
    w.tStartData.lookup (getRequestHash X data.request) = latestStart run data.request

theorem mem_startedRequests {run : Run} (hhash : NoCollision X run) {entry : PeerId × ConsensusEndData}
    (hentry : entry ∈ storedEnds run) : entry.2.request ∈ (storedStarts run).map (·.request) ↔
      (latestStartAt X run (getRequestHash X entry.2.request)).isSome = true := by
  rw [isSome_latestStartAt, List.mem_map]
  constructor
  · rintro ⟨data, hdata, heq⟩
    exact ⟨data, hdata, congrArg (getRequestHash X) heq⟩
  · rintro ⟨data, hdata, heq⟩
    exact ⟨data, hdata, hhash (mem_storedRequests_of_start hdata) (mem_storedRequests_of_end hentry) heq⟩

theorem mem_completedRequests {run : Run} {peer : PeerId} {request : Request} :
    request ∈ completedRequests run peer ↔
      (∃ data, (peer, data) ∈ storedEnds run ∧ data.request = request) ∧
        request ∈ (storedStarts run).map (·.request) := by
  unfold completedRequests
  rw [List.mem_toFinset, List.mem_map]
  constructor
  · rintro ⟨⟨peer', data⟩, hmem, rfl⟩
    obtain ⟨hstored, hboth⟩ := List.mem_filter.1 hmem
    obtain ⟨rfl, hstarted⟩ := of_decide_eq_true hboth
    exact ⟨⟨data, hstored, rfl⟩, hstarted⟩
  · rintro ⟨⟨data, hmem, rfl⟩, hstarted⟩
    exact ⟨(peer, data), List.mem_filter.2 ⟨hmem, decide_eq_true ⟨rfl, hstarted⟩⟩, rfl⟩

/-- The completed requests of a peer, counted by the end records under their keys. -/
theorem card_completedRequests {run : Run} (honce : EndsOnce run) (hhash : NoCollision X run)
    (peer : PeerId) : (completedRequests run peer).card = (keyedEnds X run).countP fun entry ↦
      decide (entry.1.1 = peer ∧ (latestStartAt X run entry.1.2).isSome = true) := by
  have hnodup : (((storedEnds run).filter fun entry ↦
      entry.1 = peer ∧ entry.2.request ∈ (storedStarts run).map (·.request)).map (·.2.request)).Nodup := by
    have hpairs := List.Nodup.of_map _ honce
    apply List.Nodup.map_on _ (hpairs.filter _)
    intro entry hentry entry' hentry' heq
    have hpeer := (of_decide_eq_true (List.mem_filter.1 hentry).2).1
    have hpeer' := (of_decide_eq_true (List.mem_filter.1 hentry').2).1
    exact List.inj_on_of_nodup_map honce (List.mem_filter.1 hentry).1 (List.mem_filter.1 hentry').1
      (Prod.ext (hpeer.trans hpeer'.symm) heq)
  calc
    (completedRequests run peer).card = ((storedEnds run).filter fun entry ↦
        entry.1 = peer ∧ entry.2.request ∈ (storedStarts run).map (·.request)).length := by
      rw [completedRequests, List.toFinset_card_of_nodup hnodup, List.length_map]
    _ = (storedEnds run).countP fun entry ↦ decide
        (entry.1 = peer ∧ entry.2.request ∈ (storedStarts run).map (·.request)) := by
      rw [List.countP_eq_length_filter]
    _ = (storedEnds run).countP fun entry ↦ decide (entry.1 = peer ∧
        (latestStartAt X run (getRequestHash X entry.2.request)).isSome = true) := by
      apply List.countP_congr
      intro entry hentry
      simp only [mem_startedRequests hhash hentry]
    _ = _ := by
      rw [keyedEnds, List.countP_map]
      rfl

/-- An invariant after which no started end record is left gives the accounts. -/
theorem ThroughputInv.accounted {run : Run} {w : DataWarehouse} (honce : EndsOnce run)
    (hhash : NoCollision X run) (h : ThroughputInv (latestStartAt X run) (keyedEnds X run) w)
    (hsettled : ∀ entry ∈ w.tEndData.toMultiset, latestStartAt X run entry.1.2 = none) :
    ThroughputAccounted X run w := by
  obtain ⟨counted, hbalance, hstarted, hcount⟩ := h.balance
  refine ⟨?_, ?_, h.startComputing, h.endComputing⟩
  · intro peer
    have hnone : w.tEndData.toMultiset.countP (fun entry ↦
        entry.1.1 = peer ∧ (latestStartAt X run entry.1.2).isSome = true) = 0 := by
      apply Multiset.countP_eq_zero.2
      intro entry hentry hboth
      rw [hsettled entry hentry] at hboth
      exact Bool.noConfusion hboth.2
    have hall : counted.countP (fun entry ↦
        entry.1.1 = peer ∧ (latestStartAt X run entry.1.2).isSome = true) =
          counted.countP fun entry ↦ entry.1.1 = peer := by
      apply Multiset.countP_congr rfl
      intro entry hentry
      exact propext (and_iff_left (hstarted entry hentry))
    calc
      w.midCount peer = counted.countP fun entry ↦ entry.1.1 = peer := hcount peer
      _ = (w.tEndData.toMultiset + counted).countP fun entry ↦
          entry.1.1 = peer ∧ (latestStartAt X run entry.1.2).isSome = true := by
        rw [Multiset.countP_add, hnone, hall, Nat.zero_add]
      _ = (completedRequests run peer).card := by
        rw [← hbalance, Multiset.coe_countP, card_completedRequests honce hhash]
  · intro entry hentry hnot
    have hkeyed : keyedEnd X entry ∈ keyedEnds X run := List.mem_map_of_mem hentry
    apply hbalance.lookup (Multiset.mem_coe.2 hkeyed)
    intro hcounted
    have hstart := (mem_startedRequests hhash hentry).2 (hstarted _ hcounted)
    exact hnot (mem_completedRequests.2 ⟨⟨entry.2, hentry, rfl⟩, hstart⟩)

theorem exists_throughputStep {w w' : DataWarehouse} {op : Op} {rows : List Row}
    (htaken : step X w op = some (w', rows)) (hcompute : op.computesThroughput = true) :
    ∃ row, ThroughputStep X row w w' rows := by
  cases step_effect htaken with
  | throughput htaken | scalabilityThroughput htaken => exact ⟨_, htaken⟩
  | _ => exact Bool.noConfusion hcompute

/-- Right after every computation of the throughput, the accounts agree with the records stored so far. -/
theorem throughputAccounted_of_compute {w final : DataWarehouse} {run before after : Run}
    {t : Transition DataWarehouse Op (List Row)} (h : IsRun (step X) w.reset run final)
    (hreset : ∀ t ∈ run, t.event.isReset = false) (honce : EndsOnce run) (hhash : NoCollision X run)
    (hsplit : run = before ++ t :: after) (hcompute : t.event.computesThroughput = true) :
    ThroughputAccounted X before t.post ∧ LatestStartsKept X before t.post := by
  subst hsplit
  obtain ⟨hbefore, htaken⟩ := h.before rfl
  have honce := honce.of_append
  have hhash := hhash.of_append
  have hinv := throughputInv_of_isRun hbefore
    (fun t ht ↦ hreset t (List.mem_append.2 (.inl ht))) (endKeysOnce honce hhash)
  obtain ⟨row, hstep⟩ := exists_throughputStep htaken hcompute
  obtain ⟨hafter, hsettled⟩ := hinv.compute hstep
  refine ⟨hafter.accounted honce hhash hsettled, ?_⟩
  intro data hdata
  rw [hafter.started, latestStartAt_eq hhash (mem_storedRequests_of_start hdata)]

/-- A request whose start record arrives after the end record of one peer and before that of another,
with a computation after each. -/
def lateStartOps : List Op :=
  [.storeConsensusEndData [1] ⟨⟨"a"⟩, 7⟩,
    .computeThroughput [(([1], "a"), ⟨⟨"a"⟩, 7⟩)] [],
    .storeConsensusStartData [9] ⟨⟨"a"⟩, 5⟩,
    .storeConsensusEndData [2] ⟨⟨"a"⟩, 8⟩,
    .computeThroughput [(([1], "a"), ⟨⟨"a"⟩, 7⟩), (([2], "a"), ⟨⟨"a"⟩, 8⟩)] [([1], 1), ([2], 1)]]

theorem throughputAccounted_of_compute_late_start :
    ∃ before t after,
      transitions (step Externals.transparent) DataWarehouse.new.reset lateStartOps = before ++ t :: after ∧
      before.length = 4 ∧ ThroughputAccounted Externals.transparent before t.post ∧
      LatestStartsKept Externals.transparent before t.post := by
  have hrun : IsRun (step Externals.transparent) DataWarehouse.new.reset _ _ :=
    IsRun.of_isSome (by decide +kernel : (exec (step Externals.transparent) _ lateStartOps).isSome = true)
  have hsplit := eq_take_append_cons_drop
    (transitions (step Externals.transparent) DataWarehouse.new.reset lateStartOps) 4 (by decide +kernel)
  refine ⟨_, _, _, hsplit, by decide +kernel, ?_⟩
  exact throughputAccounted_of_compute hrun (by decide +kernel) (by decide +kernel)
    (noCollision_transparent _) hsplit (by decide +kernel)

/-- Two start records of one request: the first one is replaced. -/
def repeatedStartOps : List Op :=
  [.storeConsensusStartData [1] ⟨⟨"a"⟩, 11⟩, .storeConsensusStartData [2] ⟨⟨"a"⟩, 12⟩,
    .computeThroughput [] []]

theorem not_startsKept_of_repeated_start :
    ¬ ∀ (X : Externals) (w final : DataWarehouse) (run before after : Run)
      (t : Transition DataWarehouse Op (List Row)),
      IsRun (step X) w.reset run final → (∀ t ∈ run, t.event.isReset = false) → EndsOnce run →
      NoCollision X run → run = before ++ t :: after → t.event.computesThroughput = true →
      ThroughputAccounted X before t.post ∧ StartsKept X before t.post := by
  intro hclaim
  have hrun : IsRun (step Externals.transparent) DataWarehouse.new.reset _ _ :=
    IsRun.of_isSome (by decide +kernel : (exec (step Externals.transparent) _ repeatedStartOps).isSome = true)
  have hsplit := eq_take_append_cons_drop
    (transitions (step Externals.transparent) DataWarehouse.new.reset repeatedStartOps) 2 (by decide +kernel)
  have hkept := (hclaim _ _ _ _ _ _ _ hrun (by decide +kernel) (by decide +kernel)
    (noCollision_transparent _) hsplit (by decide +kernel)).2
  have hlookup := hkept ⟨⟨"a"⟩, 11⟩ (by decide +kernel)
  revert hlookup
  decide +kernel

end BFTDiagnosis.Analyzer
