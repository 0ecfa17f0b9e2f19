import BFTDiagnosis.Analyzer.Steps

/-!
# Latency accounting

`compute_latency` reports the latency of an end record when the start record of its request is there and
the difference of the times is at most 100000. Everything else is carried over to the next computation.
`compute_scalability_latency` does not carry over the start records.
-/

namespace BFTDiagnosis.Analyzer

open Components DataWarehouse

variable {X : Externals}

/-! ## Reported rows -/

/-- The row of `insert_latency_result`. -/
def Row.latencyResult : Row → Option Latency
  | .latency peer request value => some (peer, request, value)
  | _ => none

/-- The row of `insert_scalability_latency_result`, without the test item. -/
def Row.scalabilityLatencyResult : Row → Option Latency
  | .scalabilityLatency _ peer request value => some (peer, request, value)
  | _ => none

/-- The latencies of one kind that a run has inserted. -/
def results (kind : Row → Option Latency) (run : Run) : Multiset Latency :=
  ((run.flatMap (·.out)).filterMap kind : List Latency)

theorem results_concat (kind : Row → Option Latency) (run : Run)
    (t : Transition DataWarehouse Op (List Row)) :
    results kind (run ++ [t]) = results kind run + (t.out.filterMap kind : List Latency) := by
  unfold results
  rw [List.flatMap_append, List.filterMap_append, ← Multiset.coe_add, List.flatMap_singleton]

/-- What is read off the rows of one computation. -/
theorem coe_filterMap_rows {α : Type} {kind : Row → Option Latency} {rows : List Row} {entries : Multiset α}
    {row : α → Row} (h : (rows : Multiset Row) = entries.map row) :
    ((rows.filterMap kind : List Latency) : Multiset Latency) =
      entries.filterMap fun entry ↦ kind (row entry) := by
  rw [← Multiset.filterMap_coe, h, Multiset.filterMap_map]
  rfl

/-- Rows of the throughput are no latencies. -/
theorem filterMap_throughputRows {kind : Row → Option Latency} {row : UInt64 → PeerId → UInt64 → Row}
    {w w' : DataWarehouse} {rows : List Row} (h : ThroughputStep X row w w' rows)
    (hkind : ∀ round peer throughput, kind (row round peer throughput) = none) :
    ((rows.filterMap kind : List Latency) : Multiset Latency) = 0 := by
  rw [coe_filterMap_rows h.rows]
  exact filterMap_eq_zero_of_forall fun entry _ ↦ hkind _ _ _

/-! ## The invariant -/

/-- The latency data agrees with the records stored so far and with the latencies reported so far. -/
structure LatencyInv (starts : String → Option ConsensusStartData)
    (ends : List (EndKey × ConsensusEndData)) (reported : Multiset Latency) (w : DataWarehouse) : Prop where
  started : w.lStartData.get = starts
  balance : ∃ done, HashMap.Balanced (ends : Multiset (EndKey × ConsensusEndData)) w.lEndData done ∧
    (∀ entry ∈ done, (reportedLatency starts entry).isSome = true) ∧
    reported = done.filterMap (reportedLatency starts)

theorem reportedLatency_startsAfter {starts : String → Option ConsensusStartData}
    {data : ConsensusStartData} (hfresh : starts (getRequestHash X data.request) = none)
    {entry : EndKey × ConsensusEndData} (h : (reportedLatency starts entry).isSome = true) :
    reportedLatency (startsAfter X starts (some data)) entry = reportedLatency starts entry := by
  have hne : entry.1.2 ≠ getRequestHash X data.request := by
    intro heq
    rw [reportedLatency, latencyOf, heq, hfresh] at h
    exact Bool.noConfusion h
  simp only [reportedLatency, latencyOf, startsAfter_some, if_neg hne]

theorem LatencyInv.reset (w : DataWarehouse) : LatencyInv (fun _ ↦ none) [] 0 w.reset where
  started := rfl
  balance := ⟨0, HashMap.Balanced.empty, by simp, rfl⟩

theorem LatencyInv.storeStart {starts : String → Option ConsensusStartData}
    {ends : List (EndKey × ConsensusEndData)} {reported : Multiset Latency} {w : DataWarehouse}
    (h : LatencyInv starts ends reported w) (data : ConsensusStartData)
    (hfresh : starts (getRequestHash X data.request) = none) :
    LatencyInv (startsAfter X starts (some data)) ends reported (w.storeConsensusStartData X data) where
  started := funext (lookup_insert_start (congrFun h.started) data)
  balance := by
    obtain ⟨done, hbalance, hdone, hreported⟩ := h.balance
    refine ⟨done, hbalance, fun entry hentry ↦ ?_, ?_⟩
    · rw [reportedLatency_startsAfter hfresh (hdone entry hentry)]
      exact hdone entry hentry
    · rw [hreported]
      exact filterMap_congr_of_mem fun entry hentry ↦
        (reportedLatency_startsAfter hfresh (hdone entry hentry)).symm

theorem LatencyInv.storeEnd {starts : String → Option ConsensusStartData}
    {ends : List (EndKey × ConsensusEndData)} {reported : Multiset Latency} {w : DataWarehouse}
    (h : LatencyInv starts ends reported w) (peer : PeerId) (data : ConsensusEndData)
    (hfresh : ∀ entry ∈ ends, entry.1 ≠ (keyedEnd X (peer, data)).1) :
    LatencyInv starts (ends ++ [keyedEnd X (peer, data)]) reported
      (w.storeConsensusEndData X peer data) where
  started := h.started
  balance := by
    obtain ⟨done, hbalance, hdone, hreported⟩ := h.balance
    refine ⟨done, ?_, hdone, hreported⟩
    rw [← Multiset.coe_add, Multiset.coe_singleton]
    exact hbalance.insert data hfresh

theorem ScalabilityLatencyStep.results {item : TestItem} {w w' : DataWarehouse} {rows : List Row}
    (h : ScalabilityLatencyStep item w w' rows) :
    ((rows.filterMap Row.scalabilityLatencyResult : List Latency) : Multiset Latency) =
      w.lEndData.toMultiset.filterMap (latencyOf w.lStartData.get) := by
  rw [coe_filterMap_rows h.rows]
  exact Multiset.filterMap_some _

theorem LatencyStep.results {w w' : DataWarehouse} {rows : List Row} (h : LatencyStep w w' rows) :
    ((rows.filterMap Row.latencyResult : List Latency) : Multiset Latency) =
      w.lEndData.toMultiset.filterMap (reportedLatency w.lStartData.get) := by
  rw [coe_filterMap_rows h.rows]
  exact Multiset.filterMap_some _

/-- A computation reports the latencies that can be reported, and leaves none of their end records. -/
theorem LatencyInv.compute {starts : String → Option ConsensusStartData}
    {ends : List (EndKey × ConsensusEndData)} {reported : Multiset Latency} {w w' : DataWarehouse}
    {rows : List Row} (h : LatencyInv starts ends reported w) (htaken : LatencyStep w w' rows) :
    LatencyInv starts ends (reported + (rows.filterMap Row.latencyResult : List Latency)) w' ∧
      ∀ entry ∈ w'.lEndData.toMultiset, reportedLatency starts entry = none := by
  obtain ⟨done, hbalance, hdone, hreported⟩ := h.balance
  have hends : w'.lEndData =
      w.lEndData.retain fun key data ↦ !(reportedLatency starts (key, data)).isSome := by
    rw [htaken.frame, h.started]
  refine ⟨⟨?_, ?_⟩, ?_⟩
  · rw [htaken.frame]
    exact h.started
  · refine ⟨done + w.lEndData.toMultiset.filter fun entry ↦ (reportedLatency starts entry).isSome = true,
      ?_, ?_, ?_⟩
    · rw [hends]
      exact hbalance.retain _
    · intro entry hentry
      rcases Multiset.mem_add.1 hentry with hbefore | hnow
      · exact hdone entry hbefore
      · exact (Multiset.mem_filter.1 hnow).2
    · rw [htaken.results, Multiset.filterMap_add, filterMap_filter_isSome, hreported, h.started]
  · intro entry hentry
    rw [hends] at hentry
    have hnot := HashMap.eq_false_of_mem_retain (fun entry ↦ (reportedLatency starts entry).isSome) hentry
    exact Option.isNone_iff_eq_none.1 (Option.isSome_eq_false_iff.1 hnot)

/-- The calls that leave the latency data alone or compute the latency. -/
def Op.keepsLatency : Op → Bool
  | .computeScalabilityLatency .. => false
  | .reset => false
  | _ => true

theorem LatencyInv.step {starts : String → Option ConsensusStartData}
    {ends : List (EndKey × ConsensusEndData)} {reported : Multiset Latency} {w w' : DataWarehouse} {op : Op}
    {rows : List Row} (h : LatencyInv starts ends reported w) (htaken : step X w op = some (w', rows))
    (hop : op.keepsLatency = true)
    (hstart : ∀ data ∈ op.startData, starts (getRequestHash X data.request) = none)
    (hend : ∀ entry ∈ ends, ∀ stored ∈ op.endData, entry.1 ≠ (keyedEnd X stored).1) :
    LatencyInv (startsAfter X starts op.startData) (ends ++ (op.endData.map (keyedEnd X)).toList)
      (reported + (rows.filterMap Row.latencyResult : List Latency)) w' := by
  have hnone : reported + (([] : List Row).filterMap Row.latencyResult : List Latency) = reported :=
    add_zero reported
  have hsame := append_keyedEnd_of_none (X := X) ends op
  cases step_effect htaken with
  | start =>
    rw [hnone, hsame rfl]
    exact h.storeStart _ (hstart _ rfl)
  | finish =>
    rw [hnone]
    exact h.storeEnd _ _ fun entry hentry ↦ hend entry hentry _ rfl
  | latency htaken =>
    rw [hsame rfl]
    exact (h.compute htaken).1
  | throughput htaken | scalabilityThroughput htaken =>
    rw [hsame rfl, filterMap_throughputRows htaken (fun _ _ _ ↦ rfl), add_zero]
    obtain ⟨counts, round, rfl⟩ := htaken.frame
    exact ⟨h.started, h.balance⟩
  | crash | malicious | crashNode | interval =>
    rw [hnone, hsame rfl]
    exact ⟨h.started, h.balance⟩
  | scalabilityLatency | reset => exact Bool.noConfusion hop

theorem latencyInv_of_isRun {w final : DataWarehouse} {run : Run}
    (h : IsRun (step X) w.reset run final) (hops : ∀ t ∈ run, t.event.keepsLatency = true)
    (hstarts : StartKeysOnce X run) (hends : EndKeysOnce X run) :
    LatencyInv (latestStartAt X run) (keyedEnds X run) (results Row.latencyResult run) final := by
  have hinitial : StartKeysOnce X [] → EndKeysOnce X [] →
      LatencyInv (latestStartAt X []) (keyedEnds X []) (results Row.latencyResult []) w.reset :=
    fun _ _ ↦ .reset w
  revert hstarts hends
  apply IsRun.induction_of_forall hinitial ?_ h hops
  intro run w op rows w' hinv hop htaken hstarts hends
  have hfreshStart := hstarts.fresh
  have hfreshEnd := hends.fresh
  rw [latestStartAt_concat, keyedEnds_concat, results_concat]
  exact (hinv hfreshStart.1 hfreshEnd.1).step htaken hop hfreshStart.2 hfreshEnd.2

/-! ## The accounts -/

def Op.computesLatency : Op → Bool
  | .computeLatency .. => true
  | _ => false

/-- Exactly the latencies of the stored pairs of records are reported, each of them once, and every other
end record is still there. The difference of the times is the one of `u64` values, modulo 2 ^ 64. -/
structure LatencyAccounted (X : Externals) (run : Run) (w : DataWarehouse) : Prop where
  nodup : (results Row.latencyResult run).Nodup
  mem : ∀ peer request latency, (peer, request, latency) ∈ results Row.latencyResult run ↔
    ∃ endData startData, (peer, endData) ∈ storedEnds run ∧ startData ∈ storedStarts run ∧
      endData.request = request ∧ startData.request = request ∧
      latency = endData.completedTime - startData.startTime ∧ latency ≤ 100000
  ends : ∀ peer endData, (peer, endData) ∈ storedEnds run →
    (∀ startData ∈ storedStarts run, startData.request = endData.request →
      ¬ endData.completedTime - startData.startTime ≤ 100000) →
    w.lEndData.lookup (peer, getRequestHash X endData.request) = some endData

theorem reportedLatency_eq_some_iff {starts : String → Option ConsensusStartData}
    {entry : EndKey × ConsensusEndData} {latency : Latency} :
    reportedLatency starts entry = some latency ↔ ∃ startData, starts entry.1.2 = some startData ∧
      entry.2.completedTime - startData.startTime ≤ 100000 ∧
      latency = (entry.1.1, startData.request, entry.2.completedTime - startData.startTime) := by
  unfold reportedLatency latencyOf
  rw [Option.filter_eq_some_iff]
  constructor
  · rintro ⟨hlatency, hle⟩
    obtain ⟨startData, hstart, rfl⟩ := Option.map_eq_some_iff.1 hlatency
    exact ⟨startData, hstart, of_decide_eq_true hle, rfl⟩
  · rintro ⟨startData, hstart, hle, rfl⟩
    exact ⟨Option.map_eq_some_iff.2 ⟨startData, hstart, rfl⟩, decide_eq_true hle⟩

/-- A latency that is reported is the one of the records. -/
theorem reportedLatency_eq_latencyOf {starts : String → Option ConsensusStartData}
    {entry : EndKey × ConsensusEndData} (h : (reportedLatency starts entry).isSome = true) :
    reportedLatency starts entry = latencyOf starts entry := by
  obtain ⟨latency, hreported⟩ := Option.isSome_iff_exists.1 h
  rw [hreported]
  exact (Option.filter_eq_some_iff.1 hreported).1.symm

/-- The latency that is reported for a stored end record, by the records of the run. -/
theorem reportedLatency_keyedEnd {run : Run} (hstarts : StartsOnce run) (hhash : NoCollision X run)
    {entry : PeerId × ConsensusEndData} (hentry : entry ∈ storedEnds run) {latency : Latency} :
    reportedLatency (latestStartAt X run) (keyedEnd X entry) = some latency ↔
      ∃ startData ∈ storedStarts run, startData.request = entry.2.request ∧
        entry.2.completedTime - startData.startTime ≤ 100000 ∧
        latency = (entry.1, startData.request, entry.2.completedTime - startData.startTime) := by
  rw [reportedLatency_eq_some_iff]
  apply exists_congr
  intro startData
  have hstart : latestStartAt X run (keyedEnd X entry).1.2 = some startData ↔
      startData ∈ storedStarts run ∧ startData.request = entry.2.request := by
    rw [latestStartAt_eq_some_iff (startKeysOnce hstarts hhash)]
    apply and_congr_right
    intro hmem
    constructor
    · exact hhash (mem_storedRequests_of_start hmem) (mem_storedRequests_of_end hentry)
    · exact congrArg (getRequestHash X)
  rw [hstart, and_assoc]
  rfl

/-- The latencies that can be reported for the end records of a run. -/
def reportedLatencies (X : Externals) (run : Run) : List Latency :=
  (storedEnds run).filterMap fun entry ↦ reportedLatency (latestStartAt X run) (keyedEnd X entry)

theorem nodup_reportedLatencies {run : Run} (hstarts : StartsOnce run) (hends : EndsOnce run)
    (hhash : NoCollision X run) : (reportedLatencies X run).Nodup := by
  rw [reportedLatencies, List.Nodup, List.pairwise_filterMap]
  apply (List.pairwise_map.1 hends).imp_of_mem
  intro entry entry' hentry hentry' hne latency hlatency latency' hlatency' heq
  obtain ⟨startData, -, hrequest, -, rfl⟩ := (reportedLatency_keyedEnd hstarts hhash hentry).1 hlatency
  obtain ⟨startData', -, hrequest', -, rfl⟩ := (reportedLatency_keyedEnd hstarts hhash hentry').1 hlatency'
  have hparts := Prod.mk.inj heq
  have hrequests : entry.2.request = entry'.2.request := by
    rw [← hrequest, ← hrequest', (Prod.mk.inj hparts.2).1]
  exact hne (Prod.ext hparts.1 hrequests)

theorem mem_reportedLatencies {run : Run} (hstarts : StartsOnce run) (hhash : NoCollision X run)
    {peer : PeerId} {request : Request} {latency : UInt64} :
    (peer, request, latency) ∈ reportedLatencies X run ↔
      ∃ endData startData, (peer, endData) ∈ storedEnds run ∧ startData ∈ storedStarts run ∧
        endData.request = request ∧ startData.request = request ∧
        latency = endData.completedTime - startData.startTime ∧ latency ≤ 100000 := by
  rw [reportedLatencies, List.mem_filterMap]
  constructor
  · rintro ⟨⟨peer', endData⟩, hentry, hlatency⟩
    obtain ⟨startData, hstart, hrequest, hle, heq⟩ :=
      (reportedLatency_keyedEnd hstarts hhash hentry).1 hlatency
    obtain ⟨rfl, rfl, rfl⟩ : peer = peer' ∧ request = startData.request ∧
        latency = endData.completedTime - startData.startTime := by simpa using heq
    exact ⟨endData, startData, hentry, hstart, hrequest.symm, rfl, rfl, hle⟩
  · rintro ⟨endData, startData, hentry, hstart, rfl, hrequest, rfl, hle⟩
    refine ⟨(peer, endData), hentry, (reportedLatency_keyedEnd hstarts hhash hentry).2 ?_⟩
    exact ⟨startData, hstart, hrequest, hle, by rw [hrequest]⟩

/-- When no end record is left that can be reported, all latencies have been. -/
theorem LatencyInv.results_eq {run : Run} {w : DataWarehouse}
    (h : LatencyInv (latestStartAt X run) (keyedEnds X run) (results Row.latencyResult run) w)
    (hsettled : ∀ entry ∈ w.lEndData.toMultiset, reportedLatency (latestStartAt X run) entry = none) :
    results Row.latencyResult run = (reportedLatencies X run : Multiset Latency) := by
  obtain ⟨done, hbalance, -, hreported⟩ := h.balance
  calc
    results Row.latencyResult run =
        (w.lEndData.toMultiset + done).filterMap (reportedLatency (latestStartAt X run)) := by
      rw [Multiset.filterMap_add, filterMap_eq_zero_of_forall hsettled, zero_add, hreported]
    _ = ((keyedEnds X run).filterMap (reportedLatency (latestStartAt X run)) : List Latency) := by
      rw [← hbalance, Multiset.filterMap_coe]
    _ = _ := by
      rw [keyedEnds, List.filterMap_map]
      rfl

/-- After all end records that can be reported have been, the latencies are accounted for. -/
theorem LatencyInv.accounted {run : Run} {w : DataWarehouse} (hstarts : StartsOnce run)
    (hends : EndsOnce run) (hhash : NoCollision X run)
    (h : LatencyInv (latestStartAt X run) (keyedEnds X run) (results Row.latencyResult run) w)
    (hsettled : ∀ entry ∈ w.lEndData.toMultiset, reportedLatency (latestStartAt X run) entry = none) :
    LatencyAccounted X run w := by
  obtain ⟨done, hbalance, hdone, -⟩ := h.balance
  have hresults := h.results_eq hsettled
  refine ⟨?_, ?_, ?_⟩
  · rw [hresults]
    exact Multiset.coe_nodup.2 (nodup_reportedLatencies hstarts hends hhash)
  · intro peer request latency
    rw [hresults, Multiset.mem_coe]
    exact mem_reportedLatencies hstarts hhash
  · intro peer endData hentry hnot
    have hkeyed : keyedEnd X (peer, endData) ∈ keyedEnds X run := List.mem_map_of_mem hentry
    apply hbalance.lookup (Multiset.mem_coe.2 hkeyed)
    intro hmem
    obtain ⟨latency, hlatency⟩ := Option.isSome_iff_exists.1 (hdone _ hmem)
    obtain ⟨startData, hstart, hrequest, hle, -⟩ :=
      (reportedLatency_keyedEnd hstarts hhash hentry).1 hlatency
    exact hnot startData hstart hrequest hle

/-- After a final computation of the latency, the latencies of the run are accounted for. -/
theorem latencyAccounted_of_compute {w final : DataWarehouse} {run : Run}
    {t : Transition DataWarehouse Op (List Row)} (h : IsRun (step X) w.reset (run ++ [t]) final)
    (hops : ∀ taken ∈ run ++ [t], taken.event.keepsLatency = true) (hstarts : StartsOnce (run ++ [t]))
    (hends : EndsOnce (run ++ [t])) (hhash : NoCollision X (run ++ [t]))
    (hlast : t.event.computesLatency = true) : LatencyAccounted X (run ++ [t]) final := by
  obtain ⟨hbefore, htaken⟩ := h.before rfl
  have hinv := latencyInv_of_isRun hbefore (fun t ht ↦ hops t (List.mem_append.2 (.inl ht)))
    (startKeysOnce hstarts.of_append hhash.of_append) (endKeysOnce hends.of_append hhash.of_append)
  have hall := latencyInv_of_isRun h hops (startKeysOnce hstarts hhash) (endKeysOnce hends hhash)
  apply hall.accounted hstarts hends hhash
  cases hevent : t.event with
  | computeLatency order =>
    rw [hevent] at htaken
    have hsettled := (hinv.compute (computeLatency_spec htaken)).2
    rw [latestStartAt_concat, hevent, ← h.post_of_concat]
    exact hsettled
  | _ =>
    rw [hevent] at hlast
    exact Bool.noConfusion hlast

/-- One end record precedes its start record and is reported by the second computation; the other one has
a completion time before the start time and is not reported. -/
def wrappedLatencyOps : List Op :=
  [.storeConsensusEndData [1] ⟨⟨"a"⟩, 7⟩,
    .computeLatency [(([1], "a"), ⟨⟨"a"⟩, 7⟩)],
    .storeConsensusStartData [9] ⟨⟨"a"⟩, 5⟩,
    .storeConsensusEndData [2] ⟨⟨"a"⟩, 4⟩,
    .computeLatency [(([1], "a"), ⟨⟨"a"⟩, 7⟩), (([2], "a"), ⟨⟨"a"⟩, 4⟩)]]

theorem latencyAccounted_of_compute_wrapped :
    LatencyAccounted Externals.transparent
        (transitions (step Externals.transparent) DataWarehouse.new.reset wrappedLatencyOps)
        (final (step Externals.transparent) DataWarehouse.new.reset wrappedLatencyOps) ∧
      results Row.latencyResult
        (transitions (step Externals.transparent) DataWarehouse.new.reset wrappedLatencyOps) =
          {([1], ⟨"a"⟩, 2)} := by
  have hrun : IsRun (step Externals.transparent) DataWarehouse.new.reset _ _ :=
    IsRun.of_isSome (by decide +kernel : (exec (step Externals.transparent) _ wrappedLatencyOps).isSome = true)
  have hsplit := List.dropLast_append_getLast (List.ne_nil_of_length_pos
    (by decide +kernel :
      0 < (transitions (step Externals.transparent) DataWarehouse.new.reset wrappedLatencyOps).length))
  refine ⟨?_, by decide +kernel⟩
  rw [← hsplit] at hrun ⊢
  exact latencyAccounted_of_compute hrun (by decide +kernel) (by decide +kernel) (by decide +kernel)
    (noCollision_transparent _) (by decide +kernel)

end BFTDiagnosis.Analyzer
