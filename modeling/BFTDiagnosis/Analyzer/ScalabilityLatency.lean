import BFTDiagnosis.Analyzer.Latency
import BFTDiagnosis.Lib.Sequence

/-!
# Latencies of scalability tests

The same records and the same interval ticks, once with `compute_latency` and once with
`compute_scalability_latency` at the ticks. The second one forgets the start records at every tick: an end
record that comes after the first tick behind its start record is never reported.
-/

namespace BFTDiagnosis.Analyzer

open Components DataWarehouse

variable {X : Externals}

/-! ## Interleavings -/

/-- What happens to the latency data: a record is stored, or the interval ends. -/
inductive LatencyEvent where
  | start (data : ConsensusStartData)
  | finish (peer : PeerId) (data : ConsensusEndData)
  | tick
deriving DecidableEq

def Op.latencyEvent : Op → Option LatencyEvent
  | .storeConsensusStartData _ data => some (.start data)
  | .storeConsensusEndData originPeerId data => some (.finish originPeerId data)
  | .computeLatency _ => some .tick
  | .computeScalabilityLatency .. => some .tick
  | _ => none

/-- The stores and ticks of a run, oldest first. -/
def interleaving (run : Run) : List LatencyEvent := run.filterMap (·.event.latencyEvent)

/-- The calls that leave the latency data alone or compute the latency of a scalability test. -/
def Op.keepsScalabilityLatency : Op → Bool
  | .computeLatency _ => false
  | .reset => false
  | _ => true

/-- A run since a reset with the given stores and ticks that makes only calls of one kind. -/
def TickRun (X : Externals) (w : DataWarehouse) (allowed : Op → Bool) (events : List LatencyEvent)
    (run : Run) : Prop :=
  (∃ final, IsRun (step X) w.reset run final) ∧ (∀ t ∈ run, allowed t.event = true) ∧
    interleaving run = events

/-- `compute_latency` is called at the ticks. -/
def PlainRun (X : Externals) (w : DataWarehouse) (events : List LatencyEvent) (run : Run) : Prop :=
  TickRun X w Op.keepsLatency events run

/-- `compute_scalability_latency` is called at the ticks. -/
def ScalabilityRun (X : Externals) (w : DataWarehouse) (events : List LatencyEvent) (run : Run) : Prop :=
  TickRun X w Op.keepsScalabilityLatency events run

def LatencyEvent.startData : LatencyEvent → Option ConsensusStartData
  | .start data => some data
  | _ => none

def LatencyEvent.endData : LatencyEvent → Option (PeerId × ConsensusEndData)
  | .finish peer data => some (peer, data)
  | _ => none

variable (X) in
/-- Every start key and every end key is stored at most once. -/
def KeysOnce (events : List LatencyEvent) : Prop :=
  ((events.filterMap LatencyEvent.startData).map fun data ↦ getRequestHash X data.request).Nodup ∧
    ((events.filterMap LatencyEvent.endData).map fun entry ↦
      (entry.1, getRequestHash X entry.2.request)).Nodup

variable (X) in
/-- Every completion time is at most 100000 after the start time. -/
def InRange (events : List LatencyEvent) : Prop :=
  ∀ startData peer endData, .start startData ∈ events → .finish peer endData ∈ events →
    getRequestHash X startData.request = getRequestHash X endData.request →
    startData.startTime ≤ endData.completedTime ∧
      endData.completedTime - startData.startTime ≤ 100000

instance (events : List LatencyEvent) : Decidable (KeysOnce X events) :=
  inferInstanceAs (Decidable (_ ∧ _))

/-- The two computations report the same latencies for an interleaving. -/
def LatenciesAgree (X : Externals) (w : DataWarehouse) (events : List LatencyEvent) : Prop :=
  (∃ run, ScalabilityRun X w events run) ∧ ∀ run run', PlainRun X w events run →
    ScalabilityRun X w events run' →
      results Row.scalabilityLatencyResult run' = results Row.latencyResult run

/-- No end record that is followed by a tick comes after the first tick behind its start record. -/
def StartsCurrent (X : Externals) (events : List LatencyEvent) : Prop :=
  ∀ startData peer endData, getRequestHash X startData.request = getRequestHash X endData.request →
    ¬ [.start startData, .tick, .finish peer endData, .tick].Sublist events

theorem interleaving_concat (run : Run) (t : Transition DataWarehouse Op (List Row)) :
    interleaving (run ++ [t]) = interleaving run ++ t.event.latencyEvent.toList := filterMap_concat ..

theorem storedStarts_eq (run : Run) :
    storedStarts run = (interleaving run).filterMap LatencyEvent.startData := by
  rw [interleaving, List.filterMap_filterMap, storedStarts]
  congr 1
  funext t
  cases t.event <;> rfl

theorem storedEnds_eq (run : Run) :
    storedEnds run = (interleaving run).filterMap LatencyEvent.endData := by
  rw [interleaving, List.filterMap_filterMap, storedEnds]
  congr 1
  funext t
  cases t.event <;> rfl

/-- The interleaving determines the records of a run. -/
theorem latestStartAt_eq_of_interleaving {run run' : Run} (h : interleaving run = interleaving run') :
    latestStartAt X run = latestStartAt X run' := by
  funext requestHash
  rw [latestStartAt, latestStartAt, storedStarts_eq, storedStarts_eq, h]

theorem keyedEnds_eq_of_interleaving {run run' : Run} (h : interleaving run = interleaving run') :
    keyedEnds X run = keyedEnds X run' := by
  rw [keyedEnds, keyedEnds, storedEnds_eq, storedEnds_eq, h]

theorem start_mem_interleaving {run : Run} {data : ConsensusStartData} :
    .start data ∈ interleaving run ↔ data ∈ storedStarts run := by
  rw [storedStarts_eq, List.mem_filterMap]
  constructor
  · intro h
    exact ⟨_, h, rfl⟩
  · rintro ⟨event, hevent, hdata⟩
    cases event with
    | start data' =>
      rw [← Option.some.inj hdata]
      exact hevent
    | finish | tick => cases hdata

theorem finish_mem_interleaving {run : Run} {peer : PeerId} {data : ConsensusEndData} :
    .finish peer data ∈ interleaving run ↔ (peer, data) ∈ storedEnds run := by
  rw [storedEnds_eq, List.mem_filterMap]
  constructor
  · intro h
    exact ⟨_, h, rfl⟩
  · rintro ⟨event, hevent, hdata⟩
    cases event with
    | finish peer' data' =>
      obtain ⟨rfl, rfl⟩ := Prod.mk.inj (Option.some.inj hdata)
      exact hevent
    | start | tick => cases hdata

theorem KeysOnce.startKeysOnce {run : Run} (h : KeysOnce X (interleaving run)) : StartKeysOnce X run := by
  rw [StartKeysOnce, storedStarts_eq]
  exact h.1

theorem KeysOnce.endKeysOnce {run : Run} (h : KeysOnce X (interleaving run)) : EndKeysOnce X run := by
  rw [EndKeysOnce, keyedEnds, List.map_map, storedEnds_eq]
  exact h.2

theorem KeysOnce.of_append {events later : List LatencyEvent} (h : KeysOnce X (events ++ later)) :
    KeysOnce X events := by
  unfold KeysOnce at h
  rw [List.filterMap_append, List.map_append, List.filterMap_append, List.map_append] at h
  exact ⟨(List.nodup_append.1 h.1).1, (List.nodup_append.1 h.2).1⟩

theorem InRange.of_append {events later : List LatencyEvent} (h : InRange X (events ++ later)) :
    InRange X events := by
  intro startData peer endData hstart hend hhash
  exact h startData peer endData (List.mem_append.2 (.inl hstart)) (List.mem_append.2 (.inl hend)) hhash

theorem keyedEnd_injective : Function.Injective (keyedEnd X) := by
  intro entry entry' heq
  have hparts := Prod.mk.inj heq
  exact Prod.ext (Prod.mk.inj hparts.1).1 hparts.2

theorem keyedEnd_mem_keyedEnds {run : Run} {stored : PeerId × ConsensusEndData} :
    keyedEnd X stored ∈ keyedEnds X run ↔ .finish stored.1 stored.2 ∈ interleaving run := by
  rw [finish_mem_interleaving, mem_keyedEnds]
  constructor
  · rintro ⟨stored', hstored, heq⟩
    rw [← keyedEnd_injective heq]
    exact hstored
  · intro hstored
    exact ⟨stored, hstored, rfl⟩

theorem KeysOnce.latestStartAt_iff {run : Run} (h : KeysOnce X (interleaving run)) {requestHash : String}
    {data : ConsensusStartData} : latestStartAt X run requestHash = some data ↔
      .start data ∈ interleaving run ∧ getRequestHash X data.request = requestHash := by
  rw [latestStartAt_eq_some_iff h.startKeysOnce, start_mem_interleaving]

/-! ## Which end records are reported -/

/-- An end record is reported by `compute_latency`: ticks follow both records. -/
def PlainDone (X : Externals) (events : List LatencyEvent) (stored : PeerId × ConsensusEndData) : Prop :=
  [.finish stored.1 stored.2, .tick].Sublist events ∧
    ∃ startData, getRequestHash X startData.request = getRequestHash X stored.2.request ∧
      [.start startData, .tick].Sublist events

theorem plainDone_concat {events : List LatencyEvent} {event : LatencyEvent} (h : event ≠ .tick)
    {stored : PeerId × ConsensusEndData} :
    PlainDone X (events ++ [event]) stored ↔ PlainDone X events stored := by
  simp only [PlainDone, pair_sublist_concat, h.symm, false_and, or_false]

theorem pair_tick_sublist_concat {events : List LatencyEvent} {event : LatencyEvent} :
    [event, .tick].Sublist (events ++ [.tick]) ↔ event ∈ events := by
  rw [pair_sublist_concat]
  constructor
  · rintro (hbefore | ⟨-, hmem⟩)
    · exact mem_of_pair_sublist hbefore
    · exact hmem
  · intro hmem
    exact .inr ⟨rfl, hmem⟩

theorem plainDone_concat_tick {events : List LatencyEvent} {stored : PeerId × ConsensusEndData} :
    PlainDone X (events ++ [.tick]) stored ↔ .finish stored.1 stored.2 ∈ events ∧
      ∃ startData, getRequestHash X startData.request = getRequestHash X stored.2.request ∧
        .start startData ∈ events := by
  simp only [PlainDone, pair_tick_sublist_concat]

/-- Right after a tick, the end records with a start record are those that have been reported. -/
theorem mem_done_of_settled {run : Run} {w : DataWarehouse} {reported : Multiset Latency}
    (hkeys : KeysOnce X (interleaving run)) (hrange : InRange X (interleaving run))
    (h : LatencyInv (latestStartAt X run) (keyedEnds X run) reported w)
    (hsettled : ∀ entry ∈ w.lEndData.toMultiset, reportedLatency (latestStartAt X run) entry = none)
    {done : Multiset (EndKey × ConsensusEndData)}
    (hbalance : HashMap.Balanced (keyedEnds X run : Multiset (EndKey × ConsensusEndData)) w.lEndData done)
    (stored : PeerId × ConsensusEndData) : keyedEnd X stored ∈ done ↔
      .finish stored.1 stored.2 ∈ interleaving run ∧
        ∃ startData, getRequestHash X startData.request = getRequestHash X stored.2.request ∧
          .start startData ∈ interleaving run := by
  obtain ⟨done', hbalance', hdone, -⟩ := h.balance
  obtain rfl := hbalance.dealt_eq hbalance'
  constructor
  · intro hmem
    obtain ⟨latency, hlatency⟩ := Option.isSome_iff_exists.1 (hdone _ hmem)
    obtain ⟨startData, hstart, -⟩ := reportedLatency_eq_some_iff.1 hlatency
    obtain ⟨hmemStart, hhash⟩ := hkeys.latestStartAt_iff.1 hstart
    exact ⟨keyedEnd_mem_keyedEnds.1 (Multiset.mem_coe.1 (hbalance.mem_of_mem_dealt hmem)),
      startData, hhash, hmemStart⟩
  · rintro ⟨hend, startData, hhash, hstart⟩
    by_contra hnot
    have hlookup := hbalance.lookup (Multiset.mem_coe.2 (keyedEnd_mem_keyedEnds.2 hend)) hnot
    have hnone := hsettled _ (HashMap.mem_toMultiset.2 hlookup)
    have hat : latestStartAt X run (keyedEnd X stored).1.2 = some startData :=
      hkeys.latestStartAt_iff.2 ⟨hstart, hhash⟩
    have hle : (keyedEnd X stored).2.completedTime - startData.startTime ≤ 100000 :=
      (hrange startData stored.1 stored.2 hstart hend hhash).2
    have hsome := reportedLatency_eq_some_iff.2 ⟨startData, hat, hle, rfl⟩
    exact Option.some_ne_none _ (hsome.symm.trans hnone)

/-- A call keeps the description of the end records that have been reported. -/
theorem plainDone_step {run : Run} {w w' : DataWarehouse} {op : Op} {rows : List Row}
    {before done : Multiset (EndKey × ConsensusEndData)}
    (hinv : LatencyInv (latestStartAt X run) (keyedEnds X run) (results Row.latencyResult run) w)
    (hbefore : HashMap.Balanced (keyedEnds X run : Multiset (EndKey × ConsensusEndData)) w.lEndData before)
    (hold : ∀ stored, keyedEnd X stored ∈ before ↔ PlainDone X (interleaving run) stored)
    (taken : step X w op = some (w', rows)) (hop : op.keepsLatency = true)
    (hfresh : EndKeysOnce X (run ++ [⟨w, op, rows, w'⟩])) (hkeys : KeysOnce X (interleaving run))
    (hrange : InRange X (interleaving run))
    (hbalance : HashMap.Balanced (keyedEnds X (run ++ [⟨w, op, rows, w'⟩]) :
      Multiset (EndKey × ConsensusEndData)) w'.lEndData done) (stored : PeerId × ConsensusEndData) :
    keyedEnd X stored ∈ done ↔ PlainDone X (interleaving (run ++ [⟨w, op, rows, w'⟩])) stored := by
  have hsame := append_keyedEnd_of_none (X := X) (keyedEnds X run) op
  have hkeep (hnone : op.latencyEvent = none) :
      interleaving run ++ op.latencyEvent.toList = interleaving run := by
    rw [hnone]
    exact List.append_nil _
  rw [interleaving_concat]
  rw [keyedEnds_concat] at hbalance
  cases step_effect taken with
  | start =>
    rw [hsame rfl] at hbalance
    rw [hbalance.dealt_eq hbefore, hold]
    exact (plainDone_concat (by simp)).symm
  | @finish peer data =>
    have hinserted := hbefore.insert data fun entry hentry ↦ hfresh.fresh.2 entry hentry (peer, data) rfl
    rw [← Multiset.coe_add] at hbalance
    rw [hbalance.dealt_eq hinserted, hold]
    exact (plainDone_concat (by simp)).symm
  | latency htaken =>
    rw [hsame rfl] at hbalance
    obtain ⟨hafter, hsettled⟩ := hinv.compute htaken
    rw [mem_done_of_settled hkeys hrange hafter hsettled hbalance stored]
    exact plainDone_concat_tick.symm
  | throughput htaken | scalabilityThroughput htaken =>
    obtain ⟨counts, round, rfl⟩ := htaken.frame
    rw [hsame rfl] at hbalance
    rw [hkeep rfl, hbalance.dealt_eq hbefore, hold]
  | crash | malicious | crashNode | interval =>
    rw [hsame rfl] at hbalance
    rw [hkeep rfl, hbalance.dealt_eq hbefore, hold]
  | scalabilityLatency | reset => exact Bool.noConfusion hop

theorem plainDone_iff {w final : DataWarehouse} {run : Run} (h : IsRun (step X) w.reset run final)
    (hops : ∀ t ∈ run, t.event.keepsLatency = true) (hkeys : KeysOnce X (interleaving run))
    (hrange : InRange X (interleaving run)) {done : Multiset (EndKey × ConsensusEndData)}
    (hbalance : HashMap.Balanced (keyedEnds X run : Multiset (EndKey × ConsensusEndData)) final.lEndData done)
    (stored : PeerId × ConsensusEndData) :
    keyedEnd X stored ∈ done ↔ PlainDone X (interleaving run) stored := by
  induction h generalizing done stored with
  | nil =>
    obtain rfl : 0 = done := HashMap.Balanced.empty.dealt_eq hbalance
    have hnot : ¬ PlainDone X [] stored := fun hdone ↦ List.not_mem_nil (mem_of_pair_sublist hdone.1)
    exact iff_of_false (Multiset.notMem_zero _) hnot
  | @snoc run w w' op rows previous taken ih =>
    have hfresh := hkeys.endKeysOnce
    rw [interleaving_concat] at hkeys hrange
    have hops' : ∀ t ∈ run, t.event.keepsLatency = true := fun t ht ↦ hops t (List.mem_append.2 (.inl ht))
    have hop : op.keepsLatency = true := hops _ (List.mem_append.2 (.inr (List.mem_singleton_self _)))
    have hinv := latencyInv_of_isRun previous hops' hkeys.of_append.startKeysOnce
      hkeys.of_append.endKeysOnce
    obtain ⟨before, hbefore, -⟩ := hinv.balance
    have hold := ih hops' hkeys.of_append hrange.of_append hbefore
    exact plainDone_step hinv hbefore hold taken hop hfresh hkeys.of_append hrange.of_append hbalance stored

/-- An end record is reported by `compute_scalability_latency`: ticks follow both records, and the end
record does not come after the first tick behind the start record. -/
def ScalabilityDone (X : Externals) (events : List LatencyEvent) (stored : PeerId × ConsensusEndData) : Prop :=
  [.finish stored.1 stored.2, .tick].Sublist events ∧
    ∃ startData, getRequestHash X startData.request = getRequestHash X stored.2.request ∧
      [.start startData, .tick].Sublist events ∧
      ¬ [.start startData, .tick, .finish stored.1 stored.2].Sublist events

/-- The latency data of a scalability test: only the start records since the last tick are there. -/
structure ScalabilityInv (X : Externals) (run : Run) (w : DataWarehouse) : Prop where
  started : ∀ requestHash data, w.lStartData.lookup requestHash = some data ↔
    .start data ∈ interleaving run ∧ getRequestHash X data.request = requestHash ∧
      ¬ [.start data, .tick].Sublist (interleaving run)
  balance : ∃ done,
    HashMap.Balanced (keyedEnds X run : Multiset (EndKey × ConsensusEndData)) w.lEndData done ∧
    (∀ stored, keyedEnd X stored ∈ done ↔ ScalabilityDone X (interleaving run) stored) ∧
    results Row.scalabilityLatencyResult run = done.filterMap (latencyOf (latestStartAt X run))

namespace ScalabilityInv

variable {run : Run} {w : DataWarehouse}

theorem reset (w : DataWarehouse) : ScalabilityInv X [] w.reset where
  started requestHash data := by simp [interleaving, DataWarehouse.reset]
  balance := by
    refine ⟨0, HashMap.Balanced.empty, fun stored ↦ ?_, rfl⟩
    exact iff_of_false (Multiset.notMem_zero _) fun h ↦ List.not_mem_nil (mem_of_pair_sublist h.1)

theorem mem_of_scalabilityDone {events : List LatencyEvent} {stored : PeerId × ConsensusEndData}
    (h : ScalabilityDone X events stored) : .finish stored.1 stored.2 ∈ events ∧
      ∃ startData, getRequestHash X startData.request = getRequestHash X stored.2.request ∧
        .start startData ∈ events := by
  obtain ⟨hend, startData, hhash, hstart, -⟩ := h
  exact ⟨mem_of_pair_sublist hend, startData, hhash, mem_of_pair_sublist hstart⟩

/-- The latency of a reported end record does not change when another start record is stored. -/
theorem filterMap_startsAfter {done : Multiset (EndKey × ConsensusEndData)} {data : ConsensusStartData}
    (hkeys : KeysOnce X (interleaving run))
    (hbalance : HashMap.Balanced (keyedEnds X run : Multiset (EndKey × ConsensusEndData)) w.lEndData done)
    (hdone : ∀ stored, keyedEnd X stored ∈ done ↔ ScalabilityDone X (interleaving run) stored)
    (hfresh : latestStartAt X run (getRequestHash X data.request) = none) :
    done.filterMap (latencyOf (startsAfter X (latestStartAt X run) (some data))) =
      done.filterMap (latencyOf (latestStartAt X run)) := by
  apply filterMap_congr_of_mem
  intro entry hentry
  obtain ⟨stored, -, rfl⟩ := mem_keyedEnds.1 (Multiset.mem_coe.1 (hbalance.mem_of_mem_dealt hentry))
  obtain ⟨-, startData, hhash, hstart⟩ := mem_of_scalabilityDone ((hdone stored).1 hentry)
  have hat := hkeys.latestStartAt_iff.2 ⟨hstart, hhash⟩
  have hne : (keyedEnd X stored).1.2 ≠ getRequestHash X data.request := by
    intro heq
    rw [← heq] at hfresh
    exact Option.some_ne_none _ (hat.symm.trans hfresh)
  simp only [latencyOf, startsAfter_some, if_neg hne]

/-- The start records since the last tick, after another one has been stored. -/
theorem started_storeStart (h : ScalabilityInv X run w) {data : ConsensusStartData}
    (hnew : ∀ data', getRequestHash X data'.request = getRequestHash X data.request →
      .start data' ∉ interleaving run) (requestHash : String) (data' : ConsensusStartData) :
    (w.storeConsensusStartData X data).lStartData.lookup requestHash = some data' ↔
      (.start data' ∈ interleaving run ∨ data' = data) ∧ getRequestHash X data'.request = requestHash ∧
        ¬ [.start data', .tick].Sublist (interleaving run) := by
  simp only [storeConsensusStartData]
  by_cases hhash : requestHash = getRequestHash X data.request
  · subst hhash
    rw [Finmap.lookup_insert]
    constructor
    · intro heq
      obtain rfl := Option.some.inj heq
      exact ⟨.inr rfl, rfl, fun hticked ↦ hnew data rfl (mem_of_pair_sublist hticked)⟩
    · rintro ⟨hmem, hhash, -⟩
      rw [hmem.resolve_left (hnew data' hhash)]
  · rw [Finmap.lookup_insert_of_ne _ hhash, h.started]
    constructor
    · rintro ⟨hmem, hrest⟩
      exact ⟨.inl hmem, hrest⟩
    · rintro ⟨hmem, hrest⟩
      refine ⟨hmem.resolve_right ?_, hrest⟩
      rintro rfl
      exact hhash hrest.1.symm

theorem storeStart (h : ScalabilityInv X run w) (peer : PeerId) (data : ConsensusStartData)
    (hkeys : KeysOnce X (interleaving run))
    (hfresh : latestStartAt X run (getRequestHash X data.request) = none) :
    ScalabilityInv X
      (run ++ [⟨w, .storeConsensusStartData peer data, [], w.storeConsensusStartData X data⟩])
      (w.storeConsensusStartData X data) where
  started requestHash data' := by
    have hnew (data' : ConsensusStartData) (hhash : getRequestHash X data'.request =
        getRequestHash X data.request) : .start data' ∉ interleaving run := by
      intro hmem
      have hat := hkeys.latestStartAt_iff.2 ⟨hmem, hhash⟩
      exact Option.some_ne_none _ (hat.symm.trans hfresh)
    rw [h.started_storeStart hnew]
    simp only [interleaving_concat, Op.latencyEvent, Option.toList_some, pair_sublist_concat,
      reduceCtorEq, false_and, or_false, List.mem_append, List.mem_singleton, LatencyEvent.start.injEq]
  balance := by
    obtain ⟨done, hbalance, hdone, hresults⟩ := h.balance
    refine ⟨done, ?_, fun stored ↦ ?_, ?_⟩
    · rw [keyedEnds_concat, append_keyedEnd_of_none _ _ rfl]
      exact hbalance
    · simp only [hdone, ScalabilityDone, interleaving_concat, Op.latencyEvent, Option.toList_some,
        pair_sublist_concat, triple_sublist_concat, reduceCtorEq, false_and, or_false]
    · rw [results_concat, latestStartAt_concat, Op.startData,
        filterMap_startsAfter hkeys hbalance hdone hfresh, hresults]
      exact add_zero _

theorem storeEnd (h : ScalabilityInv X run w) (peer : PeerId) (data : ConsensusEndData)
    (hfresh : ∀ entry ∈ keyedEnds X run, entry.1 ≠ (keyedEnd X (peer, data)).1) :
    ScalabilityInv X
      (run ++ [⟨w, .storeConsensusEndData peer data, [], w.storeConsensusEndData X peer data⟩])
      (w.storeConsensusEndData X peer data) where
  started requestHash data' := by
    simp only [interleaving_concat, Op.latencyEvent, Option.toList_some, pair_sublist_concat,
      reduceCtorEq, false_and, or_false, List.mem_append, List.mem_singleton]
    exact h.started requestHash data'
  balance := by
    obtain ⟨done, hbalance, hdone, hresults⟩ := h.balance
    refine ⟨done, ?_, fun stored ↦ ?_, ?_⟩
    · simp only [keyedEnds_concat, Op.endData, Option.map_some, Option.toList_some]
      rw [← Multiset.coe_add]
      exact hbalance.insert data hfresh
    · have hnew : .finish peer data ∉ interleaving run := by
        intro hmem
        exact hfresh _ (keyedEnd_mem_keyedEnds.2 hmem) rfl
      simp only [hdone, ScalabilityDone, interleaving_concat, Op.latencyEvent, Option.toList_some,
        pair_sublist_concat, triple_sublist_concat, reduceCtorEq, false_and, or_false]
      -- A tick cannot have followed the new record yet.
      apply and_congr_right
      intro hticked
      have hne : LatencyEvent.finish stored.1 stored.2 ≠ .finish peer data := by
        intro heq
        rw [heq] at hticked
        exact hnew (mem_of_pair_sublist hticked)
      simp only [hne, false_and, or_false]
    · rw [results_concat, hresults, latestStartAt_concat]
      exact add_zero _

theorem started_iff (h : ScalabilityInv X run w) (stored : PeerId × ConsensusEndData) :
    Started w.lStartData (keyedEnd X stored) = true ↔
      ∃ startData, getRequestHash X startData.request = getRequestHash X stored.2.request ∧
        .start startData ∈ interleaving run ∧ ¬ [.start startData, .tick].Sublist (interleaving run) := by
  rw [Started, Option.isSome_iff_exists]
  apply exists_congr
  intro startData
  rw [h.started]
  exact and_left_comm

/-- At a tick, the end records whose start records came since the last tick join those reported before. -/
theorem scalabilityDone_concat_tick (h : ScalabilityInv X run w) {done : Multiset (EndKey × ConsensusEndData)}
    (hbalance : HashMap.Balanced (keyedEnds X run : Multiset (EndKey × ConsensusEndData)) w.lEndData done)
    (hdone : ∀ stored, keyedEnd X stored ∈ done ↔ ScalabilityDone X (interleaving run) stored)
    (stored : PeerId × ConsensusEndData) : ScalabilityDone X (interleaving run ++ [.tick]) stored ↔
      keyedEnd X stored ∈ done ∨
        keyedEnd X stored ∈ w.lEndData.toMultiset ∧ Started w.lStartData (keyedEnd X stored) = true := by
  rw [h.started_iff]
  simp only [ScalabilityDone, pair_tick_sublist_concat, triple_sublist_concat, reduceCtorEq, false_and,
    or_false]
  constructor
  · rintro ⟨hend, startData, hhash, hstart, hnot⟩
    by_cases hticked : [.start startData, .tick].Sublist (interleaving run)
    · have hbefore := pair_sublist_of_not_after (by simp) hticked hend hnot
      exact .inl ((hdone stored).2 ⟨hbefore, startData, hhash, hticked, hnot⟩)
    · by_cases hmem : keyedEnd X stored ∈ done
      · exact .inl hmem
      · have hlookup := hbalance.lookup (Multiset.mem_coe.2 (keyedEnd_mem_keyedEnds.2 hend)) hmem
        exact .inr ⟨HashMap.mem_toMultiset.2 hlookup, startData, hhash, hstart, hticked⟩
  · rintro (hmem | ⟨hmem, startData, hhash, hstart, hnot⟩)
    · obtain ⟨hend, startData, hhash, hstart, hnot⟩ := (hdone stored).1 hmem
      exact ⟨mem_of_pair_sublist hend, startData, hhash, mem_of_pair_sublist hstart, hnot⟩
    · have hend := keyedEnd_mem_keyedEnds.1 (Multiset.mem_coe.1 (hbalance.mem_of_mem_map hmem))
      refine ⟨hend, startData, hhash, hstart, fun hlate ↦ hnot ?_⟩
      exact (List.sublist_append_left [_, _] [_]).trans hlate

/-- The latencies of the pending end records are those of the ones with a start record. -/
theorem filterMap_latencyOf (h : ScalabilityInv X run w) (hkeys : KeysOnce X (interleaving run)) :
    w.lEndData.toMultiset.filterMap (latencyOf w.lStartData.get) =
      (w.lEndData.toMultiset.filter fun entry ↦ Started w.lStartData entry = true).filterMap
        (latencyOf (latestStartAt X run)) := by
  have hstarted : (fun entry ↦ Started w.lStartData entry = true) =
      fun entry ↦ (latencyOf w.lStartData.get entry).isSome = true := by
    funext entry
    rw [latencyOf, Option.isSome_map]
    rfl
  rw [← filterMap_filter_isSome]
  simp only [hstarted]
  apply filterMap_congr_of_mem
  intro entry hentry
  obtain ⟨latency, hlatency⟩ := Option.isSome_iff_exists.1 (Multiset.mem_filter.1 hentry).2
  obtain ⟨startData, hstart, -⟩ := Option.map_eq_some_iff.1 hlatency
  obtain ⟨hmem, hhash, -⟩ := (h.started _ _).1 hstart
  simp only [latencyOf, hstart, hkeys.latestStartAt_iff.2 ⟨hmem, hhash⟩]

/-- At a tick, the end records whose start records came since the last tick are reported. -/
theorem compute {item : TestItem} {order : List (EndKey × ConsensusEndData)} {w' : DataWarehouse}
    {rows : List Row} (h : ScalabilityInv X run w) (htaken : ScalabilityLatencyStep item w w' rows)
    (hkeys : KeysOnce X (interleaving run)) :
    ScalabilityInv X (run ++ [⟨w, .computeScalabilityLatency item order, rows, w'⟩]) w' where
  started requestHash data := by
    simp only [interleaving_concat, Op.latencyEvent, Option.toList_some, pair_sublist_concat, true_and,
      List.mem_append, List.mem_singleton, reduceCtorEq, or_false, htaken.frame, Finmap.lookup_empty,
      false_iff]
    rintro ⟨hmem, -, hnot⟩
    exact hnot (.inr hmem)
  balance := by
    obtain ⟨done, hbalance, hdone, hresults⟩ := h.balance
    refine ⟨done + w.lEndData.toMultiset.filter fun entry ↦ Started w.lStartData entry = true, ?_,
      fun stored ↦ ?_, ?_⟩
    · rw [keyedEnds_concat, append_keyedEnd_of_none _ _ rfl, htaken.frame]
      exact hbalance.retain _
    · rw [Multiset.mem_add, Multiset.mem_filter, interleaving_concat]
      exact (h.scalabilityDone_concat_tick hbalance hdone stored).symm
    · rw [results_concat, hresults, htaken.results, h.filterMap_latencyOf hkeys, latestStartAt_concat,
        Multiset.filterMap_add]
      rfl

/-- A call that has nothing to do with the latency data. -/
theorem other {t : Transition DataWarehouse Op (List Row)} (h : ScalabilityInv X run w)
    (hevent : t.event.latencyEvent = none)
    (hrows : ((t.out.filterMap Row.scalabilityLatencyResult : List Latency) : Multiset Latency) = 0)
    (hstarts : t.post.lStartData = w.lStartData) (hends : t.post.lEndData = w.lEndData) :
    ScalabilityInv X (run ++ [t]) t.post := by
  have hinterleaving : interleaving (run ++ [t]) = interleaving run := by
    rw [interleaving_concat, hevent, Option.toList_none, List.append_nil]
  have hnone : t.event.startData = none ∧ t.event.endData = none := by
    cases hop : t.event with
    | storeConsensusStartData | storeConsensusEndData =>
      rw [hop] at hevent
      cases hevent
    | _ => exact ⟨rfl, rfl⟩
  have hkeyed : keyedEnds X (run ++ [t]) = keyedEnds X run := by
    rw [keyedEnds_concat, append_keyedEnd_of_none _ _ hnone.2]
  have hlatest : latestStartAt X (run ++ [t]) = latestStartAt X run := by
    rw [latestStartAt_concat, hnone.1]
    rfl
  refine ⟨?_, ?_⟩
  · rw [hinterleaving, hstarts]
    exact h.started
  · rw [hinterleaving, hkeyed, hlatest, hends, results_concat, hrows, add_zero]
    exact h.balance

theorem step {op : Op} {w' : DataWarehouse} {rows : List Row} (h : ScalabilityInv X run w)
    (htaken : step X w op = some (w', rows)) (hop : op.keepsScalabilityLatency = true)
    (hkeys : KeysOnce X (interleaving (run ++ [⟨w, op, rows, w'⟩]))) :
    ScalabilityInv X (run ++ [⟨w, op, rows, w'⟩]) w' := by
  have hstart := hkeys.startKeysOnce.fresh.2
  have hend := hkeys.endKeysOnce.fresh.2
  rw [interleaving_concat] at hkeys
  have hbefore : KeysOnce X (interleaving run) := hkeys.of_append
  cases step_effect htaken with
  | start => exact h.storeStart _ _ hbefore (hstart _ rfl)
  | finish => exact h.storeEnd _ _ fun entry hentry ↦ hend entry hentry _ rfl
  | scalabilityLatency htaken => exact h.compute htaken hbefore
  | throughput htaken | scalabilityThroughput htaken =>
    apply h.other rfl (filterMap_throughputRows htaken (fun _ _ _ ↦ rfl))
    · obtain ⟨counts, round, rfl⟩ := htaken.frame
      rfl
    · obtain ⟨counts, round, rfl⟩ := htaken.frame
      rfl
  | crash | malicious | crashNode | interval => exact h.other rfl rfl rfl rfl
  | latency | reset => exact Bool.noConfusion hop

end ScalabilityInv

theorem scalabilityInv_of_isRun {w final : DataWarehouse} {run : Run}
    (h : IsRun (step X) w.reset run final) (hops : ∀ t ∈ run, t.event.keepsScalabilityLatency = true)
    (hkeys : KeysOnce X (interleaving run)) : ScalabilityInv X run final := by
  have hinitial : KeysOnce X (interleaving []) → ScalabilityInv X [] w.reset := fun _ ↦ .reset w
  revert hkeys
  apply IsRun.induction_of_forall hinitial ?_ h hops
  intro run w op rows w' hinv hop htaken hkeys
  have hbefore := hkeys
  rw [interleaving_concat] at hbefore
  exact (hinv hbefore.of_append).step htaken hop hkeys

/-! ## Both runs exist -/

/-- When every tick can be answered, there is a run. -/
theorem exists_tickRun {w : DataWarehouse} {allowed : Op → Bool} (events : List LatencyEvent)
    (hstart : ∀ peer data, allowed (.storeConsensusStartData peer data) = true)
    (hend : ∀ peer data, allowed (.storeConsensusEndData peer data) = true)
    (htick : ∀ run final, IsRun (step X) w.reset run final → (∀ t ∈ run, allowed t.event = true) →
      interleaving run <+: events → ∃ op w' rows, op.latencyEvent = some .tick ∧ allowed op = true ∧
        step X final op = some (w', rows)) : ∃ run, TickRun X w allowed events run := by
  induction events using List.reverseRecOn with
  | nil => exact ⟨[], ⟨_, .nil⟩, List.forall_mem_nil _, rfl⟩
  | append_singleton events event ih =>
    have hbefore := ih fun run final hrun hallowed hinitial ↦
      htick run final hrun hallowed (hinitial.trans (List.prefix_append _ _))
    obtain ⟨run, ⟨final, hrun⟩, hallowed, hevents⟩ := hbefore
    have hnext : ∃ op w' rows, op.latencyEvent = some event ∧ allowed op = true ∧
        step X final op = some (w', rows) := by
      cases event with
      | start data => exact ⟨.storeConsensusStartData [] data, _, _, rfl, hstart [] data, rfl⟩
      | finish peer data => exact ⟨.storeConsensusEndData peer data, _, _, rfl, hend peer data, rfl⟩
      | tick =>
        apply htick run final hrun hallowed
        rw [hevents]
        exact List.prefix_append _ _
    obtain ⟨op, w', rows, hevent, hop, htaken⟩ := hnext
    refine ⟨run ++ [⟨final, op, rows, w'⟩], ⟨w', hrun.snoc htaken⟩, ?_, ?_⟩
    · exact List.forall_mem_append.2 ⟨hallowed, List.forall_mem_singleton.2 hop⟩
    · rw [interleaving_concat, hevents, hevent]
      rfl

theorem exists_plainRun (w : DataWarehouse) (events : List LatencyEvent) :
    ∃ run, PlainRun X w events run := by
  apply exists_tickRun events (fun _ _ ↦ rfl) (fun _ _ ↦ rfl)
  intro run final _ _ _
  obtain ⟨order, horder⟩ := final.lEndData.exists_listing
  obtain ⟨⟨w', rows⟩, htaken⟩ := exists_computeLatency horder
  exact ⟨.computeLatency order, w', rows, rfl, rfl, htaken⟩

theorem exists_scalabilityRun (w : DataWarehouse) {events : List LatencyEvent} (hkeys : KeysOnce X events)
    (hrange : InRange X events) : ∃ run, ScalabilityRun X w events run := by
  apply exists_tickRun events (fun _ _ ↦ rfl) (fun _ _ ↦ rfl)
  rintro run final hrun hops ⟨later, rfl⟩
  have hinv := scalabilityInv_of_isRun hrun hops hkeys.of_append
  obtain ⟨order, horder⟩ := final.lEndData.exists_listing
  have hcausal : ∀ entry ∈ order, Causal final.lStartData.get entry := by
    intro entry hentry startData hstart
    obtain ⟨done, hbalance, -⟩ := hinv.balance
    rw [← Multiset.mem_coe, horder.coe_eq] at hentry
    obtain ⟨stored, hmem, rfl⟩ := mem_keyedEnds.1 (Multiset.mem_coe.1 (hbalance.mem_of_mem_map hentry))
    obtain ⟨hstart, hhash, -⟩ := (hinv.started _ _).1 hstart
    exact (hrange.of_append startData stored.1 stored.2 hstart (finish_mem_interleaving.2 hmem) hhash).1
  obtain ⟨⟨w', rows⟩, htaken⟩ := exists_computeScalabilityLatency (.scalability 0 0 0) horder hcausal
  exact ⟨.computeScalabilityLatency (.scalability 0 0 0) order, w', rows, rfl, rfl, htaken⟩

/-! ## Agreement -/

theorem KeysOnce.start_eq {events : List LatencyEvent} (h : KeysOnce X events)
    {data data' : ConsensusStartData} (hdata : .start data ∈ events) (hdata' : .start data' ∈ events)
    (heq : getRequestHash X data.request = getRequestHash X data'.request) : data = data' :=
  List.inj_on_of_nodup_map h.1 (List.mem_filterMap.2 ⟨_, hdata, rfl⟩) (List.mem_filterMap.2 ⟨_, hdata', rfl⟩)
    heq

theorem KeysOnce.finish_once {events : List LatencyEvent} (h : KeysOnce X events) (peer : PeerId)
    (data : ConsensusEndData) : ¬ [.finish peer data, .finish peer data].Sublist events := by
  intro htwice
  have hkeys := ((htwice.filterMap LatencyEvent.endData).map fun entry ↦
    (entry.1, getRequestHash X entry.2.request)).nodup h.2
  simp [LatencyEvent.endData] at hkeys

/-- The interleavings in which every end record that `compute_latency` reports is reported by
`compute_scalability_latency`. -/
theorem startsCurrent_iff {events : List LatencyEvent} (hkeys : KeysOnce X events) :
    StartsCurrent X events ↔ ∀ stored, PlainDone X events stored → ScalabilityDone X events stored := by
  constructor
  · rintro hcurrent stored ⟨hend, startData, hhash, hstart⟩
    refine ⟨hend, startData, hhash, hstart, fun hlate ↦ ?_⟩
    exact hcurrent startData stored.1 stored.2 hhash
      (quadruple_sublist (by simp) (hkeys.finish_once stored.1 stored.2) hlate hend)
  · intro hall startData peer endData hhash hlost
    have htriple : [.start startData, .tick, .finish peer endData].Sublist events :=
      (List.sublist_append_left [_, _, _] [_]).trans hlost
    have hstart : [.start startData, .tick].Sublist events :=
      (List.sublist_append_left [_, _] [_]).trans htriple
    have hend : [.finish peer endData, .tick].Sublist events :=
      (List.sublist_append_right [_, _] [_, _]).trans hlost
    obtain ⟨-, startData', hhash', hstart', hnot⟩ := hall (peer, endData) ⟨hend, startData, hhash, hstart⟩
    obtain rfl := hkeys.start_eq (mem_of_pair_sublist hstart) (mem_of_pair_sublist hstart')
      (hhash.trans hhash'.symm)
    exact hnot htriple

/-- What the two runs over one interleaving have reported. -/
theorem results_eq_iff {w : DataWarehouse} {events : List LatencyEvent} (hkeys : KeysOnce X events)
    (hrange : InRange X events) {run run' : Run} (hrun : PlainRun X w events run)
    (hrun' : ScalabilityRun X w events run') :
    results Row.scalabilityLatencyResult run' = results Row.latencyResult run ↔
      StartsCurrent X events := by
  obtain ⟨⟨final, hrun⟩, hops, rfl⟩ := hrun
  obtain ⟨⟨final', hrun'⟩, hops', hsame⟩ := hrun'
  have hkeys' : KeysOnce X (interleaving run') := hsame ▸ hkeys
  obtain ⟨done, hbalance, hdone, hresults⟩ :=
    (latencyInv_of_isRun hrun hops hkeys.startKeysOnce hkeys.endKeysOnce).balance
  obtain ⟨done', hbalance', hdone', hresults'⟩ := (scalabilityInv_of_isRun hrun' hops' hkeys').balance
  have hplain := plainDone_iff hrun hops hkeys hrange hbalance
  rw [keyedEnds_eq_of_interleaving hsame] at hbalance'
  rw [latestStartAt_eq_of_interleaving hsame] at hresults'
  rw [hsame] at hdone'
  have hlatency (entry : EndKey × ConsensusEndData) (hentry : entry ∈ done) :
      reportedLatency (latestStartAt X run) entry = latencyOf (latestStartAt X run) entry :=
    reportedLatency_eq_latencyOf (hdone entry hentry)
  rw [filterMap_congr_of_mem hlatency] at hresults
  have hsome (entry : EndKey × ConsensusEndData) (hentry : entry ∈ done) :
      (latencyOf (latestStartAt X run) entry).isSome = true := by
    rw [← hlatency entry hentry]
    exact hdone entry hentry
  have hnodup : (keyedEnds X run : Multiset (EndKey × ConsensusEndData)).Nodup :=
    Multiset.coe_nodup.2 (List.Nodup.of_map Prod.fst hkeys.endKeysOnce)
  have hsubset : done' ≤ done := by
    apply (Multiset.le_iff_subset (hbalance'.nodup_dealt hnodup)).2
    intro entry hentry
    obtain ⟨stored, -, rfl⟩ := mem_keyedEnds.1 (Multiset.mem_coe.1 (hbalance'.mem_of_mem_dealt hentry))
    obtain ⟨hend, startData, hhash, hstart, -⟩ := (hdone' stored).1 hentry
    exact (hplain stored).2 ⟨hend, startData, hhash, hstart⟩
  rw [hresults, hresults', filterMap_eq_iff_of_le hsubset hsome, startsCurrent_iff hkeys]
  constructor
  · intro heq stored hdone
    rw [← hdone', heq, hplain]
    exact hdone
  · intro hall
    apply le_antisymm hsubset
    apply (Multiset.le_iff_subset (hbalance.nodup_dealt hnodup)).2
    intro entry hentry
    obtain ⟨stored, -, rfl⟩ := mem_keyedEnds.1 (Multiset.mem_coe.1 (hbalance.mem_of_mem_dealt hentry))
    exact (hdone' stored).2 (hall stored ((hplain stored).1 hentry))

theorem latenciesAgree_iff_startsCurrent (w : DataWarehouse) {events : List LatencyEvent}
    (hkeys : KeysOnce X events) (hrange : InRange X events) :
    LatenciesAgree X w events ↔ StartsCurrent X events := by
  obtain ⟨run, hrun⟩ := exists_plainRun (X := X) w events
  obtain ⟨run', hrun'⟩ := exists_scalabilityRun w hkeys hrange
  constructor
  · rintro ⟨-, hagree⟩
    exact (results_eq_iff hkeys hrange hrun hrun').1 (hagree run run' hrun hrun')
  · intro hcurrent
    refine ⟨⟨run', hrun'⟩, fun run run' hrun hrun' ↦ ?_⟩
    exact (results_eq_iff hkeys hrange hrun hrun').2 hcurrent

/-- Both records of a request before the first tick. -/
def promptEvents : List LatencyEvent := [.start ⟨⟨"a"⟩, 5⟩, .finish [1] ⟨⟨"a"⟩, 7⟩, .tick]

theorem latenciesAgree_iff_startsCurrent_prompt :
    LatenciesAgree Externals.transparent DataWarehouse.new promptEvents := by
  have hrange : InRange Externals.transparent promptEvents := by
    intro startData peer endData hstart hend _
    simp only [promptEvents, List.mem_cons, LatencyEvent.start.injEq, LatencyEvent.finish.injEq,
      List.not_mem_nil, reduceCtorEq, or_false, false_or] at hstart hend
    obtain ⟨-, rfl⟩ := hend
    rw [hstart]
    decide
  apply (latenciesAgree_iff_startsCurrent DataWarehouse.new (by decide +kernel) hrange).2
  intro startData peer endData _ hlost
  have hticks := hlost.count_le LatencyEvent.tick
  simp [promptEvents] at hticks

/-- A second peer reports the end of a request after the first tick behind its start. -/
def lostEvents : List LatencyEvent :=
  [.start ⟨⟨"a"⟩, 5⟩, .finish [1] ⟨⟨"a"⟩, 7⟩, .tick, .finish [2] ⟨⟨"a"⟩, 8⟩, .tick]

def lostPlainOps : List Op :=
  [.storeConsensusStartData [9] ⟨⟨"a"⟩, 5⟩,
    .storeConsensusEndData [1] ⟨⟨"a"⟩, 7⟩,
    .computeLatency [(([1], "a"), ⟨⟨"a"⟩, 7⟩)],
    .storeConsensusEndData [2] ⟨⟨"a"⟩, 8⟩,
    .computeLatency [(([2], "a"), ⟨⟨"a"⟩, 8⟩)]]

def lostScalabilityOps : List Op :=
  [.storeConsensusStartData [9] ⟨⟨"a"⟩, 5⟩,
    .storeConsensusEndData [1] ⟨⟨"a"⟩, 7⟩,
    .computeScalabilityLatency (.scalability 4 4 0) [(([1], "a"), ⟨⟨"a"⟩, 7⟩)],
    .storeConsensusEndData [2] ⟨⟨"a"⟩, 8⟩,
    .computeScalabilityLatency (.scalability 4 4 0) [(([2], "a"), ⟨⟨"a"⟩, 8⟩)]]

theorem not_latenciesAgree_of_lost_start :
    ¬ ∀ (X : Externals) (w : DataWarehouse) (events : List LatencyEvent),
      KeysOnce X events → InRange X events → LatenciesAgree X w events := by
  intro hclaim
  have hrange : InRange Externals.transparent lostEvents := by
    intro startData peer endData hstart hend _
    simp only [lostEvents, List.mem_cons, LatencyEvent.start.injEq, LatencyEvent.finish.injEq,
      List.not_mem_nil, reduceCtorEq, or_false, false_or] at hstart hend
    rw [hstart]
    rcases hend with ⟨-, rfl⟩ | ⟨-, rfl⟩
    · decide
    · decide
  have hagree := (hclaim Externals.transparent DataWarehouse.new lostEvents (by decide +kernel) hrange).2
  have hplain : PlainRun Externals.transparent DataWarehouse.new lostEvents
      (transitions (step Externals.transparent) DataWarehouse.new.reset lostPlainOps) :=
    ⟨⟨_, IsRun.of_isSome (by decide +kernel)⟩, by decide +kernel, by decide +kernel⟩
  have hscalability : ScalabilityRun Externals.transparent DataWarehouse.new lostEvents
      (transitions (step Externals.transparent) DataWarehouse.new.reset lostScalabilityOps) :=
    ⟨⟨_, IsRun.of_isSome (by decide +kernel)⟩, by decide +kernel, by decide +kernel⟩
  have hresults := hagree _ _ hplain hscalability
  revert hresults
  decide +kernel

end BFTDiagnosis.Analyzer
