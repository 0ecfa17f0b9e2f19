import BFTDiagnosis.Analyzer.Analyzer
import BFTDiagnosis.Analyzer.Security

/-!
# Isolation of test items

Two histories of the analyzer that differ in the records before the last test item. Its reset clears the
records of the performance tests, so the rows inserted afterwards are the same. It does not clear the records
of the security tests: what is left of them gets into the results of the next security test.
-/

namespace BFTDiagnosis.Analyzer

open Components DataWarehouse

variable {X : Externals}

/-! ## Performance data -/

/-- The warehouses differ at most in the data of the security tests. -/
def SamePerformance (w w' : DataWarehouse) : Prop :=
  ∃ starts ends nodes crash malicious, w' = { w with
    sStartData := starts
    sEndData := ends
    crashNodes := nodes
    crashResults := crash
    maliciousResults := malicious }

theorem LatencyStep.same {w w' w₁ w₁' : DataWarehouse} {rows rows' : List Row} (h : LatencyStep w w₁ rows)
    (h' : LatencyStep w' w₁' rows') (hsame : SamePerformance w w') :
    SamePerformance w₁ w₁' ∧ (rows : Multiset Row) = rows' := by
  obtain ⟨starts, ends, nodes, crash, malicious, rfl⟩ := hsame
  refine ⟨⟨starts, ends, nodes, crash, malicious, ?_⟩, ?_⟩
  · rw [h.frame, h'.frame]
  · rw [h.rows, h'.rows]

theorem ScalabilityLatencyStep.same {item : TestItem} {w w' w₁ w₁' : DataWarehouse} {rows rows' : List Row}
    (h : ScalabilityLatencyStep item w w₁ rows) (h' : ScalabilityLatencyStep item w' w₁' rows')
    (hsame : SamePerformance w w') : SamePerformance w₁ w₁' ∧ (rows : Multiset Row) = rows' := by
  obtain ⟨starts, ends, nodes, crash, malicious, rfl⟩ := hsame
  refine ⟨⟨starts, ends, nodes, crash, malicious, ?_⟩, ?_⟩
  · rw [h.frame, h'.frame]
  · rw [h.rows, h'.rows]

theorem ThroughputStep.same {row : UInt64 → PeerId → UInt64 → Row} {w w' w₁ w₁' : DataWarehouse}
    {rows rows' : List Row} (h : ThroughputStep X row w w₁ rows) (h' : ThroughputStep X row w' w₁' rows')
    (hsame : SamePerformance w w') : SamePerformance w₁ w₁' ∧ (rows : Multiset Row) = rows' := by
  obtain ⟨starts, ends, nodes, crash, malicious, rfl⟩ := hsame
  have hcounts : w₁.throughputMidResults = w₁'.throughputMidResults := by
    apply Finmap.ext_lookup
    intro peer
    rw [h.counts.entry, h'.counts.entry]
    rfl
  have hround : w₁.internalRound = w₁'.internalRound :=
    Option.some.inj (h.round.symm.trans h'.round)
  refine ⟨⟨starts, ends, nodes, crash, malicious, ?_⟩, ?_⟩
  · obtain ⟨counts, round, hframe⟩ := h.frame
    obtain ⟨counts', round', hframe'⟩ := h'.frame
    rw [hframe, hframe'] at hcounts hround
    have hcounts : counts = counts' := hcounts
    have hround : round = round' := hround
    rw [hframe, hframe', hcounts, hround]
  · rw [h.rows, h'.rows, hcounts, hround]

/-! ### Operations that only the security tests read, or that both warehouses make -/

theorem SamePerformance.reset {w w' : DataWarehouse} (h : SamePerformance w w') :
    SamePerformance w.reset w'.reset := by
  obtain ⟨starts, ends, nodes, crash, malicious, rfl⟩ := h
  exact ⟨starts, ends, nodes, crash, malicious, rfl⟩

theorem SamePerformance.setThroughputInternal {w w' : DataWarehouse} (h : SamePerformance w w')
    (internal : UInt64) : SamePerformance (w.setThroughputInternal internal) (w'.setThroughputInternal internal) := by
  obtain ⟨starts, ends, nodes, crash, malicious, rfl⟩ := h
  exact ⟨starts, ends, nodes, crash, malicious, rfl⟩

theorem SamePerformance.storeStart {w w' : DataWarehouse} (h : SamePerformance w w')
    (data : ConsensusStartData) :
    SamePerformance (w.storeConsensusStartData X data) (w'.storeConsensusStartData X data) := by
  obtain ⟨starts, ends, nodes, crash, malicious, rfl⟩ := h
  exact ⟨_, ends, nodes, crash, malicious, rfl⟩

theorem SamePerformance.storeEnd {w w' : DataWarehouse} (h : SamePerformance w w') (peer : PeerId)
    (data : ConsensusEndData) :
    SamePerformance (w.storeConsensusEndData X peer data) (w'.storeConsensusEndData X peer data) := by
  obtain ⟨starts, ends, nodes, crash, malicious, rfl⟩ := h
  exact ⟨starts, _, nodes, crash, malicious, rfl⟩

theorem SamePerformance.crashNodes {w w' : DataWarehouse} (h : SamePerformance w w')
    (nodes nodes' : HashMap UInt16 (List PeerId)) :
    SamePerformance { w with crashNodes := nodes } { w' with crashNodes := nodes' } := by
  obtain ⟨starts, ends, -, crash, malicious, rfl⟩ := h
  exact ⟨starts, ends, nodes', crash, malicious, rfl⟩

/-- The warehouse after a test item has been analysed, up to the data of the security tests. -/
theorem Analysis.same {item : TestItem} {w w' w₁ w₁' : DataWarehouse} {rows rows' : List Row}
    (h : Analysis X w item w₁ rows) (h' : Analysis X w' item w₁' rows') (hsame : SamePerformance w w') :
    SamePerformance w₁ w₁' ∧ (rows : Multiset Row) = rows' := by
  cases h with
  | throughput htaken =>
    cases h' with
    | throughput htaken' => exact htaken.same htaken' hsame
  | latency htaken =>
    cases h' with
    | latency htaken' => exact htaken.same htaken' hsame
  | throughputAndLatency hfirst hsecond =>
    cases h' with
    | throughputAndLatency hfirst' hsecond' =>
      obtain ⟨hsame₁, hrows₁⟩ := hfirst.same hfirst' hsame
      obtain ⟨hsame₂, hrows₂⟩ := hsecond.same hsecond' hsame₁
      exact ⟨hsame₂, by rw [← Multiset.coe_add, ← Multiset.coe_add, hrows₁, hrows₂]⟩
  | scalability hfirst hsecond =>
    cases h' with
    | scalability hfirst' hsecond' =>
      obtain ⟨hsame₁, hrows₁⟩ := hfirst.same hfirst' hsame
      obtain ⟨hsame₂, hrows₂⟩ := hsecond.same hsecond' hsame₁
      exact ⟨hsame₂, by rw [← Multiset.coe_add, ← Multiset.coe_add, hrows₁, hrows₂]⟩
  | crash =>
    cases h' with
    | crash =>
      obtain ⟨starts, ends, nodes, crash, malicious, rfl⟩ := hsame
      exact ⟨⟨_, _, _, _, _, rfl⟩, rfl⟩
  | malicious =>
    cases h' with
    | malicious =>
      obtain ⟨starts, ends, nodes, crash, malicious, rfl⟩ := hsame
      exact ⟨⟨_, _, _, _, _, rfl⟩, rfl⟩

/-! ## The rows are the same -/

/-- The analyzers differ at most in the data of the security tests. -/
structure PerformanceRel (a a' : Analyzer) : Prop where
  item : a.currentTestItem = a'.currentTestItem
  internal : a.performanceTestInternal = a'.performanceTestInternal
  same : SamePerformance a.dataWarehouse a'.dataWarehouse

theorem PerformanceRel.compute {a a' a₁ a₁' : Analyzer} {walks walks' : Walks} {rows rows' : List Row}
    (hrel : PerformanceRel a a') (h : a.computeAndAnalyse X walks = some (a₁, rows))
    (h' : a'.computeAndAnalyse X walks' = some (a₁', rows')) :
    PerformanceRel a₁ a₁' ∧ (rows : Multiset Row) = rows' := by
  rcases computeAndAnalyse_both hrel.item h h' with
    ⟨rfl, rfl, rfl, rfl⟩ | ⟨item, w, w', -, hanalysis, hanalysis', rfl, rfl⟩
  · exact ⟨hrel, rfl⟩
  · obtain ⟨hsame, hrows⟩ := hanalysis.same hanalysis' hrel.same
    exact ⟨⟨hrel.item, hrel.internal, hsame⟩, hrows⟩

theorem PerformanceRel.step {a a' a₁ a₁' : Analyzer} {event event' : Event} {answer answer' : Answer}
    (hrel : PerformanceRel a a') (hmessage : event.message = event'.message)
    (h : a.messageHandler X event = some (a₁, answer))
    (h' : a'.messageHandler X event' = some (a₁', answer')) :
    PerformanceRel a₁ a₁' ∧ (answer.rows : Multiset Row) = answer'.rows := by
  have heffect := messageHandler_effect h
  have heffect' := messageHandler_effect h'
  rw [← hmessage] at heffect'
  generalize event.message = message at heffect heffect'
  cases heffect with
  | internal hcomputed =>
    cases heffect' with
    | internal hcomputed' => exact hrel.compute hcomputed hcomputed'
  | completed hcomputed hcurrent =>
    cases heffect' with
    | completed hcomputed' hcurrent' =>
      obtain ⟨hrel₁, hrows⟩ := hrel.compute hcomputed hcomputed'
      exact ⟨⟨rfl, hrel₁.internal, hrel₁.same⟩, hrows⟩
  | testItem hrecorded =>
    cases heffect' with
    | testItem hrecorded' =>
      exact ⟨⟨rfl, hrel.internal, hrel.same.reset⟩, by rw [hrecorded, hrecorded']⟩
  | crashNode =>
    cases heffect' with
    | crashNode => exact ⟨⟨hrel.item, hrel.internal, hrel.same.crashNodes _ _⟩, rfl⟩
  | startTest =>
    cases heffect' with
    | startTest =>
      have hsame := hrel.same.setThroughputInternal a.performanceTestInternal
      exact ⟨⟨hrel.item, hrel.internal, by rwa [← hrel.internal]⟩, rfl⟩
  | start =>
    cases heffect' with
    | start => exact ⟨⟨hrel.item, hrel.internal, hrel.same.storeStart _⟩, rfl⟩
  | finish =>
    cases heffect' with
    | finish => exact ⟨⟨hrel.item, hrel.internal, hrel.same.storeEnd _ _⟩, rfl⟩

/-! ## The data of the security tests -/

/-- The requests of the end records that no test has taken are the same. -/
def SamePending (w w' : DataWarehouse) : Prop :=
  ∀ key, (w.sEndData.lookup key).map (·.request) = (w'.sEndData.lookup key).map (·.request)

/-- The same start keys are there. -/
def SameStarted (w w' : DataWarehouse) : Prop :=
  ∀ requestHash, (w.sStartData.lookup requestHash).isSome = (w'.sStartData.lookup requestHash).isSome

/-- The table of a security test, if there is one already. -/
def DataWarehouse.resultEntry (w : DataWarehouse) : ResultTable → Option (HashMap PeerId (List Request))
  | .crash crashCount => w.crashResults.lookup crashCount
  | .malicious testItem => w.maliciousResults.lookup testItem

/-- A table is the same up to the order of its lists. -/
def SameEntry (table : ResultTable) (w w' : DataWarehouse) : Prop :=
  (w.resultEntry table).map contents = (w'.resultEntry table).map contents

/-- The table that a test item writes to. -/
def testedTable : TestItem → Option ResultTable
  | .crash count _ => some (.crash count)
  | .malicious behaviour => some (.malicious (.malicious behaviour))
  | _ => none

/-- What a test item reads of the records of security tests is the same. -/
def LeftoversAgree (item : TestItem) (w w' : DataWarehouse) : Prop :=
  match item with
  | .crash .. => SamePending w w' ∧ SameStarted w w'
  | .malicious _ => SamePending w w'
  | _ => True

theorem contents_empty : contents ∅ = fun _ ↦ none := by
  funext peer
  rw [contents, Finmap.lookup_empty]
  rfl

theorem SameEntry.contents_eq {table : ResultTable} {w w' : DataWarehouse} (h : SameEntry table w w') :
    contents (w.resultTable table) = contents (w'.resultTable table) := by
  have htable (w : DataWarehouse) :
      contents (w.resultTable table) = ((w.resultEntry table).map contents).getD fun _ ↦ none := by
    have hentry : w.resultTable table = (w.resultEntry table).getD ∅ := by cases table <;> rfl
    rw [hentry]
    cases w.resultEntry table with
    | none => exact contents_empty
    | some results => rfl
  rw [htable, htable, h]

/-- The requests that are recorded for a peer, by the keys and requests of the end records. -/
theorem requestsOf_eq (doneKey : EndKey → Bool) (entries : Multiset (EndKey × ConsensusEndData))
    (peer : PeerId) : requestsOf (fun entry ↦ doneKey entry.1) entries peer =
      ((entries.map fun entry ↦ (entry.1, entry.2.request)).filter fun entry ↦
        entry.1.1 = peer ∧ doneKey entry.1 = true).map Prod.snd := by
  rw [requestsOf, Multiset.filter_map, Multiset.map_map]
  rfl

/-- Two tests that deal with the same keys of the same pending records. -/
theorem SecurityStep.same {doneKey : EndKey → Bool} {ends ends' ends₁ ends₁' : HashMap EndKey ConsensusEndData}
    {results results' results₁ results₁' : HashMap PeerId (List Request)}
    (h : SecurityStep (fun entry ↦ doneKey entry.1) ends ends₁ results results₁)
    (h' : SecurityStep (fun entry ↦ doneKey entry.1) ends' ends₁' results' results₁')
    (hpending : ∀ key, (ends.lookup key).map (·.request) = (ends'.lookup key).map (·.request))
    (hresults : contents results = contents results') :
    (∀ key, (ends₁.lookup key).map (·.request) = (ends₁'.lookup key).map (·.request)) ∧
      contents results₁ = contents results₁' := by
  refine ⟨?_, ?_⟩
  · intro key
    have hfilter (data : Option ConsensusEndData) :
        (data.filter fun _ ↦ !doneKey key) = if doneKey key then none else data := by
      cases data <;> cases doneKey key <;> rfl
    rw [h.remaining, h'.remaining, HashMap.lookup_retain_filter, HashMap.lookup_retain_filter, hfilter,
      hfilter]
    split
    case isTrue => rfl
    case isFalse => exact hpending key
  · have hrequests := HashMap.map_toMultiset_eq hpending
    funext peer
    rw [h.recorded peer, h'.recorded peer, requestsOf_eq, requestsOf_eq, hrequests, hresults]

theorem resultEntry_crash (w : DataWarehouse) (crashCount : UInt16)
    (results : HashMap PeerId (List Request)) (ends : HashMap EndKey ConsensusEndData) :
    resultEntry { w with sEndData := ends, crashResults := w.crashResults.insert crashCount results }
      (.crash crashCount) = some results := Finmap.lookup_insert _

theorem resultEntry_malicious (w : DataWarehouse) (testItem : TestItem)
    (results : HashMap PeerId (List Request)) (ends : HashMap EndKey ConsensusEndData) :
    resultEntry { w with sEndData := ends, maliciousResults := w.maliciousResults.insert testItem results }
      (.malicious testItem) = some results := Finmap.lookup_insert _

/-- The analysis of a security test item keeps the data of the security tests the same. -/
theorem Analysis.sameSecurity {item : TestItem} {table : ResultTable} (htable : testedTable item = some table)
    {w w' w₁ w₁' : DataWarehouse} {rows rows' : List Row} (h : Analysis X w item w₁ rows)
    (h' : Analysis X w' item w₁' rows') (hleft : LeftoversAgree item w w') (hentry : SameEntry table w w') :
    LeftoversAgree item w₁ w₁' ∧ SameEntry table w₁ w₁' := by
  cases h with
  | crash htaken =>
    cases h' with
    | crash htaken' =>
      obtain rfl := Option.some.inj htable
      obtain ⟨hpending, hstarted⟩ := hleft
      have hsame : Started w'.sStartData = fun entry ↦ (w.sStartData.lookup entry.1.2).isSome := by
        funext entry
        exact (hstarted entry.1.2).symm
      rw [hsame] at htaken'
      obtain ⟨hpending₁, hresults₁⟩ := @SecurityStep.same (fun key ↦ (w.sStartData.lookup key.2).isSome)
        _ _ _ _ _ _ _ _ htaken htaken' hpending hentry.contents_eq
      refine ⟨⟨hpending₁, hstarted⟩, ?_⟩
      rw [SameEntry, resultEntry_crash, resultEntry_crash, Option.map_some, Option.map_some, hresults₁]
  | malicious htaken =>
    cases h' with
    | malicious htaken' =>
      obtain rfl := Option.some.inj htable
      obtain ⟨hpending₁, hresults₁⟩ := @SecurityStep.same (fun _ ↦ true)
        _ _ _ _ _ _ _ _ htaken htaken' hleft hentry.contents_eq
      refine ⟨hpending₁, ?_⟩
      rw [SameEntry, resultEntry_malicious, resultEntry_malicious, Option.map_some, Option.map_some, hresults₁]
  | throughput | latency | throughputAndLatency | scalability => cases htable

theorem LeftoversAgree.storeStart {item : TestItem} {w w' : DataWarehouse} (h : LeftoversAgree item w w')
    (data : ConsensusStartData) : LeftoversAgree item (w.storeConsensusStartData X data)
      (w'.storeConsensusStartData X data) := by
  cases item with
  | crash count max =>
    refine ⟨h.1, fun requestHash ↦ ?_⟩
    simp only [storeConsensusStartData]
    by_cases hhash : requestHash = getRequestHash X data.request
    · rw [hhash, Finmap.lookup_insert, Finmap.lookup_insert]
    · rw [Finmap.lookup_insert_of_ne _ hhash, Finmap.lookup_insert_of_ne _ hhash]
      exact h.2 requestHash
  | malicious behaviour => exact h
  | throughput | latency | throughputAndLatency | scalability => trivial

theorem SamePending.storeEnd {w w' : DataWarehouse} (h : SamePending w w') (peer : PeerId)
    (data : ConsensusEndData) :
    SamePending (w.storeConsensusEndData X peer data) (w'.storeConsensusEndData X peer data) := by
  intro key
  simp only [storeConsensusEndData]
  by_cases hkey : key = (peer, getRequestHash X data.request)
  · rw [hkey, Finmap.lookup_insert, Finmap.lookup_insert]
  · rw [Finmap.lookup_insert_of_ne _ hkey, Finmap.lookup_insert_of_ne _ hkey]
    exact h key

theorem LeftoversAgree.storeEnd {item : TestItem} {w w' : DataWarehouse} (h : LeftoversAgree item w w')
    (peer : PeerId) (data : ConsensusEndData) : LeftoversAgree item (w.storeConsensusEndData X peer data)
      (w'.storeConsensusEndData X peer data) := by
  cases item with
  | crash count max => exact ⟨h.1.storeEnd peer data, h.2⟩
  | malicious behaviour => exact SamePending.storeEnd h peer data
  | throughput | latency | throughputAndLatency | scalability => trivial

/-! ## The results of the security test are the same -/

/-- The analyzers have the same data for a security test item, which is current until it is completed. -/
structure SecurityRel (item : TestItem) (table : ResultTable) (a a' : Analyzer) : Prop where
  sameItem : a.currentTestItem = a'.currentTestItem
  current : ∀ current ∈ a.currentTestItem, current = item
  leftovers : LeftoversAgree item a.dataWarehouse a'.dataWarehouse
  entry : SameEntry table a.dataWarehouse a'.dataWarehouse

theorem SecurityRel.compute {item : TestItem} {table : ResultTable} (htable : testedTable item = some table)
    {a a' a₁ a₁' : Analyzer} {walks walks' : Walks} {rows rows' : List Row}
    (hrel : SecurityRel item table a a') (h : a.computeAndAnalyse X walks = some (a₁, rows))
    (h' : a'.computeAndAnalyse X walks' = some (a₁', rows')) : SecurityRel item table a₁ a₁' := by
  rcases computeAndAnalyse_both hrel.sameItem h h' with
    ⟨rfl, rfl, rfl, rfl⟩ | ⟨current, w, w', hcurrent, hanalysis, hanalysis', rfl, rfl⟩
  · exact hrel
  · obtain rfl := hrel.current current hcurrent
    obtain ⟨hleft, hentry⟩ := hanalysis.sameSecurity htable hanalysis' hrel.leftovers hrel.entry
    exact ⟨hrel.sameItem, hrel.current, hleft, hentry⟩

def Message.isTestItem : Message → Bool
  | .controller (.testItem _) => true
  | _ => false

theorem SecurityRel.step {item : TestItem} {table : ResultTable} (htable : testedTable item = some table)
    {a a' a₁ a₁' : Analyzer} {event event' : Event} {answer answer' : Answer}
    (hrel : SecurityRel item table a a') (hitem : event.message.isTestItem = false)
    (hmessage : event.message = event'.message) (h : a.messageHandler X event = some (a₁, answer))
    (h' : a'.messageHandler X event' = some (a₁', answer')) : SecurityRel item table a₁ a₁' := by
  have heffect := messageHandler_effect h
  have heffect' := messageHandler_effect h'
  rw [← hmessage] at heffect'
  generalize event.message = message at heffect heffect' hitem
  cases heffect with
  | internal hcomputed =>
    cases heffect' with
    | internal hcomputed' => exact hrel.compute htable hcomputed hcomputed'
  | completed hcomputed hcurrent =>
    cases heffect' with
    | completed hcomputed' hcurrent' =>
      have hrel₁ := hrel.compute htable hcomputed hcomputed'
      exact ⟨rfl, fun current hnone ↦ (by cases hnone), hrel₁.leftovers, hrel₁.entry⟩
  | testItem => exact Bool.noConfusion hitem
  | crashNode =>
    cases heffect' with
    | crashNode => exact ⟨hrel.sameItem, hrel.current, hrel.leftovers, hrel.entry⟩
  | startTest =>
    cases heffect' with
    | startTest => exact ⟨hrel.sameItem, hrel.current, hrel.leftovers, hrel.entry⟩
  | start =>
    cases heffect' with
    | start => exact ⟨hrel.sameItem, hrel.current, hrel.leftovers.storeStart _, hrel.entry⟩
  | finish =>
    cases heffect' with
    | finish => exact ⟨hrel.sameItem, hrel.current, hrel.leftovers.storeEnd _ _, hrel.entry⟩

/-! ## Isolation -/

/-- A run of the analyzer. -/
abbrev History := List (Transition Analyzer Event Answer)

def messages (history : History) : List Message := history.map (·.event.message)

def Message.isRecord : Message → Bool
  | .consensusNode .. => true
  | _ => false

/-- The messages of a history that are no consensus records. -/
def controlMessages (history : History) : List Message := (messages history).filter (!·.isRecord)

/-- The rows inserted by every message of two histories are the same, and so is the table of a security
test item that neither history has tested before. -/
structure SameResults (item : TestItem) (w w' : DataWarehouse) (history history' : History)
    (final final' : DataWarehouse) : Prop where
  rows : history.map (fun t ↦ (t.out.rows : Multiset Row)) = history'.map fun t ↦ (t.out.rows : Multiset Row)
  entry : ∀ table ∈ testedTable item, w.resultEntry table = none → w'.resultEntry table = none →
    SameEntry table final final'

/-- What is left of the records of security tests is the same, as far as the test item writes to a new
table. -/
def LeftoversHarmless (item : TestItem) (w w' : DataWarehouse) : Prop :=
  ∀ table ∈ testedTable item, w.resultEntry table = none → w'.resultEntry table = none →
    LeftoversAgree item w w'

/-! ### The interval of the throughput -/

theorem ThroughputStep.throughputInternal {row : UInt64 → PeerId → UInt64 → Row} {w w₁ : DataWarehouse}
    {rows : List Row} (h : ThroughputStep X row w w₁ rows) :
    w₁.throughputInternal = w.throughputInternal := by
  obtain ⟨counts, round, rfl⟩ := h.frame
  rfl

theorem Analysis.throughputInternal {item : TestItem} {w w₁ : DataWarehouse} {rows : List Row}
    (h : Analysis X w item w₁ rows) : w₁.throughputInternal = w.throughputInternal := by
  cases h with
  | throughput htaken => exact htaken.throughputInternal
  | latency htaken => rw [htaken.frame]
  | throughputAndLatency hfirst hsecond => rw [hsecond.frame, ← hfirst.throughputInternal]
  | scalability hfirst hsecond => rw [hsecond.throughputInternal, hfirst.frame]
  | crash | malicious => rfl

theorem computeAndAnalyse_internal {a a₁ : Analyzer} {walks : Walks} {rows : List Row}
    (h : a.computeAndAnalyse X walks = some (a₁, rows)) :
    a₁.performanceTestInternal = a.performanceTestInternal ∧
      a₁.dataWarehouse.throughputInternal = a.dataWarehouse.throughputInternal := by
  rcases computeAndAnalyse_cases h with ⟨-, rfl, -⟩ | ⟨item, w, -, hanalysis, rfl⟩
  · exact ⟨rfl, rfl⟩
  · exact ⟨rfl, hanalysis.throughputInternal⟩

def Message.isStartTest : Message → Bool
  | .controller (.startTest _) => true
  | _ => false

theorem messageHandler_internal {a a' : Analyzer} {event : Event} {answer : Answer}
    (h : a.messageHandler X event = some (a', answer)) :
    a'.performanceTestInternal = a.performanceTestInternal ∧
      a'.dataWarehouse.throughputInternal =
        if event.message.isStartTest then a.performanceTestInternal
        else a.dataWarehouse.throughputInternal := by
  have heffect := messageHandler_effect h
  generalize event.message = message at heffect
  cases heffect with
  | internal hcomputed => exact computeAndAnalyse_internal hcomputed
  | completed hcomputed =>
    have hinternal := computeAndAnalyse_internal hcomputed
    exact ⟨hinternal.1, hinternal.2⟩
  | testItem | crashNode | startTest | start | finish => exact ⟨rfl, rfl⟩

/-- The interval of the throughput depends only on whether a test has been started. -/
theorem internal_of_isRun {internal : UInt64} {history : History} {final : Analyzer}
    (h : IsRun (messageHandler X) (Analyzer.new internal) history final) :
    final.performanceTestInternal = internal ∧ final.dataWarehouse.throughputInternal =
      if (messages history).any Message.isStartTest then internal else 0 := by
  induction h with
  | nil => exact ⟨rfl, rfl⟩
  | @snoc run a a' event answer previous taken ih =>
    obtain ⟨hperformance, hthroughput⟩ := messageHandler_internal taken
    refine ⟨hperformance.trans ih.1, ?_⟩
    have hmessages : messages (run ++ [⟨a, event, answer, a'⟩]) = messages run ++ [event.message] :=
      List.map_append
    rw [hthroughput, ih.1, ih.2, hmessages, List.any_append, List.any_cons, List.any_nil, Bool.or_false]
    cases event.message.isStartTest <;> simp

theorem any_controlMessages (history : History) :
    (controlMessages history).any Message.isStartTest = (messages history).any Message.isStartTest := by
  rw [controlMessages, List.any_filter]
  congr 1
  funext message
  cases message with
  | consensusNode => rfl
  | _ => exact Bool.true_and _

/-- After a test item, two histories with the same control messages have the same performance data. -/
theorem performanceRel_of_reset {internal : UInt64} {history history' : History} {a a' : Analyzer}
    (h : IsRun (messageHandler X) (Analyzer.new internal) history a)
    (h' : IsRun (messageHandler X) (Analyzer.new internal) history' a')
    (hcontrol : controlMessages history = controlMessages history') (item : TestItem) :
    PerformanceRel { a with currentTestItem := some item, dataWarehouse := a.dataWarehouse.reset }
      { a' with currentTestItem := some item, dataWarehouse := a'.dataWarehouse.reset } := by
  obtain ⟨hperformance, hthroughput⟩ := internal_of_isRun h
  obtain ⟨hperformance', hthroughput'⟩ := internal_of_isRun h'
  rw [← any_controlMessages] at hthroughput hthroughput'
  have hsame : a'.dataWarehouse.throughputInternal = a.dataWarehouse.throughputInternal := by
    rw [hthroughput, hthroughput', hcontrol]
  refine ⟨rfl, hperformance.trans hperformance'.symm, ?_⟩
  refine ⟨a'.dataWarehouse.sStartData, a'.dataWarehouse.sEndData, a'.dataWarehouse.crashNodes,
    a'.dataWarehouse.crashResults, a'.dataWarehouse.maliciousResults, ?_⟩
  simp only [reset, hsame]

/-! ### The two histories -/

theorem post_of_testItem {a a' : Analyzer} {event : Event} {answer : Answer} {item : TestItem}
    (h : a.messageHandler X event = some (a', answer))
    (hitem : event.message = .controller (.testItem item)) :
    a' = { a with currentTestItem := some item, dataWarehouse := a.dataWarehouse.reset } := by
  have heffect := messageHandler_effect h
  rw [hitem] at heffect
  cases heffect with
  | testItem => rfl

/-- When what is left of earlier security tests does no harm, the results after the last test item do not
depend on the records before it. -/
theorem sameResults_of_leftoversHarmless {internal : UInt64} {item : TestItem}
    {before before' after after' : History} {t t' : Transition Analyzer Event Answer} {final final' : Analyzer}
    (h : IsRun (messageHandler X) (Analyzer.new internal) (before ++ t :: after) final)
    (h' : IsRun (messageHandler X) (Analyzer.new internal) (before' ++ t' :: after') final')
    (hcontrol : controlMessages before = controlMessages before')
    (hitem : t.event.message = .controller (.testItem item))
    (hitem' : t'.event.message = .controller (.testItem item))
    (hafter : messages after = messages after') (hlast : ∀ taken ∈ after, taken.event.message.isTestItem = false)
    (hleft : LeftoversHarmless item t.pre.dataWarehouse t'.pre.dataWarehouse) :
    SameResults item t.pre.dataWarehouse t'.pre.dataWarehouse after after' final.dataWarehouse
      final'.dataWarehouse := by
  obtain ⟨hbefore, htaken⟩ := h.before rfl
  obtain ⟨hbefore', htaken'⟩ := h'.before rfl
  have hrun := h.after rfl
  have hrun' := h'.after rfl
  rw [post_of_testItem htaken hitem] at hrun
  rw [post_of_testItem htaken' hitem'] at hrun'
  refine ⟨?_, ?_⟩
  · have hrel := performanceRel_of_reset hbefore hbefore' hcontrol item
    have hstep (a a' : Analyzer) (event event' : Event) (answer answer' : Answer) (a₁ a₁' : Analyzer)
        (hrel : PerformanceRel a a') (_ : True) (hmessage : event.message = event'.message)
        (h : a.messageHandler X event = some (a₁, answer))
        (h' : a'.messageHandler X event' = some (a₁', answer')) :=
      hrel.step hmessage h h'
    exact (hrun.related_of_map_eq PerformanceRel Event.message
      (fun answer ↦ (answer.rows : Multiset Row)) (fun _ ↦ True) hstep hrel hrun' (fun _ _ ↦ trivial) hafter).2
  · intro table htable hfresh hfresh'
    have hrel : SecurityRel item table
        { t.pre with currentTestItem := some item, dataWarehouse := t.pre.dataWarehouse.reset }
        { t'.pre with currentTestItem := some item, dataWarehouse := t'.pre.dataWarehouse.reset } := by
      refine ⟨rfl, fun current hcurrent ↦ (Option.some.inj hcurrent).symm, ?_, ?_⟩
      · exact hleft table htable hfresh hfresh'
      · have hentry : SameEntry table t.pre.dataWarehouse t'.pre.dataWarehouse := by
          rw [SameEntry, hfresh, hfresh']
        exact hentry
    have hstep (a a' : Analyzer) (event event' : Event) (answer answer' : Answer) (a₁ a₁' : Analyzer)
        (hrel : SecurityRel item table a a') (hnot : event.message.isTestItem = false)
        (hmessage : event.message = event'.message)
        (h : a.messageHandler X event = some (a₁, answer))
        (h' : a'.messageHandler X event' = some (a₁', answer')) :
        SecurityRel item table a₁ a₁' ∧ () = () :=
      ⟨hrel.step htable hnot hmessage h h', rfl⟩
    exact (hrun.related_of_map_eq (SecurityRel item table) Event.message (fun _ ↦ ())
      (fun message ↦ message.isTestItem = false) hstep hrel hrun' hlast hafter).1.entry

/-- No map is walked over, or all of them are empty. -/
def noWalks : Walks := ⟨[], [], [], [], []⟩

def feignDeath : TestItem := .malicious (.leaderFeignDeath .firstRound 1)

/-- A malicious test with one end record. -/
def feignDeathEvents : List Event :=
  [⟨.controller (.testItem feignDeath), noWalks⟩,
    ⟨.consensusNode [1] (.consensusEndData ⟨⟨"a"⟩, 7⟩), noWalks⟩,
    ⟨.completed, { noWalks with securityEnds := [(([1], "a"), ⟨⟨"a"⟩, 7⟩)] }⟩]

/-- A start record before the test. -/
def startedEvents : List Event :=
  ⟨.consensusNode [1] (.consensusStartData ⟨⟨"b"⟩, 5⟩), noWalks⟩ :: feignDeathEvents

theorem sameResults_of_leftoversHarmless_started :
    ∃ (before before' after after' : History) (t t' : Transition Analyzer Event Answer),
      transitions (messageHandler Externals.transparent) (Analyzer.new 10) startedEvents =
        before ++ t :: after ∧
      transitions (messageHandler Externals.transparent) (Analyzer.new 10) feignDeathEvents =
        before' ++ t' :: after' ∧
      before.length = 1 ∧ before'.length = 0 ∧
      SameResults feignDeath t.pre.dataWarehouse t'.pre.dataWarehouse after after'
        (final (messageHandler Externals.transparent) (Analyzer.new 10) startedEvents).dataWarehouse
        (final (messageHandler Externals.transparent) (Analyzer.new 10) feignDeathEvents).dataWarehouse := by
  have hrun : IsRun (messageHandler Externals.transparent) (Analyzer.new 10)
      (transitions _ _ startedEvents) _ := IsRun.of_isSome (by decide +kernel)
  have hrun' : IsRun (messageHandler Externals.transparent) (Analyzer.new 10)
      (transitions _ _ feignDeathEvents) _ := IsRun.of_isSome (by decide +kernel)
  have hsplit := eq_take_append_cons_drop (transitions (messageHandler Externals.transparent)
    (Analyzer.new 10) startedEvents) 1 (by decide +kernel)
  have hsplit' := eq_take_append_cons_drop (transitions (messageHandler Externals.transparent)
    (Analyzer.new 10) feignDeathEvents) 0 (by decide +kernel)
  have hleft : LeftoversHarmless feignDeath
      (transitions (messageHandler Externals.transparent) (Analyzer.new 10) startedEvents)[1].pre.dataWarehouse
      (transitions (messageHandler Externals.transparent) (Analyzer.new 10)
        feignDeathEvents)[0].pre.dataWarehouse := by
    intro table _ _ _ key
    have hnone : (transitions (messageHandler Externals.transparent) (Analyzer.new 10)
        startedEvents)[1].pre.dataWarehouse.sEndData = ∅ := by decide +kernel
    rw [hnone]
    rfl
  rw [hsplit] at hrun
  rw [hsplit'] at hrun'
  exact ⟨_, _, _, _, _, _, hsplit, hsplit', by decide +kernel, by decide +kernel,
    sameResults_of_leftoversHarmless hrun hrun' (by decide +kernel) (by decide +kernel)
      (by decide +kernel) (by decide +kernel) (by decide +kernel) hleft⟩

/-- An end record before the test. -/
def leftoverEvents : List Event :=
  [⟨.consensusNode [1] (.consensusEndData ⟨⟨"a"⟩, 7⟩), noWalks⟩,
    ⟨.controller (.testItem feignDeath), noWalks⟩,
    ⟨.completed, { noWalks with securityEnds := [(([1], "a"), ⟨⟨"a"⟩, 7⟩)] }⟩]

/-- The same test without it. -/
def cleanEvents : List Event :=
  [⟨.controller (.testItem feignDeath), noWalks⟩, ⟨.completed, noWalks⟩]

theorem not_sameResults_of_leftover :
    ¬ ∀ (X : Externals) (internal : UInt64) (item : TestItem) (before before' after after' : History)
      (t t' : Transition Analyzer Event Answer) (final final' : Analyzer),
      IsRun (messageHandler X) (Analyzer.new internal) (before ++ t :: after) final →
      IsRun (messageHandler X) (Analyzer.new internal) (before' ++ t' :: after') final' →
      controlMessages before = controlMessages before' →
      t.event.message = .controller (.testItem item) → t'.event.message = .controller (.testItem item) →
      messages after = messages after' → (∀ taken ∈ after, taken.event.message.isTestItem = false) →
      SameResults item t.pre.dataWarehouse t'.pre.dataWarehouse after after' final.dataWarehouse
        final'.dataWarehouse := by
  intro hclaim
  have hrun : IsRun (messageHandler Externals.transparent) (Analyzer.new 10)
      (transitions _ _ leftoverEvents) _ := IsRun.of_isSome (by decide +kernel)
  have hrun' : IsRun (messageHandler Externals.transparent) (Analyzer.new 10)
      (transitions _ _ cleanEvents) _ := IsRun.of_isSome (by decide +kernel)
  rw [eq_take_append_cons_drop (transitions (messageHandler Externals.transparent) (Analyzer.new 10)
    leftoverEvents) 1 (by decide +kernel)] at hrun
  rw [eq_take_append_cons_drop (transitions (messageHandler Externals.transparent) (Analyzer.new 10)
    cleanEvents) 0 (by decide +kernel)] at hrun'
  have hentry := (hclaim _ _ feignDeath _ _ _ _ _ _ _ _ hrun hrun' (by decide +kernel) (by decide +kernel)
    (by decide +kernel) (by decide +kernel) (by decide +kernel)).entry (.malicious feignDeath) rfl
    (by decide +kernel) (by decide +kernel)
  have hpeer := congrArg (Option.map (· [1])) hentry
  revert hpeer
  decide +kernel

end BFTDiagnosis.Analyzer
