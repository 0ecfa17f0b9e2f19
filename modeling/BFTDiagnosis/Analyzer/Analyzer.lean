import BFTDiagnosis.Analyzer.Loops

/-!
# The analyzer

`Analyzer` of `components/src/analyzer/analyzer.rs`: the handlers of its message loop. The controller
configures a test item, which resets the warehouse, and starts the test; consensus nodes report records;
timers that the analyzer starts make it compute results at every interval and complete the test. A timer
that fires is an event here.
-/

namespace BFTDiagnosis

open Components Utils

structure Analyzer where
  currentTestItem : Option TestItem
  performanceTestInternal : UInt64
  dataWarehouse : Analyzer.DataWarehouse

namespace Analyzer

variable (X : Externals)

/-- The messages of the controller that change the analyzer or its warehouse. -/
inductive ControllerMessage where
  | testItem (item : TestItem)
  | crashNode (count : UInt16) (peerIdBytes : Option Bytes)
  | startTest (number : UInt64)
deriving DecidableEq

/-- `ConsensusData` of `components/src/message.rs`. -/
inductive ConsensusData where
  | consensusStartData (data : ConsensusStartData)
  | consensusEndData (data : ConsensusEndData)
deriving DecidableEq

/-- What the analyzer reacts to. -/
inductive Message where
  /-- `internal_notify`: an interval of a performance test is over. -/
  | internal
  /-- `completed_test_notify`: the time of a test is over. -/
  | completed
  | controller (message : ControllerMessage)
  | consensusNode (originPeerId : PeerId) (data : ConsensusData)
deriving DecidableEq

/-- The walks over the maps of the warehouse while the analyzer handles a message. -/
structure Walks where
  throughputEnds : List (EndKey × ConsensusEndData)
  counts : List (PeerId × UInt64)
  latencyEnds : List (EndKey × ConsensusEndData)
  securityEnds : List (EndKey × ConsensusEndData)
  crashNodes : List (UInt16 × List PeerId)

/-- A message with the walks that are made for it. -/
structure Event where
  message : Message
  walks : Walks

/-- What the analyzer does to its surroundings: the rows it inserts, and the test item that it tells the
controller is completed. -/
structure Answer where
  rows : List Row
  completedTest : Option TestItem

/-! ## Handlers -/

def new (performanceTestInternal : UInt64) : Analyzer where
  currentTestItem := none
  performanceTestInternal := performanceTestInternal
  dataWarehouse := DataWarehouse.new

def setTestItem (a : Analyzer) (testItem : TestItem) : Analyzer := { a with currentTestItem := some testItem }

def clearTestItem (a : Analyzer) : Analyzer := { a with currentTestItem := none }

/-- What is computed for a test item. -/
def analyse (w : DataWarehouse) (testItem : TestItem) (walks : Walks) : Option (DataWarehouse × List Row) :=
  match testItem with
  | .throughput => w.computeThroughput X walks.throughputEnds walks.counts
  | .latency => w.computeLatency walks.latencyEnds
  | .throughputAndLatency => do
    let (w, throughputRows) ← w.computeThroughput X walks.throughputEnds walks.counts
    let (w, latencyRows) ← w.computeLatency walks.latencyEnds
    return (w, throughputRows ++ latencyRows)
  | .scalability .. =>
    w.computeScalability X testItem walks.latencyEnds walks.throughputEnds walks.counts
  | .crash count _ => w.testCrash count walks.securityEnds
  | .malicious _ => w.testMalicious testItem walks.securityEnds

def computeAndAnalyse (a : Analyzer) (walks : Walks) : Option (Analyzer × List Row) :=
  match a.currentTestItem with
  | some testItem => do
    let (w, rows) ← analyse X a.dataWarehouse testItem walks
    return ({ a with dataWarehouse := w }, rows)
  | none => some (a, [])

/-- `next_test`: there has to be a current test item. -/
def nextTest (a : Analyzer) : Option (Analyzer × TestItem) := do
  let currentTestItem ← a.currentTestItem
  return (a.clearTestItem, currentTestItem)

def controllerMessageHandler (a : Analyzer) (message : ControllerMessage) (walks : Walks) :
    Option (Analyzer × List Row) :=
  match message with
  | .testItem item =>
    let a := a.setTestItem item
    let rows := match item with
      | .scalability .. => [.scalabilityItem item]
      | _ => []
    some ({ a with dataWarehouse := a.dataWarehouse.reset }, rows)
  | .crashNode count (some peerIdBytes) => do
    let peerId ← X.peerIdFromBytes peerIdBytes
    return ({ a with dataWarehouse := ← a.dataWarehouse.recordCrashNode count peerId walks.crashNodes }, [])
  | .crashNode _ none => some (a, [])
  | .startTest _ =>
    some ({ a with dataWarehouse := a.dataWarehouse.setThroughputInternal a.performanceTestInternal }, [])

def consensusNodeMessageHandler (a : Analyzer) (originPeerId : PeerId) (data : ConsensusData) : Analyzer :=
  match data with
  | .consensusStartData data => { a with dataWarehouse := a.dataWarehouse.storeConsensusStartData X data }
  | .consensusEndData data =>
    { a with dataWarehouse := a.dataWarehouse.storeConsensusEndData X originPeerId data }

/-- One turn of `message_handler_start`. -/
def messageHandler (a : Analyzer) (event : Event) : Option (Analyzer × Answer) :=
  match event.message with
  | .internal => do
    let (a, rows) ← a.computeAndAnalyse X event.walks
    return (a, ⟨rows, none⟩)
  | .completed => do
    let (a, rows) ← a.computeAndAnalyse X event.walks
    let (a, completedTest) ← a.nextTest
    return (a, ⟨rows, some completedTest⟩)
  | .controller message => do
    let (a, rows) ← a.controllerMessageHandler X message event.walks
    return (a, ⟨rows, none⟩)
  | .consensusNode originPeerId data => some (a.consensusNodeMessageHandler X originPeerId data, ⟨[], none⟩)

/-! ## What a turn of the message loop does -/

/-- What the analysis of a test item does to the warehouse, and the rows it inserts. -/
inductive Analysis (w : DataWarehouse) : TestItem → DataWarehouse → List Row → Prop
  | throughput {w₁ : DataWarehouse} {rows : List Row} (taken : ThroughputStep X .throughput w w₁ rows) :
      Analysis w .throughput w₁ rows
  | latency {w₁ : DataWarehouse} {rows : List Row} (taken : LatencyStep w w₁ rows) :
      Analysis w .latency w₁ rows
  | throughputAndLatency {w₁ w₂ : DataWarehouse} {throughputRows latencyRows : List Row}
      (first : ThroughputStep X .throughput w w₁ throughputRows) (second : LatencyStep w₁ w₂ latencyRows) :
      Analysis w .throughputAndLatency w₂ (throughputRows ++ latencyRows)
  | scalability {count max increment : UInt16} {w₁ w₂ : DataWarehouse} {latencyRows throughputRows : List Row}
      (first : ScalabilityLatencyStep (.scalability count max increment) w w₁ latencyRows)
      (second : ThroughputStep X (.scalabilityThroughput (.scalability count max increment)) w₁ w₂
        throughputRows) :
      Analysis w (.scalability count max increment) w₂ (latencyRows ++ throughputRows)
  | crash {count max : UInt16} {results : HashMap PeerId (List Request)}
      {ends : HashMap EndKey ConsensusEndData}
      (taken : SecurityStep (Started w.sStartData) w.sEndData ends (w.crashResults.mapAt count) results) :
      Analysis w (.crash count max)
        { w with sEndData := ends, crashResults := w.crashResults.insert count results } []
  | malicious {behaviour : MaliciousBehaviour} {results : HashMap PeerId (List Request)}
      {ends : HashMap EndKey ConsensusEndData}
      (taken : SecurityStep (fun _ ↦ true) w.sEndData ends
        (w.maliciousResults.mapAt (.malicious behaviour)) results) :
      Analysis w (.malicious behaviour) { w with
        sEndData := ends
        maliciousResults := w.maliciousResults.insert (.malicious behaviour) results } []

variable {X} in
theorem analyse_spec {item : TestItem} {walks : Walks} {w w₁ : DataWarehouse} {rows : List Row}
    (h : analyse X w item walks = some (w₁, rows)) : Analysis X w item w₁ rows := by
  cases item with
  | throughput => exact .throughput (computeThroughputWith_spec h)
  | latency => exact .latency (computeLatency_spec h)
  | throughputAndLatency =>
    obtain ⟨⟨w₂, throughputRows⟩, hfirst, hrest⟩ := Option.bind_eq_some_iff.1 h
    obtain ⟨⟨w₃, latencyRows⟩, hsecond, hsome⟩ := Option.bind_eq_some_iff.1 hrest
    obtain ⟨rfl, rfl⟩ := Prod.mk.inj (Option.some.inj hsome)
    exact .throughputAndLatency (computeThroughputWith_spec hfirst) (computeLatency_spec hsecond)
  | scalability count max increment =>
    obtain ⟨⟨w₂, latencyRows⟩, hfirst, hrest⟩ := Option.bind_eq_some_iff.1 h
    obtain ⟨⟨w₃, throughputRows⟩, hsecond, hsome⟩ := Option.bind_eq_some_iff.1 hrest
    obtain ⟨rfl, rfl⟩ := Prod.mk.inj (Option.some.inj hsome)
    exact .scalability (computeScalabilityLatency_spec hfirst) (computeThroughputWith_spec hsecond)
  | crash count max =>
    obtain ⟨results, ends, rfl, rfl, htaken⟩ := testCrash_spec h
    exact .crash htaken
  | malicious behaviour =>
    obtain ⟨results, ends, rfl, rfl, htaken⟩ := testMalicious_spec h
    exact .malicious htaken

variable {X} in
/-- What a computation does: nothing without a test item, and otherwise the analysis of the item. -/
theorem computeAndAnalyse_cases {a a₁ : Analyzer} {walks : Walks} {rows : List Row}
    (h : a.computeAndAnalyse X walks = some (a₁, rows)) :
    (a.currentTestItem = none ∧ a₁ = a ∧ rows = []) ∨
      ∃ item w, a.currentTestItem = some item ∧ Analysis X a.dataWarehouse item w rows ∧
        a₁ = { a with dataWarehouse := w } := by
  unfold computeAndAnalyse at h
  cases hitem : a.currentTestItem with
  | none =>
    rw [hitem] at h
    obtain ⟨rfl, rfl⟩ := Prod.mk.inj (Option.some.inj h)
    exact .inl ⟨rfl, rfl, rfl⟩
  | some item =>
    rw [hitem] at h
    obtain ⟨⟨w, rows'⟩, hanalyse, hsome⟩ := Option.bind_eq_some_iff.1 h
    obtain ⟨rfl, rfl⟩ := Prod.mk.inj (Option.some.inj hsome)
    exact .inr ⟨item, w, rfl, analyse_spec hanalyse, rfl⟩

variable {X} in
/-- Two analyzers with one current test item both have none, or both analyse it. -/
theorem computeAndAnalyse_both {a a' a₁ a₁' : Analyzer} {walks walks' : Walks} {rows rows' : List Row}
    (hitem : a.currentTestItem = a'.currentTestItem) (h : a.computeAndAnalyse X walks = some (a₁, rows))
    (h' : a'.computeAndAnalyse X walks' = some (a₁', rows')) :
    (a₁ = a ∧ a₁' = a' ∧ rows = [] ∧ rows' = []) ∨
      ∃ item w w', a.currentTestItem = some item ∧ Analysis X a.dataWarehouse item w rows ∧
        Analysis X a'.dataWarehouse item w' rows' ∧ a₁ = { a with dataWarehouse := w } ∧
        a₁' = { a' with dataWarehouse := w' } := by
  rcases computeAndAnalyse_cases h with ⟨hnone, hsame, hrows⟩ | ⟨item, w, hcurrent, hanalyse, heq⟩
  · rcases computeAndAnalyse_cases h' with ⟨-, hsame', hrows'⟩ | ⟨item', w', hcurrent', -⟩
    · exact .inl ⟨hsame, hsame', hrows, hrows'⟩
    · rw [← hitem, hnone] at hcurrent'
      cases hcurrent'
  · rcases computeAndAnalyse_cases h' with ⟨hnone, -⟩ | ⟨item', w', hcurrent', hanalyse', heq'⟩
    · rw [← hitem, hcurrent] at hnone
      cases hnone
    · rw [← hitem, hcurrent] at hcurrent'
      obtain rfl := Option.some.inj hcurrent'
      exact .inr ⟨item, w, w', hcurrent, hanalyse, hanalyse', heq, heq'⟩

/-- What a turn of the message loop does. -/
inductive HandlerEffect (a : Analyzer) (walks : Walks) : Message → Analyzer → Answer → Prop
  | internal {a₁ : Analyzer} {rows : List Row} (computed : a.computeAndAnalyse X walks = some (a₁, rows)) :
      HandlerEffect a walks .internal a₁ ⟨rows, none⟩
  | completed {a₁ : Analyzer} {rows : List Row} {item : TestItem}
      (computed : a.computeAndAnalyse X walks = some (a₁, rows)) (current : a₁.currentTestItem = some item) :
      HandlerEffect a walks .completed a₁.clearTestItem ⟨rows, some item⟩
  | testItem {item : TestItem} {rows : List Row}
      (recorded : rows = match item with | .scalability .. => [.scalabilityItem item] | _ => []) :
      HandlerEffect a walks (.controller (.testItem item))
        { a with currentTestItem := some item, dataWarehouse := a.dataWarehouse.reset } ⟨rows, none⟩
  | crashNode {count : UInt16} {peerIdBytes : Option Bytes} {nodes : HashMap UInt16 (List PeerId)} :
      HandlerEffect a walks (.controller (.crashNode count peerIdBytes))
        { a with dataWarehouse := { a.dataWarehouse with crashNodes := nodes } } ⟨[], none⟩
  | startTest {number : UInt64} : HandlerEffect a walks (.controller (.startTest number))
      { a with dataWarehouse := a.dataWarehouse.setThroughputInternal a.performanceTestInternal } ⟨[], none⟩
  | start {peer : PeerId} {data : ConsensusStartData} :
      HandlerEffect a walks (.consensusNode peer (.consensusStartData data))
        { a with dataWarehouse := a.dataWarehouse.storeConsensusStartData X data } ⟨[], none⟩
  | finish {peer : PeerId} {data : ConsensusEndData} :
      HandlerEffect a walks (.consensusNode peer (.consensusEndData data))
        { a with dataWarehouse := a.dataWarehouse.storeConsensusEndData X peer data } ⟨[], none⟩

variable {X} in
theorem messageHandler_effect {a a' : Analyzer} {event : Event} {answer : Answer}
    (h : a.messageHandler X event = some (a', answer)) :
    HandlerEffect X a event.walks event.message a' answer := by
  obtain ⟨message, walks⟩ := event
  cases message with
  | internal =>
    obtain ⟨⟨a₁, rows⟩, hcomputed, hsome⟩ := Option.bind_eq_some_iff.1 h
    obtain ⟨rfl, rfl⟩ := Prod.mk.inj (Option.some.inj hsome)
    exact .internal hcomputed
  | completed =>
    obtain ⟨⟨a₁, rows⟩, hcomputed, hrest⟩ := Option.bind_eq_some_iff.1 h
    obtain ⟨⟨a₂, item⟩, hnext, hsome⟩ := Option.bind_eq_some_iff.1 hrest
    obtain ⟨item', hitem, hcleared⟩ := Option.bind_eq_some_iff.1 hnext
    obtain ⟨rfl, rfl⟩ := Prod.mk.inj (Option.some.inj hcleared)
    obtain ⟨rfl, rfl⟩ := Prod.mk.inj (Option.some.inj hsome)
    exact .completed hcomputed hitem
  | controller message =>
    obtain ⟨⟨a₁, rows⟩, hhandled, hsome⟩ := Option.bind_eq_some_iff.1 h
    obtain ⟨rfl, rfl⟩ := Prod.mk.inj (Option.some.inj hsome)
    cases message with
    | testItem item =>
      obtain ⟨rfl, rfl⟩ := Prod.mk.inj (Option.some.inj hhandled)
      exact .testItem rfl
    | crashNode count peerIdBytes =>
      cases peerIdBytes with
      | none =>
        obtain ⟨rfl, rfl⟩ := Prod.mk.inj (Option.some.inj hhandled)
        exact .crashNode
      | some bytes =>
        obtain ⟨peerId, -, hrest⟩ := Option.bind_eq_some_iff.1 hhandled
        obtain ⟨w, hrecord, hsome⟩ := Option.bind_eq_some_iff.1 hrest
        obtain ⟨nodes, rfl⟩ := recordCrashNode_spec hrecord
        obtain ⟨rfl, rfl⟩ := Prod.mk.inj (Option.some.inj hsome)
        exact .crashNode
    | startTest number =>
      obtain ⟨rfl, rfl⟩ := Prod.mk.inj (Option.some.inj hhandled)
      exact .startTest
  | consensusNode peer data =>
    obtain ⟨rfl, rfl⟩ := Prod.mk.inj (Option.some.inj h)
    cases data with
    | consensusStartData data => exact .start
    | consensusEndData data => exact .finish

end Analyzer

end BFTDiagnosis
