import BFTDiagnosis.Analyzer.Isolation

/-!
# Redelivered end records

The warehouse keys end records by peer and request, so a record that arrives again while it is waiting to be
computed with replaces itself. The three copies of a record are consumed independently of each other, and
each of the results depends on one of them only. A record that arrives again after a computation has consumed
it is a new record.
-/

namespace BFTDiagnosis.Analyzer

open Components DataWarehouse

variable {X : Externals}

/-- A call without the orders of its walks. -/
def Op.call : Op → Op
  | .computeThroughput _ _ => .computeThroughput [] []
  | .computeLatency _ => .computeLatency []
  | .computeScalabilityThroughput item _ _ => .computeScalabilityThroughput item [] []
  | .computeScalabilityLatency item _ => .computeScalabilityLatency item []
  | .testCrash crashCount _ => .testCrash crashCount []
  | .testMalicious testItem _ => .testMalicious testItem []
  | .recordCrashNode count peerId _ => .recordCrashNode count peerId []
  | op => op

def Row.isLatency : Row → Bool
  | .latency .. => true
  | .scalabilityLatency .. => true
  | _ => false

/-- What two warehouses do in answer to the same call, with walks in any orders. -/
inductive EffectBoth (X : Externals) (w w' : DataWarehouse) :
    DataWarehouse → DataWarehouse → List Row → List Row → Prop
  | start (data : ConsensusStartData) :
      EffectBoth X w w' (w.storeConsensusStartData X data) (w'.storeConsensusStartData X data) [] []
  | finish (peer : PeerId) (data : ConsensusEndData) :
      EffectBoth X w w' (w.storeConsensusEndData X peer data) (w'.storeConsensusEndData X peer data) [] []
  | throughput (row : UInt64 → PeerId → UInt64 → Row) {w₁ w₁' : DataWarehouse} {rows rows' : List Row}
      (noLatency : ∀ round peer throughput, (row round peer throughput).isLatency = false)
      (taken : ThroughputStep X row w w₁ rows) (taken' : ThroughputStep X row w' w₁' rows') :
      EffectBoth X w w' w₁ w₁' rows rows'
  | latency {w₁ w₁' : DataWarehouse} {rows rows' : List Row} (taken : LatencyStep w w₁ rows)
      (taken' : LatencyStep w' w₁' rows') : EffectBoth X w w' w₁ w₁' rows rows'
  | scalabilityLatency (item : TestItem) {w₁ w₁' : DataWarehouse} {rows rows' : List Row}
      (taken : ScalabilityLatencyStep item w w₁ rows) (taken' : ScalabilityLatencyStep item w' w₁' rows') :
      EffectBoth X w w' w₁ w₁' rows rows'
  | crash (crashCount : UInt16) {results results' : HashMap PeerId (List Request)}
      {ends ends' : HashMap EndKey ConsensusEndData}
      (taken : SecurityStep (Started w.sStartData) w.sEndData ends (w.crashResults.mapAt crashCount) results)
      (taken' : SecurityStep (Started w'.sStartData) w'.sEndData ends' (w'.crashResults.mapAt crashCount)
        results') :
      EffectBoth X w w'
        { w with sEndData := ends, crashResults := w.crashResults.insert crashCount results }
        { w' with sEndData := ends', crashResults := w'.crashResults.insert crashCount results' } [] []
  | malicious (testItem : TestItem) {results results' : HashMap PeerId (List Request)}
      {ends ends' : HashMap EndKey ConsensusEndData}
      (taken : SecurityStep (fun _ ↦ true) w.sEndData ends (w.maliciousResults.mapAt testItem) results)
      (taken' : SecurityStep (fun _ ↦ true) w'.sEndData ends' (w'.maliciousResults.mapAt testItem) results') :
      EffectBoth X w w'
        { w with sEndData := ends, maliciousResults := w.maliciousResults.insert testItem results }
        { w' with sEndData := ends', maliciousResults := w'.maliciousResults.insert testItem results' } [] []
  | crashNode (nodes nodes' : HashMap UInt16 (List PeerId)) :
      EffectBoth X w w' { w with crashNodes := nodes } { w' with crashNodes := nodes' } [] []
  | interval (internal : UInt64) :
      EffectBoth X w w' (w.setThroughputInternal internal) (w'.setThroughputInternal internal) [] []
  | reset : EffectBoth X w w' w.reset w'.reset [] []

theorem step_effectBoth {w w' w₁ w₁' : DataWarehouse} {op op' : Op} {rows rows' : List Row}
    (hcall : op.call = op'.call) (h : step X w op = some (w₁, rows))
    (h' : step X w' op' = some (w₁', rows')) : EffectBoth X w w' w₁ w₁' rows rows' := by
  have heffect := step_effect h
  have heffect' := step_effect h'
  cases heffect <;> cases heffect' <;> injection hcall
  case start.start _ hdata => exact hdata ▸ .start _
  case finish.finish hpeer hdata => exact hpeer ▸ hdata ▸ .finish _ _
  case throughput.throughput taken _ _ taken' _ _ => exact .throughput _ (fun _ _ _ ↦ rfl) taken taken'
  case scalabilityThroughput.scalabilityThroughput taken _ _ _ taken' hitem _ _ =>
    exact .throughput _ (fun _ _ _ ↦ rfl) taken (hitem ▸ taken')
  case latency.latency taken _ taken' _ => exact .latency taken taken'
  case scalabilityLatency.scalabilityLatency taken _ _ taken' hitem _ =>
    exact .scalabilityLatency _ taken (hitem ▸ taken')
  case crash.crash taken crashCount' _ _ _ taken' hcount _ =>
    subst hcount
    exact .crash _ taken taken'
  case malicious.malicious taken testItem' _ _ _ taken' hitem _ =>
    subst hitem
    exact .malicious _ taken taken'
  case crashNode.crashNode => exact .crashNode _ _
  case interval.interval hinternal => exact hinternal ▸ .interval _
  case reset.reset => exact .reset

/-! ## Throughput -/

/-- The part of the warehouse that the throughput is computed on. -/
structure ThroughputData where
  starts : HashMap String ConsensusStartData
  ends : HashMap EndKey ConsensusEndData
  startsComputing : HashMap String ConsensusStartData
  endsComputing : HashMap EndKey ConsensusEndData
  midResults : HashMap PeerId UInt64
  round : UInt64
  internal : UInt64

def DataWarehouse.throughputData (w : DataWarehouse) : ThroughputData :=
  ⟨w.tStartData, w.tEndData, w.tStartDataComputing, w.tEndDataComputing, w.throughputMidResults,
    w.internalRound, w.throughputInternal⟩

theorem ThroughputStep.throughputData_eq {row : UInt64 → PeerId → UInt64 → Row} {w w' w₁ w₁' : DataWarehouse}
    {rows rows' : List Row} (h : ThroughputStep X row w w₁ rows) (h' : ThroughputStep X row w' w₁' rows')
    (hsame : w.throughputData = w'.throughputData) : w₁.throughputData = w₁'.throughputData := by
  obtain ⟨hstarts, hends, -, -, hmid, hround, hinternal⟩ := ThroughputData.mk.inj hsame
  have hcounts : w₁.throughputMidResults = w₁'.throughputMidResults := by
    apply Finmap.ext_lookup
    intro peer
    rw [h.counts.entry, h'.counts.entry, midCount, midCount, hstarts, hends, hmid]
  have hround₁ : w₁.internalRound = w₁'.internalRound := by
    apply Option.some.inj
    rw [← h.round, ← h'.round, hround]
  obtain ⟨counts, round, rfl⟩ := h.frame
  obtain ⟨counts', round', rfl⟩ := h'.frame
  obtain rfl : counts = counts' := hcounts
  obtain rfl : round = round' := hround₁
  simp only [throughputData, hstarts, hends, hinternal]

/-- No other computation touches the data of the throughput. -/
theorem EffectBoth.throughputData_eq {w w' w₁ w₁' : DataWarehouse} {rows rows' : List Row}
    (h : EffectBoth X w w' w₁ w₁' rows rows') (hsame : w.throughputData = w'.throughputData) :
    w₁.throughputData = w₁'.throughputData := by
  cases h with
  | start data =>
    exact congrArg (fun d : ThroughputData ↦
      { d with starts := d.starts.insert (getRequestHash X data.request) data }) hsame
  | finish peer data =>
    exact congrArg (fun d : ThroughputData ↦
      { d with ends := d.ends.insert (peer, getRequestHash X data.request) data }) hsame
  | throughput row _ taken taken' => exact taken.throughputData_eq taken' hsame
  | latency taken taken' =>
    rw [taken.frame, taken'.frame]
    exact hsame
  | scalabilityLatency item taken taken' =>
    rw [taken.frame, taken'.frame]
    exact hsame
  | crash | malicious | crashNode => exact hsame
  | interval internal => exact congrArg (fun d : ThroughputData ↦ { d with internal := internal }) hsame
  | reset => exact congrArg (fun d ↦ ThroughputData.mk ∅ ∅ ∅ ∅ ∅ 0 d.internal) hsame

/-! ## Latency -/

/-- The part of the warehouse that latencies are computed on. -/
structure LatencyData where
  starts : HashMap String ConsensusStartData
  ends : HashMap EndKey ConsensusEndData
  startsComputing : HashMap String ConsensusStartData
  endsComputing : HashMap EndKey ConsensusEndData

def DataWarehouse.latencyData (w : DataWarehouse) : LatencyData :=
  ⟨w.lStartData, w.lEndData, w.lStartDataComputing, w.lEndDataComputing⟩

/-- The latencies among the rows of a call, whatever the order of the walk. -/
def latencyRows (rows : List Row) : Multiset Row := (rows : Multiset Row).filter (·.isLatency = true)

theorem ThroughputStep.latencyRows_eq {row : UInt64 → PeerId → UInt64 → Row} {w w₁ : DataWarehouse}
    {rows : List Row} (h : ThroughputStep X row w w₁ rows)
    (hrow : ∀ round peer throughput, (row round peer throughput).isLatency = false) :
    latencyRows rows = 0 := by
  rw [latencyRows, h.rows]
  apply Multiset.filter_eq_nil.2
  intro entry hentry
  obtain ⟨count, -, rfl⟩ := Multiset.mem_map.1 hentry
  rw [hrow]
  exact Bool.false_ne_true

/-- The data of the latencies and the rows computed on it. -/
theorem EffectBoth.latencyData_eq {w w' w₁ w₁' : DataWarehouse} {rows rows' : List Row}
    (h : EffectBoth X w w' w₁ w₁' rows rows') (hsame : w.latencyData = w'.latencyData) :
    w₁.latencyData = w₁'.latencyData ∧ latencyRows rows = latencyRows rows' := by
  cases h with
  | start data =>
    exact ⟨congrArg (fun d : LatencyData ↦
      { d with starts := d.starts.insert (getRequestHash X data.request) data }) hsame, rfl⟩
  | finish peer data =>
    exact ⟨congrArg (fun d : LatencyData ↦
      { d with ends := d.ends.insert (peer, getRequestHash X data.request) data }) hsame, rfl⟩
  | throughput row hrow taken taken' =>
    obtain ⟨counts, round, rfl⟩ := taken.frame
    obtain ⟨counts', round', rfl⟩ := taken'.frame
    exact ⟨hsame, by rw [taken.latencyRows_eq hrow, taken'.latencyRows_eq hrow]⟩
  | latency taken taken' =>
    obtain ⟨hstarts, hends, -, -⟩ := LatencyData.mk.inj hsame
    refine ⟨?_, ?_⟩
    · rw [taken.frame, taken'.frame]
      simp only [latencyData, hstarts, hends]
    · rw [latencyRows, latencyRows, taken.rows, taken'.rows, hstarts, hends]
  | scalabilityLatency item taken taken' =>
    obtain ⟨hstarts, hends, -, -⟩ := LatencyData.mk.inj hsame
    refine ⟨?_, ?_⟩
    · rw [taken.frame, taken'.frame]
      simp only [latencyData, hstarts, hends]
    · rw [latencyRows, latencyRows, taken.rows, taken'.rows, hstarts, hends]
  | crash | malicious | crashNode | interval => exact ⟨hsame, rfl⟩
  | reset => exact ⟨rfl, rfl⟩

/-! ## Security -/

/-- The warehouses agree on the records of the security tests, and on their result lists up to order. -/
structure SameSecurity (w w' : DataWarehouse) : Prop where
  starts : w.sStartData = w'.sStartData
  ends : w.sEndData = w'.sEndData
  entries : ∀ table, SameEntry table w w'

theorem SecurityStep.results_eq {done : EndKey × ConsensusEndData → Bool}
    {ends ends₁ ends₁' : HashMap EndKey ConsensusEndData}
    {results results' results₁ results₁' : HashMap PeerId (List Request)}
    (h : SecurityStep done ends ends₁ results results₁) (h' : SecurityStep done ends ends₁' results' results₁')
    (hresults : contents results = contents results') :
    ends₁ = ends₁' ∧ contents results₁ = contents results₁' := by
  refine ⟨h.remaining.trans h'.remaining.symm, ?_⟩
  funext peer
  rw [h.recorded peer, h'.recorded peer, hresults]

/-- A crash test writes to one table. -/
theorem SameEntry.insert_crash {w w' : DataWarehouse} {crashCount : UInt16}
    {results results' : HashMap PeerId (List Request)} {ends ends' : HashMap EndKey ConsensusEndData}
    (hentries : ∀ table, SameEntry table w w') (hresults : contents results = contents results')
    (table : ResultTable) : SameEntry table
      { w with sEndData := ends, crashResults := w.crashResults.insert crashCount results }
      { w' with sEndData := ends', crashResults := w'.crashResults.insert crashCount results' } := by
  by_cases htable : table = .crash crashCount
  · rw [htable, SameEntry, resultEntry_crash, resultEntry_crash, Option.map_some, Option.map_some, hresults]
  · have hentry := hentries table
    cases table with
    | crash count =>
      have hne : count ≠ crashCount := fun heq ↦ htable (congrArg _ heq)
      simp only [SameEntry, resultEntry] at hentry ⊢
      rwa [Finmap.lookup_insert_of_ne _ hne, Finmap.lookup_insert_of_ne _ hne]
    | malicious item => exact hentry

/-- A malicious test writes to one table. -/
theorem SameEntry.insert_malicious {w w' : DataWarehouse} {testItem : TestItem}
    {results results' : HashMap PeerId (List Request)} {ends ends' : HashMap EndKey ConsensusEndData}
    (hentries : ∀ table, SameEntry table w w') (hresults : contents results = contents results')
    (table : ResultTable) : SameEntry table
      { w with sEndData := ends, maliciousResults := w.maliciousResults.insert testItem results }
      { w' with sEndData := ends', maliciousResults := w'.maliciousResults.insert testItem results' } := by
  by_cases htable : table = .malicious testItem
  · rw [htable, SameEntry, resultEntry_malicious, resultEntry_malicious, Option.map_some, Option.map_some,
      hresults]
  · have hentry := hentries table
    cases table with
    | crash count => exact hentry
    | malicious item =>
      have hne : item ≠ testItem := fun heq ↦ htable (congrArg _ heq)
      simp only [SameEntry, resultEntry] at hentry ⊢
      rwa [Finmap.lookup_insert_of_ne _ hne, Finmap.lookup_insert_of_ne _ hne]

theorem EffectBoth.sameSecurity {w w' w₁ w₁' : DataWarehouse} {rows rows' : List Row}
    (h : EffectBoth X w w' w₁ w₁' rows rows') (hsame : SameSecurity w w') : SameSecurity w₁ w₁' := by
  obtain ⟨hstarts, hends, hentries⟩ := hsame
  cases h with
  | start data =>
    exact ⟨congrArg (fun m : HashMap String ConsensusStartData ↦ m.insert _ data) hstarts, hends, hentries⟩
  | finish peer data =>
    exact ⟨hstarts, congrArg (fun m : HashMap EndKey ConsensusEndData ↦ m.insert _ data) hends, hentries⟩
  | throughput row _ taken taken' =>
    obtain ⟨counts, round, rfl⟩ := taken.frame
    obtain ⟨counts', round', rfl⟩ := taken'.frame
    exact ⟨hstarts, hends, hentries⟩
  | latency taken taken' =>
    rw [taken.frame, taken'.frame]
    exact ⟨hstarts, hends, hentries⟩
  | scalabilityLatency item taken taken' =>
    rw [taken.frame, taken'.frame]
    exact ⟨hstarts, hends, hentries⟩
  | crash crashCount taken taken' =>
    rw [← hstarts, ← hends] at taken'
    obtain ⟨hends₁, hresults₁⟩ := taken.results_eq taken' (hentries (.crash crashCount)).contents_eq
    exact ⟨hstarts, hends₁, SameEntry.insert_crash hentries hresults₁⟩
  | malicious testItem taken taken' =>
    rw [← hends] at taken'
    obtain ⟨hends₁, hresults₁⟩ := taken.results_eq taken' (hentries (.malicious testItem)).contents_eq
    exact ⟨hstarts, hends₁, SameEntry.insert_malicious hentries hresults₁⟩
  | crashNode | interval | reset => exact ⟨hstarts, hends, hentries⟩

theorem SameSecurity.resultList_eq {w w' : DataWarehouse} (h : SameSecurity w w') (table : ResultTable)
    (peer : PeerId) :
    (w.resultList table peer : Multiset Request) = (w'.resultList table peer : Multiset Request) := by
  rw [resultList, resultList, ← getD_contents, ← getD_contents, (h.entries table).contents_eq]

/-! ## A record that is stored once more -/

/-- The same calls are made, with walks in any orders. -/
def SameCalls (run run' : Run) : Prop := run.map (·.event.call) = run'.map (·.event.call)

theorem related_of_sameCalls {ω : Type} (Rel : DataWarehouse → DataWarehouse → Prop)
    (observe : List Row → ω)
    (hstep : ∀ w w' w₁ w₁' rows rows', EffectBoth X w w' w₁ w₁' rows rows' → Rel w w' →
      Rel w₁ w₁' ∧ observe rows = observe rows')
    {w w' final final' : DataWarehouse} {run run' : Run} (hrel : Rel w w')
    (h : IsRun (step X) w run final) (h' : IsRun (step X) w' run' final') (hcalls : SameCalls run run') :
    Rel final final' ∧ run.map (observe ·.out) = run'.map (observe ·.out) := by
  apply IsRun.related_of_map_eq Rel Op.call observe (fun _ ↦ True) _ hrel h h' (fun _ _ ↦ trivial) hcalls
  intro w w' op op' rows rows' w₁ w₁' hrel _ hcall htaken htaken'
  exact hstep w w' w₁ w₁' rows rows' (step_effectBoth hcall htaken htaken') hrel

theorem sameCalls_of_isSome {w w' : DataWarehouse} {ops ops' : List Op}
    (h : (exec (step X) w ops).isSome = true) (h' : (exec (step X) w' ops').isSome = true)
    (hcalls : ops.map Op.call = ops'.map Op.call) :
    SameCalls (transitions (step X) w ops) (transitions (step X) w' ops') := by
  have hmap (run : Run) : run.map (·.event.call) = (run.map Transition.event).map Op.call := by
    rw [List.map_map]
    rfl
  rw [SameCalls, hmap, hmap, map_event_of_exec (exec_eq_of_isSome h), map_event_of_exec (exec_eq_of_isSome h'),
    hcalls]

/-- A record that is in a map already changes nothing there when it is inserted again. -/
theorem insert_eq_self {ends : HashMap EndKey ConsensusEndData} {key : EndKey} {data : ConsensusEndData}
    (h : ends.lookup key = some data) : ends.insert key data = ends := by
  apply Finmap.ext_lookup
  intro key'
  by_cases hkey : key' = key
  · rw [hkey, Finmap.lookup_insert, h]
  · rw [Finmap.lookup_insert_of_ne _ hkey]

/-- Storing a record once more changes no result, while its copy that the result is computed from is still
there. -/
theorem results_eq_of_redelivered {w final final' : DataWarehouse} {peer : PeerId} {data : ConsensusEndData}
    {run run' : Run} (h : IsRun (step X) w run final)
    (h' : IsRun (step X) (w.storeConsensusEndData X peer data) run' final') (hcalls : SameCalls run run') :
    (w.tEndData.lookup (peer, getRequestHash X data.request) = some data →
      final.throughputMidResults = final'.throughputMidResults) ∧
    (w.lEndData.lookup (peer, getRequestHash X data.request) = some data →
      run.map (latencyRows ·.out) = run'.map (latencyRows ·.out)) ∧
    (w.sEndData.lookup (peer, getRequestHash X data.request) = some data → ∀ table peer,
      (final.resultList table peer : Multiset Request) = (final'.resultList table peer : Multiset Request)) := by
  refine ⟨fun hpending ↦ ?_, fun hpending ↦ ?_, fun hpending ↦ ?_⟩
  · have hsame : w.throughputData = (w.storeConsensusEndData X peer data).throughputData := by
      simp only [throughputData, storeConsensusEndData, insert_eq_self hpending]
    obtain ⟨hfinal, -⟩ := related_of_sameCalls (fun w w' ↦ w.throughputData = w'.throughputData)
      (fun _ ↦ ()) (fun _ _ _ _ _ _ heffect hsame ↦ ⟨heffect.throughputData_eq hsame, rfl⟩) hsame h h' hcalls
    exact congrArg ThroughputData.midResults hfinal
  · have hsame : w.latencyData = (w.storeConsensusEndData X peer data).latencyData := by
      simp only [latencyData, storeConsensusEndData, insert_eq_self hpending]
    exact (related_of_sameCalls (fun w w' ↦ w.latencyData = w'.latencyData) latencyRows
      (fun _ _ _ _ _ _ heffect hsame ↦ heffect.latencyData_eq hsame) hsame h h' hcalls).2
  · have hsame : SameSecurity w (w.storeConsensusEndData X peer data) :=
      ⟨rfl, (insert_eq_self hpending).symm, fun _ ↦ rfl⟩
    obtain ⟨hfinal, -⟩ := related_of_sameCalls SameSecurity (fun _ ↦ ())
      (fun _ _ _ _ _ _ heffect hsame ↦ ⟨heffect.sameSecurity hsame, rfl⟩) hsame h h' hcalls
    exact hfinal.resultList_eq

/-- One request with its start record and the end record of one peer. -/
def completedOps : List Op :=
  [.storeConsensusStartData [9] ⟨⟨"a"⟩, 5⟩, .storeConsensusEndData [1] ⟨⟨"a"⟩, 7⟩]

/-- One computation of each kind on that request. -/
def computeOps : List Op :=
  [.computeThroughput [(([1], "a"), ⟨⟨"a"⟩, 7⟩)] [([1], 1)], .computeLatency [(([1], "a"), ⟨⟨"a"⟩, 7⟩)],
    .testCrash 0 [(([1], "a"), ⟨⟨"a"⟩, 7⟩)]]

theorem results_eq_of_redelivered_before_compute :
    let w := final (step Externals.transparent) DataWarehouse.new completedOps
    let once := final (step Externals.transparent) w computeOps
    let twice := final (step Externals.transparent)
      (w.storeConsensusEndData Externals.transparent [1] ⟨⟨"a"⟩, 7⟩) computeOps
    once.throughputMidResults.lookup [1] = some 1 ∧ once.throughputMidResults = twice.throughputMidResults ∧
      (transitions (step Externals.transparent) w computeOps).map (latencyRows ·.out) =
        (transitions (step Externals.transparent)
          (w.storeConsensusEndData Externals.transparent [1] ⟨⟨"a"⟩, 7⟩) computeOps).map (latencyRows ·.out) ∧
      once.resultList (.crash 0) [1] = [⟨"a"⟩] ∧
      (once.resultList (.crash 0) [1] : Multiset Request) = (twice.resultList (.crash 0) [1] : Multiset Request) := by
  intro w once twice
  have honce : (exec (step Externals.transparent) w computeOps).isSome = true := by decide +kernel
  have htwice : (exec (step Externals.transparent)
      (w.storeConsensusEndData Externals.transparent [1] ⟨⟨"a"⟩, 7⟩) computeOps).isSome = true := by
    decide +kernel
  obtain ⟨hmid, hrows, hlists⟩ := results_eq_of_redelivered (IsRun.of_isSome honce) (IsRun.of_isSome htwice)
    (sameCalls_of_isSome honce htwice rfl)
  exact ⟨by decide +kernel, hmid (by decide +kernel), hrows (by decide +kernel), by decide +kernel,
    hlists (by decide +kernel) (.crash 0) [1]⟩

/-- Another computation of the throughput, after the record has been counted. -/
def countedOps : List Op := completedOps ++ computeOps

theorem not_results_eq_of_redelivered_consumed :
    ¬ ∀ (X : Externals) (initial w final final' : DataWarehouse) (before run run' : Run) (peer : PeerId)
      (data : ConsensusEndData),
      IsRun (step X) initial.reset before w → (∀ t ∈ before, t.event.isReset = false) →
      (peer, data) ∈ storedEnds before → IsRun (step X) w run final →
      IsRun (step X) (w.storeConsensusEndData X peer data) run' final' → SameCalls run run' →
      final.throughputMidResults = final'.throughputMidResults := by
  intro hclaim
  let w := final (step Externals.transparent) DataWarehouse.new.reset countedOps
  have hbefore : (exec (step Externals.transparent) DataWarehouse.new.reset countedOps).isSome = true := by
    decide +kernel
  have honce : (exec (step Externals.transparent) w [.computeThroughput [] [([1], 1)]]).isSome = true := by
    decide +kernel
  have htwice : (exec (step Externals.transparent)
      (w.storeConsensusEndData Externals.transparent [1] ⟨⟨"a"⟩, 7⟩)
      [.computeThroughput [(([1], "a"), ⟨⟨"a"⟩, 7⟩)] [([1], 2)]]).isSome = true := by
    decide +kernel
  have hsame := hclaim _ _ _ _ _ _ _ _ [1] ⟨⟨"a"⟩, 7⟩ (IsRun.of_isSome hbefore) (by decide +kernel)
    (by decide +kernel) (IsRun.of_isSome honce) (IsRun.of_isSome htwice) (sameCalls_of_isSome honce htwice rfl)
  have hcount := congrArg (Finmap.lookup [1]) hsame
  revert hcount
  decide +kernel

end BFTDiagnosis.Analyzer
