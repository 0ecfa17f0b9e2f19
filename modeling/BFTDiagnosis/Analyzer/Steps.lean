import BFTDiagnosis.Analyzer.Loops

/-!
# Runs of the warehouse

What one call on the warehouse can do, and the records that the calls of a run have stored. The records
are kept under hashes of requests, so results about requests need that the requests of the run have
different hashes.
-/

namespace BFTDiagnosis.Analyzer

open Components DataWarehouse

variable (X : Externals)

/-- What a call does to the warehouse, and the rows it inserts. -/
inductive Effect (w : DataWarehouse) : Op → DataWarehouse → List Row → Prop
  | start {peer : PeerId} {data : ConsensusStartData} :
      Effect w (.storeConsensusStartData peer data) (w.storeConsensusStartData X data) []
  | finish {peer : PeerId} {data : ConsensusEndData} :
      Effect w (.storeConsensusEndData peer data) (w.storeConsensusEndData X peer data) []
  | throughput {order : List (EndKey × ConsensusEndData)} {peers : List (PeerId × UInt64)}
      {w' : DataWarehouse} {rows : List Row} (taken : ThroughputStep X .throughput w w' rows) :
      Effect w (.computeThroughput order peers) w' rows
  | scalabilityThroughput {item : TestItem} {order : List (EndKey × ConsensusEndData)}
      {peers : List (PeerId × UInt64)} {w' : DataWarehouse} {rows : List Row}
      (taken : ThroughputStep X (.scalabilityThroughput item) w w' rows) :
      Effect w (.computeScalabilityThroughput item order peers) w' rows
  | latency {order : List (EndKey × ConsensusEndData)} {w' : DataWarehouse} {rows : List Row}
      (taken : LatencyStep w w' rows) : Effect w (.computeLatency order) w' rows
  | scalabilityLatency {item : TestItem} {order : List (EndKey × ConsensusEndData)} {w' : DataWarehouse}
      {rows : List Row} (taken : ScalabilityLatencyStep item w w' rows) :
      Effect w (.computeScalabilityLatency item order) w' rows
  | crash {crashCount : UInt16} {order : List (EndKey × ConsensusEndData)}
      {results : HashMap PeerId (List Request)} {ends : HashMap EndKey ConsensusEndData}
      (taken : SecurityStep (Started w.sStartData) w.sEndData ends (w.crashResults.mapAt crashCount) results) :
      Effect w (.testCrash crashCount order)
        { w with sEndData := ends, crashResults := w.crashResults.insert crashCount results } []
  | malicious {testItem : TestItem} {order : List (EndKey × ConsensusEndData)}
      {results : HashMap PeerId (List Request)} {ends : HashMap EndKey ConsensusEndData}
      (taken : SecurityStep (fun _ ↦ true) w.sEndData ends (w.maliciousResults.mapAt testItem) results) :
      Effect w (.testMalicious testItem order)
        { w with sEndData := ends, maliciousResults := w.maliciousResults.insert testItem results } []
  | crashNode {count : UInt16} {peerId : PeerId} {order : List (UInt16 × List PeerId)}
      {nodes : HashMap UInt16 (List PeerId)} :
      Effect w (.recordCrashNode count peerId order) { w with crashNodes := nodes } []
  | interval {internal : UInt64} :
      Effect w (.setThroughputInternal internal) (w.setThroughputInternal internal) []
  | reset : Effect w .reset w.reset []

variable {X}

theorem step_effect {w w' : DataWarehouse} {op : Op} {rows : List Row}
    (h : step X w op = some (w', rows)) : Effect X w op w' rows := by
  cases op with
  | storeConsensusStartData peer data =>
    obtain ⟨rfl, rfl⟩ := Prod.mk.inj (Option.some.inj h)
    exact .start
  | storeConsensusEndData peer data =>
    obtain ⟨rfl, rfl⟩ := Prod.mk.inj (Option.some.inj h)
    exact .finish
  | computeThroughput order peers => exact .throughput (computeThroughputWith_spec h)
  | computeLatency order => exact .latency (computeLatency_spec h)
  | computeScalabilityThroughput item order peers =>
    exact .scalabilityThroughput (computeThroughputWith_spec h)
  | computeScalabilityLatency item order => exact .scalabilityLatency (computeScalabilityLatency_spec h)
  | testCrash crashCount order =>
    obtain ⟨results, ends, rfl, rfl, htaken⟩ := testCrash_spec h
    exact .crash htaken
  | testMalicious testItem order =>
    obtain ⟨results, ends, rfl, rfl, htaken⟩ := testMalicious_spec h
    exact .malicious htaken
  | recordCrashNode count peerId order =>
    obtain ⟨w', hrecord, hsome⟩ := Option.bind_eq_some_iff.1 h
    obtain ⟨nodes, rfl⟩ := recordCrashNode_spec hrecord
    obtain ⟨rfl, rfl⟩ := Prod.mk.inj (Option.some.inj hsome)
    exact .crashNode
  | setThroughputInternal internal =>
    obtain ⟨rfl, rfl⟩ := Prod.mk.inj (Option.some.inj h)
    exact .interval
  | reset =>
    obtain ⟨rfl, rfl⟩ := Prod.mk.inj (Option.some.inj h)
    exact .reset

/-! ## Stored records -/

/-- A run of the warehouse, with the rows that every call inserted. -/
abbrev Run := List (Transition DataWarehouse Op (List Row))

def Op.isReset : Op → Bool
  | .reset => true
  | _ => false

def Op.startData : Op → Option ConsensusStartData
  | .storeConsensusStartData _ data => some data
  | _ => none

def Op.endData : Op → Option (PeerId × ConsensusEndData)
  | .storeConsensusEndData originPeerId data => some (originPeerId, data)
  | _ => none

/-- The start records stored in a run, oldest first. -/
def storedStarts (run : Run) : List ConsensusStartData := run.filterMap (·.event.startData)

/-- The end records stored in a run with the peers they come from, oldest first. -/
def storedEnds (run : Run) : List (PeerId × ConsensusEndData) := run.filterMap (·.event.endData)

def storedRequests (run : Run) : List Request :=
  (storedStarts run).map (·.request) ++ (storedEnds run).map (·.2.request)

/-- Every peer stores its end record of a request at most once. -/
def EndsOnce (run : Run) : Prop := ((storedEnds run).map fun entry ↦ (entry.1, entry.2.request)).Nodup

/-- The start record of a request is stored at most once. -/
def StartsOnce (run : Run) : Prop := ((storedStarts run).map (·.request)).Nodup

instance (run : Run) : Decidable (EndsOnce run) := inferInstanceAs (Decidable (List.Nodup _))

instance (run : Run) : Decidable (StartsOnce run) := inferInstanceAs (Decidable (List.Nodup _))

variable (X) in
/-- The hashes of the requests in a run do not collide. -/
def NoCollision (run : Run) : Prop := Set.InjOn (getRequestHash X) {request | request ∈ storedRequests run}

variable (X) in
/-- An end record under its key. -/
def keyedEnd (entry : PeerId × ConsensusEndData) : EndKey × ConsensusEndData :=
  ((entry.1, getRequestHash X entry.2.request), entry.2)

variable (X) in
def keyedEnds (run : Run) : List (EndKey × ConsensusEndData) := (storedEnds run).map (keyedEnd X)

variable (X) in
/-- Every end key is stored at most once. -/
def EndKeysOnce (run : Run) : Prop := ((keyedEnds X run).map Prod.fst).Nodup

variable (X) in
/-- Every start key is stored at most once. -/
def StartKeysOnce (run : Run) : Prop :=
  ((storedStarts run).map fun data ↦ getRequestHash X data.request).Nodup

variable (X) in
/-- The last start record stored under a hash. -/
def latestStartAt (run : Run) (requestHash : String) : Option ConsensusStartData :=
  ((storedStarts run).filter fun data ↦ getRequestHash X data.request = requestHash).getLast?

/-- The last start record of a request. -/
def latestStart (run : Run) (request : Request) : Option ConsensusStartData :=
  ((storedStarts run).filter fun data ↦ data.request = request).getLast?

theorem mem_storedRequests_of_start {run : Run} {data : ConsensusStartData} (h : data ∈ storedStarts run) :
    data.request ∈ storedRequests run :=
  List.mem_append.2 (.inl (List.mem_map_of_mem h))

theorem mem_storedRequests_of_end {run : Run} {entry : PeerId × ConsensusEndData}
    (h : entry ∈ storedEnds run) : entry.2.request ∈ storedRequests run :=
  List.mem_append.2 (.inr (List.mem_map.2 ⟨entry, h, rfl⟩))

theorem mem_keyedEnds {run : Run} {entry : EndKey × ConsensusEndData} :
    entry ∈ keyedEnds X run ↔ ∃ stored ∈ storedEnds run, keyedEnd X stored = entry := List.mem_map

theorem isSome_latestStartAt {run : Run} {requestHash : String} :
    (latestStartAt X run requestHash).isSome = true ↔
      ∃ data ∈ storedStarts run, getRequestHash X data.request = requestHash := by
  unfold latestStartAt
  rw [List.getLast?_isSome, ne_eq, List.filter_eq_nil_iff]
  simp

theorem latestStartAt_eq_some_iff {run : Run} (honce : StartKeysOnce X run) {requestHash : String}
    {data : ConsensusStartData} : latestStartAt X run requestHash = some data ↔
      data ∈ storedStarts run ∧ getRequestHash X data.request = requestHash := by
  have hsound {data : ConsensusStartData} (h : latestStartAt X run requestHash = some data) :
      data ∈ storedStarts run ∧ getRequestHash X data.request = requestHash := by
    have hmem := List.mem_filter.1 (List.mem_of_getLast? h)
    exact ⟨hmem.1, of_decide_eq_true hmem.2⟩
  constructor
  · exact hsound
  · rintro ⟨hdata, hhash⟩
    obtain ⟨data', hdata'⟩ := Option.isSome_iff_exists.1 (isSome_latestStartAt.2 ⟨data, hdata, hhash⟩)
    obtain ⟨hmem, hhash'⟩ := hsound hdata'
    rw [hdata', List.inj_on_of_nodup_map honce hmem hdata (hhash'.trans hhash.symm)]

theorem latestStartAt_eq {run : Run} (hhash : NoCollision X run) {request : Request}
    (hrequest : request ∈ storedRequests run) :
    latestStartAt X run (getRequestHash X request) = latestStart run request := by
  unfold latestStartAt latestStart
  congr 1
  apply List.filter_congr
  intro data hdata
  rw [decide_eq_decide]
  constructor
  · intro heq
    exact hhash (mem_storedRequests_of_start hdata) hrequest heq
  · intro heq
    rw [heq]

theorem endKeysOnce {run : Run} (honce : EndsOnce run) (hhash : NoCollision X run) :
    EndKeysOnce X run := by
  have hkeys : (keyedEnds X run).map Prod.fst =
      ((storedEnds run).map fun entry ↦ (entry.1, entry.2.request)).map
        fun pair ↦ (pair.1, getRequestHash X pair.2) := by
    rw [keyedEnds, List.map_map, List.map_map]
    rfl
  unfold EndKeysOnce
  rw [hkeys]
  apply List.Nodup.map_on _ honce
  intro pair hpair pair' hpair' heq
  obtain ⟨entry, hentry, rfl⟩ := List.mem_map.1 hpair
  obtain ⟨entry', hentry', rfl⟩ := List.mem_map.1 hpair'
  have hparts := Prod.mk.inj heq
  exact Prod.ext hparts.1
    (hhash (mem_storedRequests_of_end hentry) (mem_storedRequests_of_end hentry') hparts.2)

theorem startKeysOnce {run : Run} (honce : StartsOnce run) (hhash : NoCollision X run) :
    StartKeysOnce X run := by
  have hkeys : (storedStarts run).map (fun data ↦ getRequestHash X data.request) =
      ((storedStarts run).map (·.request)).map (getRequestHash X) := by
    rw [List.map_map]
    rfl
  unfold StartKeysOnce
  rw [hkeys]
  apply List.Nodup.map_on _ honce
  intro request hrequest request' hrequest' heq
  exact hhash (List.mem_append.2 (.inl hrequest)) (List.mem_append.2 (.inl hrequest')) heq

theorem getRequestHash_transparent_injective :
    Function.Injective (getRequestHash Externals.transparent) := by
  intro request request' heq
  have hbytes := Utils.Platform.collisionFree_transparent heq
  have hcmd := Word.asBytes_injective hbytes
  cases request
  cases request'
  exact congrArg _ hcmd

theorem noCollision_transparent (run : Run) : NoCollision Externals.transparent run :=
  getRequestHash_transparent_injective.injOn

theorem EndsOnce.of_append {before after : Run} (h : EndsOnce (before ++ after)) : EndsOnce before := by
  unfold EndsOnce storedEnds at h
  rw [List.filterMap_append, List.map_append] at h
  exact (List.nodup_append.1 h).1

theorem StartsOnce.of_append {before after : Run} (h : StartsOnce (before ++ after)) :
    StartsOnce before := by
  unfold StartsOnce storedStarts at h
  rw [List.filterMap_append, List.map_append] at h
  exact (List.nodup_append.1 h).1

theorem NoCollision.of_append {before after : Run} (h : NoCollision X (before ++ after)) :
    NoCollision X before := by
  apply h.mono
  intro request hrequest
  unfold storedRequests storedStarts storedEnds at *
  simp only [Set.mem_ofPred_eq, List.mem_append, List.mem_map, List.filterMap_append] at hrequest ⊢
  rcases hrequest with ⟨data, hdata, rfl⟩ | ⟨entry, hentry, rfl⟩
  · exact .inl ⟨data, .inl hdata, rfl⟩
  · exact .inr ⟨entry, .inl hentry, rfl⟩

/-! ## Growth of the records -/

variable (X) in
/-- The start records by their hashes, after another one may have been stored. -/
def startsAfter (starts : String → Option ConsensusStartData) :
    Option ConsensusStartData → String → Option ConsensusStartData
  | some data => Function.update starts (getRequestHash X data.request) (some data)
  | none => starts

theorem startsAfter_some (starts : String → Option ConsensusStartData) (data : ConsensusStartData)
    (requestHash : String) : startsAfter X starts (some data) requestHash =
      if requestHash = getRequestHash X data.request then some data else starts requestHash :=
  Function.update_apply starts _ _ requestHash

/-- A map that holds the start records holds them after another one has been stored. -/
theorem lookup_insert_start {m : HashMap String ConsensusStartData}
    {starts : String → Option ConsensusStartData} (h : ∀ requestHash, m.lookup requestHash = starts requestHash)
    (data : ConsensusStartData) (requestHash : String) :
    (m.insert (getRequestHash X data.request) data).lookup requestHash =
      startsAfter X starts (some data) requestHash := by
  rw [startsAfter_some]
  split
  case isTrue hhash => rw [hhash, Finmap.lookup_insert]
  case isFalse hhash => rw [Finmap.lookup_insert_of_ne _ hhash, h]

theorem latestStartAt_concat (run : Run) (t : Transition DataWarehouse Op (List Row)) :
    latestStartAt X (run ++ [t]) = startsAfter X (latestStartAt X run) t.event.startData := by
  funext requestHash
  unfold latestStartAt storedStarts
  rw [filterMap_concat, List.filter_append]
  cases t.event.startData with
  | none => simp [startsAfter]
  | some data =>
    by_cases hhash : getRequestHash X data.request = requestHash
    · simp [startsAfter, hhash]
    · have hne : requestHash ≠ getRequestHash X data.request := Ne.symm hhash
      simp [startsAfter, hhash, hne]

theorem keyedEnds_concat (run : Run) (t : Transition DataWarehouse Op (List Row)) :
    keyedEnds X (run ++ [t]) = keyedEnds X run ++ (t.event.endData.map (keyedEnd X)).toList := by
  rw [keyedEnds, storedEnds, filterMap_concat, List.map_append]
  cases t.event.endData <;> rfl

/-- A call that stores no end record leaves the keyed end records as they are. -/
theorem append_keyedEnd_of_none (ends : List (EndKey × ConsensusEndData)) (op : Op) (h : op.endData = none) :
    ends ++ (op.endData.map (keyedEnd X)).toList = ends := by
  rw [h]
  exact List.append_nil ends

/-- In a run that stores no start key twice, every start key is new. -/
theorem StartKeysOnce.fresh {run : Run} {t : Transition DataWarehouse Op (List Row)}
    (h : StartKeysOnce X (run ++ [t])) :
    StartKeysOnce X run ∧ ∀ data ∈ t.event.startData,
      latestStartAt X run (getRequestHash X data.request) = none := by
  unfold StartKeysOnce storedStarts at h
  rw [filterMap_concat, List.map_append, List.nodup_append] at h
  refine ⟨h.1, fun data hdata ↦ ?_⟩
  by_contra hnone
  obtain ⟨data', hdata', heq⟩ := isSome_latestStartAt.1 (Option.isSome_iff_ne_none.2 hnone)
  refine h.2.2 _ (List.mem_map_of_mem hdata') (getRequestHash X data.request) ?_ heq
  rw [Option.mem_def.1 hdata]
  exact List.mem_singleton_self _

/-- In a run that stores no end key twice, every end key is new. -/
theorem EndKeysOnce.fresh {run : Run} {t : Transition DataWarehouse Op (List Row)}
    (h : EndKeysOnce X (run ++ [t])) :
    EndKeysOnce X run ∧ ∀ entry ∈ keyedEnds X run, ∀ stored ∈ t.event.endData,
      entry.1 ≠ (keyedEnd X stored).1 := by
  unfold EndKeysOnce at h
  rw [keyedEnds_concat, List.map_append, List.nodup_append] at h
  refine ⟨h.1, fun entry hentry stored hstored ↦ h.2.2 _ (List.mem_map_of_mem hentry) _ ?_⟩
  rw [Option.mem_def.1 hstored]
  exact List.mem_singleton_self _

end BFTDiagnosis.Analyzer
