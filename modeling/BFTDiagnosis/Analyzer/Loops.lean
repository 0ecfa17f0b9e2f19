import BFTDiagnosis.Analyzer.DataWarehouse

/-!
# What the loops of the warehouse compute

One lemma for each computation of the warehouse, whatever the order of its walks: which end records
leave their map, which rows are inserted, and what happens to the counts and the result lists. Later
proofs use these lemmas and never unfold a loop.
-/

namespace BFTDiagnosis.Analyzer

open Components Word DataWarehouse

variable {X : Externals}

theorem guard_bind_eq_some {condition : Prop} [Decidable condition] {α : Type} {next : Unit → Option α}
    {a : α} : (guard condition : Option Unit).bind next = some a ↔ condition ∧ next () = some a := by
  by_cases h : condition <;> simp [guard, h]

/-! ## Throughput -/

/-- There is a start record for the end record. -/
def Started (started : HashMap String ConsensusStartData) (entry : EndKey × ConsensusEndData) : Bool :=
  (started.lookup entry.1.2).isSome

/-- The count of a peer, 0 when it has none. -/
def DataWarehouse.midCount (w : DataWarehouse) (peer : PeerId) : ℕ :=
  ((w.throughputMidResults.lookup peer).map UInt64.toNat).getD 0

theorem updateRequestCountWithPeer_spec {w w' : DataWarehouse} {peer : PeerId}
    (h : w.updateRequestCountWithPeer peer = some w') :
    w' = { w with throughputMidResults :=
      w.throughputMidResults.insert peer (UInt64.ofNat (w.midCount peer + 1)) } ∧
      w.midCount peer + 1 < 2 ^ 64 := by
  unfold updateRequestCountWithPeer at h
  unfold midCount
  cases hcount : w.throughputMidResults.lookup peer with
  | none =>
    rw [hcount] at h
    obtain rfl := Option.some.inj h
    exact ⟨rfl, by decide⟩
  | some count =>
    rw [hcount] at h
    obtain ⟨count', hadd, hsome⟩ := Option.bind_eq_some_iff.1 h
    obtain rfl := Option.some.inj hsome
    have hnat : count'.toNat = count.toNat + 1 := toNat_of_checkedAdd hadd
    have hlt := count'.toNat_lt
    refine ⟨?_, by simpa [← hnat] using hlt⟩
    simp [← hnat]

theorem midCount_insert (w : DataWarehouse) (peer other : PeerId) {n : ℕ} (hn : n < 2 ^ 64) :
    midCount { w with throughputMidResults := w.throughputMidResults.insert peer (UInt64.ofNat n) } other =
      if other = peer then n else w.midCount other := by
  unfold midCount
  split
  case isTrue hpeer =>
    subst hpeer
    rw [Finmap.lookup_insert, Option.map_some, Option.getD_some, UInt64.toNat_ofNat_of_lt' hn]
  case isFalse hpeer => rw [Finmap.lookup_insert_of_ne _ hpeer]

/-- The end record is one of the peer and has a start record. -/
def StartedOf (started : HashMap String ConsensusStartData) (peer : PeerId)
    (entry : EndKey × ConsensusEndData) : Bool := decide (entry.1.1 = peer) && Started started entry

/-- The counts after a number of end records of each peer have been counted. -/
structure Counts (before after : DataWarehouse) (counted : PeerId → ℕ) : Prop where
  count : ∀ peer, after.midCount peer = before.midCount peer + counted peer
  entry : ∀ peer, after.throughputMidResults.lookup peer =
    if counted peer = 0 then before.throughputMidResults.lookup peer
    else some (UInt64.ofNat (before.midCount peer + counted peer))

namespace Counts

theorem refl (w : DataWarehouse) {w' : DataWarehouse}
    (h : w'.throughputMidResults = w.throughputMidResults) : Counts w w' fun _ ↦ 0 where
  count peer := by rw [midCount, h, Nat.add_zero, midCount]
  entry peer := by rw [h, if_pos rfl]

theorem trans {w₁ w₂ w₃ : DataWarehouse} {counted counted' : PeerId → ℕ} (h : Counts w₁ w₂ counted)
    (h' : Counts w₂ w₃ counted') : Counts w₁ w₃ fun peer ↦ counted peer + counted' peer where
  count peer := by rw [h'.count, h.count, Nat.add_assoc]
  entry peer := by
    rw [h'.entry, h.entry, h.count, Nat.add_assoc]
    by_cases hzero : counted peer = 0
    · simp [hzero]
    · by_cases hzero' : counted' peer = 0
      · simp [hzero, hzero']
      · simp [hzero, hzero']

theorem insert (w : DataWarehouse) (peer : PeerId) (hfits : w.midCount peer + 1 < 2 ^ 64)
    {w' : DataWarehouse} (h : w'.throughputMidResults =
      w.throughputMidResults.insert peer (UInt64.ofNat (w.midCount peer + 1))) :
    Counts w w' fun other ↦ if other = peer then 1 else 0 where
  count other := by
    have hinsert := midCount_insert w peer other hfits
    rw [midCount] at hinsert
    rw [midCount, h, hinsert]
    split
    case isTrue hother => rw [hother]
    case isFalse => rfl
  entry other := by
    rw [h]
    by_cases hother : other = peer
    · subst hother
      simp
    · rw [Finmap.lookup_insert_of_ne _ hother]
      simp [hother]

theorem congr {w w' : DataWarehouse} {counted counted' : PeerId → ℕ} (h : Counts w w' counted)
    (heq : ∀ peer, counted peer = counted' peer) : Counts w w' counted' := by
  obtain rfl : counted = counted' := funext heq
  exact h

end Counts

theorem countEntry_spec {w w' : DataWarehouse} {entry : EndKey × ConsensusEndData}
    (h : countEntry w entry = some w') :
    (∃ counts, w' = { w with
      throughputMidResults := counts
      tEndDataComputing := if Started w.tStartDataComputing entry then
        w.tEndDataComputing.remove entry.1 else w.tEndDataComputing }) ∧
      Counts w w' fun peer ↦ if StartedOf w.tStartDataComputing peer entry then 1 else 0 := by
  unfold countEntry at h
  unfold StartedOf Started
  cases hstart : w.tStartDataComputing.lookup entry.1.2 with
  | none =>
    rw [hstart] at h
    obtain rfl := Option.some.inj h
    exact ⟨⟨_, rfl⟩, (Counts.refl w rfl).congr fun peer ↦ by simp⟩
  | some start =>
    rw [hstart] at h
    obtain ⟨w₁, hupdate, hsome⟩ := Option.bind_eq_some_iff.1 h
    obtain ⟨rfl, hfits⟩ := updateRequestCountWithPeer_spec hupdate
    obtain rfl := Option.some.inj hsome
    refine ⟨⟨_, rfl⟩, (Counts.insert w entry.1.1 hfits rfl).congr fun peer ↦ ?_⟩
    simp [eq_comm]

/-- The counting loop: the started end records are removed and counted for their peers. -/
theorem foldlM_countEntry {order : List (EndKey × ConsensusEndData)} {w w' : DataWarehouse}
    (h : order.foldlM countEntry w = some w') :
    (∃ counts, w' = { w with
      throughputMidResults := counts
      tEndDataComputing := w.tEndDataComputing.drain order (Started w.tStartDataComputing) }) ∧
      Counts w w' fun peer ↦ order.countP (StartedOf w.tStartDataComputing peer) := by
  induction order generalizing w with
  | nil =>
    obtain rfl := Option.some.inj h
    exact ⟨⟨_, rfl⟩, Counts.refl w rfl⟩
  | cons entry rest ih =>
    rw [List.foldlM_cons] at h
    obtain ⟨w₁, hentry, hrest⟩ := Option.bind_eq_some_iff.1 h
    obtain ⟨⟨counts, rfl⟩, hcounts⟩ := countEntry_spec hentry
    obtain ⟨⟨counts', rfl⟩, hcounts'⟩ := ih hrest
    refine ⟨⟨counts', rfl⟩, (hcounts.trans hcounts').congr fun peer ↦ ?_⟩
    rw [List.countP_cons, Nat.add_comm]

theorem throughputRows_spec {w : DataWarehouse} {row : PeerId → UInt64 → Row}
    {peers : List (PeerId × UInt64)} {rows : List Row} (h : w.throughputRows X row peers = some rows) :
    rows = peers.map fun entry ↦
      row entry.1 (X.throughput entry.2 (w.internalRound * w.throughputInternal)) := by
  unfold throughputRows at h
  induction peers generalizing rows with
  | nil =>
    rw [List.mapM_nil] at h
    exact (Option.some.inj h).symm
  | cons entry rest ih =>
    simp only [List.mapM_cons, bind, pure, Option.bind_eq_some_iff, Option.some.injEq] at h
    obtain ⟨first, ⟨elapsed, helapsed, rfl⟩, others, hothers, rfl⟩ := h
    have hvalue : elapsed = w.internalRound * w.throughputInternal := by
      unfold checkedMul at helapsed
      split at helapsed
      case isTrue => exact (Option.some.inj helapsed).symm
      case isFalse => cases helapsed
    rw [ih hothers, hvalue, List.map_cons]

/-- What a computation of the throughput does: the started end records leave their map and are counted,
and one row is inserted for every peer with a count. -/
structure ThroughputStep (X : Externals) (row : UInt64 → PeerId → UInt64 → Row) (w w' : DataWarehouse)
    (rows : List Row) : Prop where
  frame : ∃ counts round, w' = { w with
    tEndData := w.tEndData.retain fun key data ↦ !Started w.tStartData (key, data)
    tStartDataComputing := ∅
    tEndDataComputing := ∅
    throughputMidResults := counts
    internalRound := round }
  round : checkedAdd w.internalRound 1 = some w'.internalRound
  counts : Counts w w' fun peer ↦
    w.tEndData.toMultiset.countP fun entry ↦ StartedOf w.tStartData peer entry = true
  rows : (rows : Multiset Row) = w'.throughputMidResults.toMultiset.map fun entry ↦
    row w.internalRound entry.1 (X.throughput entry.2 (w'.internalRound * w.throughputInternal))

theorem computeThroughputWith_spec {row : UInt64 → PeerId → UInt64 → Row} {w w' : DataWarehouse}
    {order : List (EndKey × ConsensusEndData)} {peers : List (PeerId × UInt64)} {rows : List Row}
    (h : w.computeThroughputWith X row order peers = some (w', rows)) :
    ThroughputStep X row w w' rows := by
  simp only [computeThroughputWith, bind, pure, guard_bind_eq_some] at h
  obtain ⟨hlisting, hrest⟩ := h
  obtain ⟨w₁, hloop, hrest⟩ := Option.bind_eq_some_iff.1 hrest
  obtain ⟨round, hround, hrest⟩ := Option.bind_eq_some_iff.1 hrest
  obtain ⟨hpeers, hrest⟩ := guard_bind_eq_some.1 hrest
  obtain ⟨rows', hrows, hresult⟩ := Option.bind_eq_some_iff.1 hrest
  obtain ⟨rfl, rfl⟩ := Prod.mk.inj (Option.some.inj hresult)
  obtain ⟨⟨counts, rfl⟩, hcounts⟩ := foldlM_countEntry hloop
  have hlisting : w.tEndData.Listing order := hlisting
  have hdrain := HashMap.drain_of_listing hlisting (Started w.tStartData)
  have hcount (peer : PeerId) : order.countP (StartedOf w.tStartData peer) =
      w.tEndData.toMultiset.countP fun entry ↦ StartedOf w.tStartData peer entry = true := by
    rw [← hlisting.coe_eq, Multiset.coe_countP]
    simp
  refine ⟨⟨counts, round, ?_⟩, hround, ?_, ?_⟩
  · simp only [rewriteThroughputData, prepareComputeThroughput, HashMap.empty_extend, hdrain]
  · exact Counts.congr ⟨hcounts.count, hcounts.entry⟩ hcount
  · rw [throughputRows_spec hrows, ← Multiset.map_coe, HashMap.Listing.coe_eq hpeers]
    rfl

/-! ## Latency -/

/-- A latency that is reported: the peer, the request and the difference of the times. -/
abbrev Latency := PeerId × Request × UInt64

/-- The latency of an end record with a start record. -/
def latencyOf (started : String → Option ConsensusStartData) (entry : EndKey × ConsensusEndData) :
    Option Latency :=
  (started entry.1.2).map fun startData ↦
    (entry.1.1, startData.request, entry.2.completedTime - startData.startTime)

/-- The latency that `compute_latency` reports for an end record. -/
def reportedLatency (started : String → Option ConsensusStartData) (entry : EndKey × ConsensusEndData) :
    Option Latency := (latencyOf started entry).filter fun latency ↦ latency.2.2 ≤ 100000

def latencyRow (latency : Latency) : Row := .latency latency.1 latency.2.1 latency.2.2

def scalabilityLatencyRow (item : TestItem) (latency : Latency) : Row :=
  .scalabilityLatency item latency.1 latency.2.1 latency.2.2

theorem latencyEntry_eq (w : DataWarehouse) (rows : List Row) (entry : EndKey × ConsensusEndData) :
    latencyEntry (w, rows) entry =
      ({ w with lEndDataComputing :=
          if (reportedLatency w.lStartDataComputing.get entry).isSome then w.lEndDataComputing.remove entry.1
          else w.lEndDataComputing },
        rows ++ ((reportedLatency w.lStartDataComputing.get entry).map latencyRow).toList) := by
  unfold latencyEntry reportedLatency latencyOf HashMap.get
  cases w.lStartDataComputing.lookup entry.1.2 with
  | none => simp
  | some startData =>
    by_cases hlarge : 100000 < entry.2.completedTime - startData.startTime
    · have hnot : ¬ entry.2.completedTime - startData.startTime ≤ 100000 := UInt64.not_le.2 hlarge
      simp [hlarge, hnot]
    · have hle : entry.2.completedTime - startData.startTime ≤ 100000 := UInt64.not_lt.1 hlarge
      simp [hlarge, hle, latencyRow, Option.filter]

theorem foldl_latencyEntry (order : List (EndKey × ConsensusEndData)) (w : DataWarehouse)
    (rows : List Row) :
    order.foldl latencyEntry (w, rows) =
      ({ w with lEndDataComputing :=
          w.lEndDataComputing.drain order fun entry ↦ (reportedLatency w.lStartDataComputing.get entry).isSome },
        rows ++ (order.filterMap (reportedLatency w.lStartDataComputing.get)).map latencyRow) := by
  induction order generalizing w rows with
  | nil => simp [HashMap.drain]
  | cons entry rest ih =>
    rw [List.foldl_cons, latencyEntry_eq, ih, List.filterMap_cons]
    cases hreported : reportedLatency w.lStartDataComputing.get entry with
    | none => simp [HashMap.drain, hreported]
    | some latency => simp [HashMap.drain, hreported]

/-- What `compute_latency` does: the end records whose latency is reported leave their map. -/
structure LatencyStep (w w' : DataWarehouse) (rows : List Row) : Prop where
  frame : w' = { w with
    lEndData := w.lEndData.retain fun key data ↦ !(reportedLatency w.lStartData.get (key, data)).isSome
    lStartDataComputing := ∅
    lEndDataComputing := ∅ }
  rows : (rows : Multiset Row) =
    (w.lEndData.toMultiset.filterMap (reportedLatency w.lStartData.get)).map latencyRow

theorem computeLatency_spec {w w' : DataWarehouse} {order : List (EndKey × ConsensusEndData)}
    {rows : List Row} (h : w.computeLatency order = some (w', rows)) : LatencyStep w w' rows := by
  simp only [computeLatency, bind, pure, guard_bind_eq_some, foldl_latencyEntry, Option.some.injEq,
    Prod.mk.injEq] at h
  obtain ⟨hlisting, rfl, rfl⟩ := h
  have hlisting : w.lEndData.Listing order := hlisting
  have hdrain := HashMap.drain_of_listing hlisting fun entry ↦
    (reportedLatency w.lStartData.get entry).isSome
  refine ⟨?_, ?_⟩
  · simp only [prepareComputeLatency, HashMap.empty_extend, hdrain]
  · rw [← hlisting.coe_eq]
    simp only [Multiset.filterMap_coe, Multiset.map_coe, prepareComputeLatency, List.nil_append]

theorem exists_computeLatency {w : DataWarehouse} {order : List (EndKey × ConsensusEndData)}
    (h : w.lEndData.Listing order) : ∃ result, w.computeLatency order = some result :=
  ⟨_, guard_bind_eq_some.2 ⟨h, rfl⟩⟩

/-- No end record precedes its start record. -/
def Causal (started : String → Option ConsensusStartData) (entry : EndKey × ConsensusEndData) : Prop :=
  ∀ startData ∈ started entry.1.2, startData.startTime ≤ entry.2.completedTime

theorem checkedSub_eq_some_iff {x y z : UInt64} : checkedSub x y = some z ↔ y ≤ x ∧ z = x - y := by
  unfold checkedSub
  rw [UInt64.le_iff_toNat_le]
  split
  case isTrue hle => simp [hle, eq_comm]
  case isFalse hnot => simp [hnot]

theorem scalabilityLatencyEntry_eq_some_iff {item : TestItem} {w : DataWarehouse} {rows : List Row}
    {entry : EndKey × ConsensusEndData} {result : DataWarehouse × List Row} :
    scalabilityLatencyEntry item (w, rows) entry = some result ↔
      Causal w.lStartDataComputing.get entry ∧
      result =
        ({ w with lEndDataComputing :=
            if Started w.lStartDataComputing entry then w.lEndDataComputing.remove entry.1
            else w.lEndDataComputing },
          rows ++ ((latencyOf w.lStartDataComputing.get entry).map (scalabilityLatencyRow item)).toList) := by
  unfold scalabilityLatencyEntry Causal Started latencyOf HashMap.get
  cases w.lStartDataComputing.lookup entry.1.2 with
  | none => simp [eq_comm]
  | some startData =>
    simp only [bind, pure, Option.bind_eq_some_iff, checkedSub_eq_some_iff, Option.some.injEq,
      Option.mem_some_iff, forall_eq']
    constructor
    · rintro ⟨latency, ⟨hle, rfl⟩, rfl⟩
      exact ⟨hle, by simp [scalabilityLatencyRow]⟩
    · rintro ⟨hle, rfl⟩
      exact ⟨_, ⟨hle, rfl⟩, by simp [scalabilityLatencyRow]⟩

theorem foldlM_scalabilityLatencyEntry {item : TestItem} {order : List (EndKey × ConsensusEndData)}
    {w : DataWarehouse} {rows : List Row} {result : DataWarehouse × List Row} :
    order.foldlM (scalabilityLatencyEntry item) (w, rows) = some result ↔
      (∀ entry ∈ order, Causal w.lStartDataComputing.get entry) ∧
      result =
        ({ w with lEndDataComputing :=
            w.lEndDataComputing.drain order (Started w.lStartDataComputing) },
          rows ++ (order.filterMap (latencyOf w.lStartDataComputing.get)).map (scalabilityLatencyRow item)) := by
  induction order generalizing w rows with
  | nil =>
    rw [List.foldlM_nil, List.filterMap_nil, List.map_nil, List.append_nil]
    exact ⟨fun h ↦ ⟨List.forall_mem_nil _, (Option.some.inj h).symm⟩, fun h ↦ congrArg some h.2.symm⟩
  | cons entry rest ih =>
    simp only [List.foldlM_cons, bind, Option.bind_eq_some_iff, scalabilityLatencyEntry_eq_some_iff]
    constructor
    · rintro ⟨_, ⟨hcausal, rfl⟩, hrest⟩
      obtain ⟨hall, rfl⟩ := ih.1 hrest
      refine ⟨List.forall_mem_cons.2 ⟨hcausal, hall⟩, ?_⟩
      rw [List.filterMap_cons]
      cases hlatency : latencyOf w.lStartDataComputing.get entry with
      | none => simp [HashMap.drain]
      | some latency => simp [HashMap.drain]
    · rintro ⟨hall, rfl⟩
      rw [List.forall_mem_cons] at hall
      refine ⟨_, ⟨hall.1, rfl⟩, ih.2 ⟨hall.2, ?_⟩⟩
      rw [List.filterMap_cons]
      cases hlatency : latencyOf w.lStartDataComputing.get entry with
      | none => simp [HashMap.drain]
      | some latency => simp [HashMap.drain]

/-- What `compute_scalability_latency` does: the started end records leave their map, and all start
records are dropped. -/
structure ScalabilityLatencyStep (item : TestItem) (w w' : DataWarehouse) (rows : List Row) : Prop where
  frame : w' = { w with
    lStartData := ∅
    lEndData := w.lEndData.retain fun key data ↦ !Started w.lStartData (key, data)
    lStartDataComputing := ∅
    lEndDataComputing := ∅ }
  rows : (rows : Multiset Row) =
    (w.lEndData.toMultiset.filterMap (latencyOf w.lStartData.get)).map (scalabilityLatencyRow item)

theorem computeScalabilityLatency_spec {item : TestItem} {w w' : DataWarehouse}
    {order : List (EndKey × ConsensusEndData)} {rows : List Row}
    (h : w.computeScalabilityLatency item order = some (w', rows)) :
    ScalabilityLatencyStep item w w' rows := by
  obtain ⟨hlisting, hrest⟩ := guard_bind_eq_some.1 h
  obtain ⟨result, hloop, hresult⟩ := Option.bind_eq_some_iff.1 hrest
  obtain ⟨-, rfl⟩ := foldlM_scalabilityLatencyEntry.1 hloop
  obtain ⟨rfl, rfl⟩ := Prod.mk.inj (Option.some.inj hresult)
  have hlisting : w.lEndData.Listing order := hlisting
  have hdrain := HashMap.drain_of_listing hlisting (Started w.lStartData)
  refine ⟨?_, ?_⟩
  · simp only [prepareComputeLatency, HashMap.empty_extend, hdrain]
  · rw [← hlisting.coe_eq]
    simp only [Multiset.filterMap_coe, Multiset.map_coe, prepareComputeLatency, List.nil_append]

theorem exists_computeScalabilityLatency (item : TestItem) {w : DataWarehouse}
    {order : List (EndKey × ConsensusEndData)} (h : w.lEndData.Listing order)
    (hcausal : ∀ entry ∈ order, Causal w.lStartData.get entry) :
    ∃ result, w.computeScalabilityLatency item order = some result := by
  have hloop := (@foldlM_scalabilityLatencyEntry item order w.prepareComputeLatency [] _).2 ⟨hcausal, rfl⟩
  exact ⟨_, guard_bind_eq_some.2 ⟨h, Option.bind_eq_some_iff.2 ⟨_, hloop, rfl⟩⟩⟩

/-! ## Security -/

/-- The result list of a peer without its order. -/
def contents (results : HashMap PeerId (List Request)) (peer : PeerId) : Option (Multiset Request) :=
  (results.lookup peer).map fun requests ↦ (requests : Multiset Request)

theorem getD_contents (results : HashMap PeerId (List Request)) (peer : PeerId) :
    (contents results peer).getD 0 = (results.listAt peer : Multiset Request) := by
  unfold contents HashMap.listAt
  cases results.lookup peer <;> rfl

/-- Requests have been added to the result lists. -/
def Recorded (before after : HashMap PeerId (List Request)) (added : PeerId → Multiset Request) : Prop :=
  ∀ peer, contents after peer =
    if added peer = 0 then contents before peer else some ((contents before peer).getD 0 + added peer)

namespace Recorded

theorem refl (results : HashMap PeerId (List Request)) : Recorded results results fun _ ↦ 0 :=
  fun _ ↦ (if_pos rfl).symm

theorem push (results : HashMap PeerId (List Request)) (peer : PeerId) (request : Request) :
    Recorded results (storeSecurityResult results peer request)
      fun other ↦ if other = peer then {request} else 0 := by
  intro other
  rw [storeSecurityResult, HashMap.pushAt_eq_insert]
  by_cases hother : other = peer
  · subst hother
    rw [getD_contents, contents, Finmap.lookup_insert]
    simp [← Multiset.coe_add]
  · rw [contents, Finmap.lookup_insert_of_ne _ hother]
    simp [hother, contents]

theorem trans {results₁ results₂ results₃ : HashMap PeerId (List Request)}
    {added added' : PeerId → Multiset Request} (h : Recorded results₁ results₂ added)
    (h' : Recorded results₂ results₃ added') :
    Recorded results₁ results₃ fun peer ↦ added peer + added' peer := by
  intro peer
  rw [h' peer, h peer]
  by_cases hzero : added peer = 0
  · simp [hzero]
  · by_cases hzero' : added' peer = 0
    · simp [hzero, hzero']
    · have hsum : added peer + added' peer ≠ 0 := by
        intro hboth
        have hcard := congrArg Multiset.card hboth
        rw [Multiset.card_add, Multiset.card_zero] at hcard
        exact hzero (Multiset.card_eq_zero.1 (by omega))
      simp [hzero, hzero', hsum, add_assoc]

theorem congr {before after : HashMap PeerId (List Request)} {added added' : PeerId → Multiset Request}
    (h : Recorded before after added) (heq : ∀ peer, added peer = added' peer) :
    Recorded before after added' := by
  obtain rfl : added = added' := funext heq
  exact h

theorem listAt {before after : HashMap PeerId (List Request)} {added : PeerId → Multiset Request}
    (h : Recorded before after added) (peer : PeerId) :
    (after.listAt peer : Multiset Request) = (before.listAt peer : Multiset Request) + added peer := by
  rw [← getD_contents, ← getD_contents, h peer]
  split
  case isTrue hzero => rw [hzero, add_zero]
  case isFalse => rfl

end Recorded

/-- The requests of the entries of a peer that are dealt with. -/
def requestsOf (done : EndKey × ConsensusEndData → Bool) (entries : Multiset (EndKey × ConsensusEndData))
    (peer : PeerId) : Multiset Request :=
  (entries.filter fun entry ↦ entry.1.1 = peer ∧ done entry = true).map fun entry ↦ entry.2.request

theorem requestsOf_cons (done : EndKey × ConsensusEndData → Bool) (entry : EndKey × ConsensusEndData)
    (entries : Multiset (EndKey × ConsensusEndData)) (peer : PeerId) :
    requestsOf done (entry ::ₘ entries) peer =
      (if peer = entry.1.1 ∧ done entry = true then {entry.2.request} else 0) +
        requestsOf done entries peer := by
  unfold requestsOf
  by_cases hentry : entry.1.1 = peer ∧ done entry = true
  · have hentry' : peer = entry.1.1 ∧ done entry = true := ⟨hentry.1.symm, hentry.2⟩
    rw [Multiset.filter_cons_of_pos (s := entries) (p := fun e ↦ e.1.1 = peer ∧ done e = true) hentry,
      if_pos hentry', Multiset.map_cons, Multiset.singleton_add]
  · have hentry' : ¬ (peer = entry.1.1 ∧ done entry = true) := fun h ↦ hentry ⟨h.1.symm, h.2⟩
    rw [Multiset.filter_cons_of_neg (s := entries) (p := fun e ↦ e.1.1 = peer ∧ done e = true) hentry,
      if_neg hentry', zero_add]

/-- A loop that records the entries it deals with and removes them. -/
theorem foldl_record {record : HashMap PeerId (List Request) × HashMap EndKey ConsensusEndData →
      EndKey × ConsensusEndData → HashMap PeerId (List Request) × HashMap EndKey ConsensusEndData}
    {done : EndKey × ConsensusEndData → Bool}
    (hrecord : ∀ acc entry, record acc entry =
      if done entry then (storeSecurityResult acc.1 entry.1.1 entry.2.request, acc.2.remove entry.1) else acc)
    (order : List (EndKey × ConsensusEndData)) (results : HashMap PeerId (List Request))
    (ends : HashMap EndKey ConsensusEndData) :
    (order.foldl record (results, ends)).2 = ends.drain order done ∧
      Recorded results (order.foldl record (results, ends)).1 (requestsOf done order) := by
  induction order generalizing results ends with
  | nil => exact ⟨rfl, Recorded.refl results⟩
  | cons entry rest ih =>
    rw [List.foldl_cons, hrecord, ← Multiset.cons_coe]
    cases hdone : done entry with
    | true =>
      obtain ⟨hends, hrecorded⟩ :=
        ih (storeSecurityResult results entry.1.1 entry.2.request) (ends.remove entry.1)
      refine ⟨?_, ?_⟩
      · rw [if_pos rfl, hends]
        simp [HashMap.drain, hdone]
      · rw [if_pos rfl]
        refine ((Recorded.push results entry.1.1 entry.2.request).trans hrecorded).congr fun peer ↦ ?_
        rw [requestsOf_cons]
        simp [hdone]
    | false =>
      obtain ⟨hends, hrecorded⟩ := ih results ends
      refine ⟨?_, ?_⟩
      · rw [if_neg Bool.false_ne_true, hends]
        simp [HashMap.drain, hdone]
      · rw [if_neg Bool.false_ne_true]
        refine hrecorded.congr fun peer ↦ ?_
        rw [requestsOf_cons]
        simp [hdone]

/-- What a security test does: the end records it deals with leave their map and are recorded in one
result table. -/
structure SecurityStep (done : EndKey × ConsensusEndData → Bool) (ends ends' : HashMap EndKey ConsensusEndData)
    (results results' : HashMap PeerId (List Request)) : Prop where
  remaining : ends' = ends.retain fun key data ↦ !done (key, data)
  recorded : Recorded results results' (requestsOf done ends.toMultiset)

theorem testCrash_spec {w w' : DataWarehouse} {crashCount : UInt16}
    {order : List (EndKey × ConsensusEndData)} {rows : List Row}
    (h : w.testCrash crashCount order = some (w', rows)) :
    ∃ results ends, w' = { w with
        sEndData := ends
        crashResults := w.crashResults.insert crashCount results } ∧ rows = [] ∧
      SecurityStep (Started w.sStartData) w.sEndData ends (w.crashResults.mapAt crashCount) results := by
  simp only [testCrash, bind, pure, guard_bind_eq_some, Option.some.injEq, Prod.mk.injEq] at h
  obtain ⟨hlisting, rfl, rfl⟩ := h
  have hrecord (acc : HashMap PeerId (List Request) × HashMap EndKey ConsensusEndData)
      (entry : EndKey × ConsensusEndData) : crashEntry w.sStartData acc entry =
        if Started w.sStartData entry then
          (storeSecurityResult acc.1 entry.1.1 entry.2.request, acc.2.remove entry.1) else acc := by
    unfold crashEntry Started
    cases w.sStartData.lookup entry.1.2 <;> rfl
  obtain ⟨hends, hrecorded⟩ := foldl_record hrecord order (w.crashResults.mapAt crashCount) w.sEndData
  refine ⟨_, _, rfl, rfl, ?_, ?_⟩
  · exact hends.trans (HashMap.drain_of_listing hlisting _)
  · rw [hlisting.coe_eq] at hrecorded
    exact hrecorded

theorem testMalicious_spec {w w' : DataWarehouse} {testItem : TestItem}
    {order : List (EndKey × ConsensusEndData)} {rows : List Row}
    (h : w.testMalicious testItem order = some (w', rows)) :
    ∃ results ends, w' = { w with
        sEndData := ends
        maliciousResults := w.maliciousResults.insert testItem results } ∧ rows = [] ∧
      SecurityStep (fun _ ↦ true) w.sEndData ends (w.maliciousResults.mapAt testItem) results := by
  simp only [testMalicious, bind, pure, guard_bind_eq_some, Option.some.injEq, Prod.mk.injEq] at h
  obtain ⟨hlisting, rfl, rfl⟩ := h
  obtain ⟨hends, hrecorded⟩ := @foldl_record maliciousEntry (fun _ ↦ true) (fun _ _ ↦ rfl) order
    (w.maliciousResults.mapAt testItem) w.sEndData
  refine ⟨_, _, rfl, rfl, ?_, ?_⟩
  · exact hends.trans (HashMap.drain_of_listing hlisting _)
  · rw [hlisting.coe_eq] at hrecorded
    exact hrecorded

theorem recordCrashNode_spec {w w' : DataWarehouse} {count : UInt16} {peerId : PeerId}
    {order : List (UInt16 × List PeerId)} (h : w.recordCrashNode count peerId order = some w') :
    ∃ nodes, w' = { w with crashNodes := nodes } := by
  obtain ⟨-, hrest⟩ := guard_bind_eq_some.1 h
  split at hrest
  case isTrue =>
    obtain ⟨last, -, hsome⟩ := Option.bind_eq_some_iff.1 hrest
    exact ⟨_, (Option.some.inj hsome).symm⟩
  case isFalse => exact ⟨_, (Option.some.inj hrest).symm⟩

end BFTDiagnosis.Analyzer
