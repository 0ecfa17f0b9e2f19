import BFTDiagnosis.Analyzer.Steps

/-!
# Security records

Every end record is in `s_end_data` until a test takes it, and the test that takes it puts its request in
one of its result lists. A reset of the warehouse does not touch these records.
-/

namespace BFTDiagnosis.Analyzer

open Components DataWarehouse

variable {X : Externals}

/-- The tables of the security tests: by the number of crashed nodes, and by malicious test item. -/
inductive ResultTable where
  | crash (crashCount : UInt16)
  | malicious (testItem : TestItem)
deriving DecidableEq

def DataWarehouse.resultTable (w : DataWarehouse) : ResultTable → HashMap PeerId (List Request)
  | .crash crashCount => w.crashResults.mapAt crashCount
  | .malicious testItem => w.maliciousResults.mapAt testItem

/-- The result list of a peer, empty when there is none. -/
def DataWarehouse.resultList (w : DataWarehouse) (table : ResultTable) (peer : PeerId) : List Request :=
  (w.resultTable table).listAt peer

/-! ## The invariant -/

/-- The end records that the tests have taken, each of them with the table it is in. -/
structure TakenRecords (ends : List (EndKey × ConsensusEndData)) (w : DataWarehouse)
    (taken : Multiset (ResultTable × EndKey × ConsensusEndData)) : Prop where
  balance : HashMap.Balanced (ends : Multiset (EndKey × ConsensusEndData)) w.sEndData (taken.map Prod.snd)
  lists : ∀ table peer, (w.resultList table peer : Multiset Request) =
    (taken.filter fun entry ↦ entry.1 = table ∧ entry.2.1.1 = peer).map fun entry ↦ entry.2.2.request

/-- The end records stored so far are those in `s_end_data` and those taken by a test. -/
def SecurityInv (ends : List (EndKey × ConsensusEndData)) (w : DataWarehouse) : Prop :=
  ∃ taken, TakenRecords ends w taken

theorem SecurityInv.new : SecurityInv [] DataWarehouse.new := by
  refine ⟨0, HashMap.Balanced.empty, fun table peer ↦ ?_⟩
  cases table <;> rfl

theorem SecurityInv.storeEnd {ends : List (EndKey × ConsensusEndData)} {w : DataWarehouse}
    (h : SecurityInv ends w) (peer : PeerId) (data : ConsensusEndData)
    (hfresh : ∀ entry ∈ ends, entry.1 ≠ (keyedEnd X (peer, data)).1) :
    SecurityInv (ends ++ [keyedEnd X (peer, data)]) (w.storeConsensusEndData X peer data) := by
  obtain ⟨taken, hbalance, hlists⟩ := h
  refine ⟨taken, ?_, hlists⟩
  rw [← Multiset.coe_add, Multiset.coe_singleton]
  exact hbalance.insert data hfresh

theorem SecurityInv.frame {ends : List (EndKey × ConsensusEndData)} {w w' : DataWarehouse}
    (h : SecurityInv ends w) (hends : w'.sEndData = w.sEndData)
    (hcrash : w'.crashResults = w.crashResults) (hmalicious : w'.maliciousResults = w.maliciousResults) :
    SecurityInv ends w' := by
  obtain ⟨taken, hbalance, hlists⟩ := h
  refine ⟨taken, ?_, ?_⟩
  · rw [hends]
    exact hbalance
  · intro table peer
    rw [← hlists table peer]
    cases table with
    | crash crashCount => rw [resultList, resultList, resultTable, hcrash, resultTable]
    | malicious testItem => rw [resultList, resultList, resultTable, hmalicious, resultTable]

/-- A test moves the end records it deals with to one table. -/
theorem SecurityInv.test {ends : List (EndKey × ConsensusEndData)} {w w' : DataWarehouse}
    (h : SecurityInv ends w) {done : EndKey × ConsensusEndData → Bool} {tested : ResultTable}
    {results : HashMap PeerId (List Request)}
    (htaken : SecurityStep done w.sEndData w'.sEndData (w.resultTable tested) results)
    (htables : ∀ table, w'.resultTable table = if table = tested then results else w.resultTable table) :
    SecurityInv ends w' := by
  obtain ⟨taken, hbalance, hlists⟩ := h
  refine ⟨taken + (w.sEndData.toMultiset.filter fun entry ↦ done entry = true).map fun entry ↦
    (tested, entry), ?_, ?_⟩
  · rw [htaken.remaining, Multiset.map_add, Multiset.map_map]
    simp only [Function.comp_def, Multiset.map_id']
    exact hbalance.retain done
  · intro table peer
    have hold := hlists table peer
    rw [Multiset.filter_add, Multiset.map_add, ← hold, resultList, resultList, htables,
      Multiset.filter_map, Multiset.map_map, Multiset.filter_filter]
    by_cases htable : table = tested
    · subst htable
      rw [if_pos rfl, htaken.recorded.listAt, requestsOf]
      simp only [Function.comp_def, true_and]
    · have hother : tested ≠ table := fun heq ↦ htable heq.symm
      rw [if_neg htable]
      simp [hother]

theorem SecurityInv.step {ends : List (EndKey × ConsensusEndData)} {w w' : DataWarehouse} {op : Op}
    {rows : List Row} (h : SecurityInv ends w) (htaken : step X w op = some (w', rows))
    (hfresh : ∀ entry ∈ ends, ∀ stored ∈ op.endData, entry.1 ≠ (keyedEnd X stored).1) :
    SecurityInv (ends ++ (op.endData.map (keyedEnd X)).toList) w' := by
  have hsame := append_keyedEnd_of_none (X := X) ends op
  cases step_effect htaken with
  | finish => exact h.storeEnd _ _ fun entry hentry ↦ hfresh entry hentry _ rfl
  | @crash crashCount order results remaining htest =>
    rw [hsame rfl]
    have htest : SecurityStep _ w.sEndData remaining (w.resultTable (.crash crashCount)) results := htest
    apply h.test htest
    intro table
    cases table <;> simp [resultTable]
  | @malicious testItem order results remaining htest =>
    rw [hsame rfl]
    have htest : SecurityStep _ w.sEndData remaining (w.resultTable (.malicious testItem)) results := htest
    apply h.test htest
    intro table
    cases table <;> simp [resultTable]
  | latency hcompute | scalabilityLatency hcompute =>
    rw [hsame rfl, hcompute.frame]
    exact h.frame rfl rfl rfl
  | throughput hcompute | scalabilityThroughput hcompute =>
    rw [hsame rfl]
    obtain ⟨counts, round, rfl⟩ := hcompute.frame
    exact h.frame rfl rfl rfl
  | start | crashNode | interval | reset =>
    rw [hsame rfl]
    exact h.frame rfl rfl rfl

theorem securityInv_of_isRun {final : DataWarehouse} {run : Run}
    (h : IsRun (step X) DataWarehouse.new run final) (honce : EndKeysOnce X run) :
    SecurityInv (keyedEnds X run) final := by
  induction h with
  | nil => exact SecurityInv.new
  | snoc previous taken ih =>
    have hfresh := honce.fresh
    rw [keyedEnds_concat]
    exact (ih hfresh.1).step taken hfresh.2

/-! ## No record is lost or duplicated -/

/-- The end record is still there and in no result list. -/
def DataWarehouse.Pending (X : Externals) (w : DataWarehouse) (peer : PeerId) (data : ConsensusEndData) : Prop :=
  w.sEndData.lookup (peer, getRequestHash X data.request) = some data ∧
    ∀ table, data.request ∉ w.resultList table peer

/-- The end record has been taken and is in one result list, once. -/
def DataWarehouse.RecordedOnce (X : Externals) (w : DataWarehouse) (peer : PeerId)
    (data : ConsensusEndData) : Prop :=
  w.sEndData.lookup (peer, getRequestHash X data.request) = none ∧
    ∃ table, (w.resultList table peer).count data.request = 1 ∧
      ∀ other, other ≠ table → data.request ∉ w.resultList other peer

/-- Every stored end record is pending or recorded once, and nothing else is in a result list. -/
structure SecurityAccounted (X : Externals) (run : Run) (w : DataWarehouse) : Prop where
  stored : ∀ peer data, (peer, data) ∈ storedEnds run → w.Pending X peer data ∨ w.RecordedOnce X peer data
  only : ∀ table peer request, request ∈ w.resultList table peer →
    ∃ data, (peer, data) ∈ storedEnds run ∧ data.request = request

section Accounts

variable {run : Run} {w : DataWarehouse} {taken : Multiset (ResultTable × EndKey × ConsensusEndData)}

namespace TakenRecords

/-- What a request in a result list stands for. -/
theorem mem_resultList (h : TakenRecords (keyedEnds X run) w taken) {table : ResultTable} {peer : PeerId}
    {request : Request} : request ∈ w.resultList table peer ↔
      ∃ entry ∈ taken, entry.1 = table ∧ entry.2.1.1 = peer ∧ entry.2.2.request = request := by
  rw [← Multiset.mem_coe, h.lists, Multiset.mem_map]
  simp only [Multiset.mem_filter, and_assoc]

theorem exists_stored (h : TakenRecords (keyedEnds X run) w taken)
    {entry : ResultTable × EndKey × ConsensusEndData} (hentry : entry ∈ taken) :
    ∃ stored ∈ storedEnds run, keyedEnd X stored = entry.2 :=
  mem_keyedEnds.1 (Multiset.mem_coe.1 (h.balance.mem_of_mem_dealt (Multiset.mem_map_of_mem Prod.snd hentry)))

/-- The end record of a peer and a request is determined by them. -/
theorem eq_keyedEnd (h : TakenRecords (keyedEnds X run) w taken) (honce : EndsOnce run)
    {entry : ResultTable × EndKey × ConsensusEndData} (hentry : entry ∈ taken)
    {stored : PeerId × ConsensusEndData} (hstored : stored ∈ storedEnds run)
    (hpeer : entry.2.1.1 = stored.1) (hrequest : entry.2.2.request = stored.2.request) :
    entry.2 = keyedEnd X stored := by
  obtain ⟨stored', hstored', heq⟩ := h.exists_stored hentry
  rw [← heq] at hpeer hrequest ⊢
  rw [List.inj_on_of_nodup_map honce hstored' hstored (Prod.ext hpeer hrequest)]

/-- An end record that no test has taken is pending. -/
theorem pending (h : TakenRecords (keyedEnds X run) w taken) (honce : EndsOnce run) {peer : PeerId}
    {data : ConsensusEndData} (hstored : (peer, data) ∈ storedEnds run)
    (hnot : keyedEnd X (peer, data) ∉ taken.map Prod.snd) : w.Pending X peer data := by
  refine ⟨h.balance.lookup (Multiset.mem_coe.2 (List.mem_map_of_mem hstored)) hnot, ?_⟩
  intro table hmem
  obtain ⟨entry, hentry, -, hpeer, hrequest⟩ := h.mem_resultList.1 hmem
  rw [← h.eq_keyedEnd honce hentry hstored hpeer hrequest] at hnot
  exact hnot (Multiset.mem_map_of_mem Prod.snd hentry)

theorem nodup (h : TakenRecords (keyedEnds X run) w taken) (hkeys : EndKeysOnce X run) :
    (taken.map Prod.snd).Nodup :=
  h.balance.nodup_dealt (Multiset.coe_nodup.2 (List.Nodup.of_map Prod.fst hkeys))

/-- No request is twice in one result list. -/
theorem nodup_resultList (h : TakenRecords (keyedEnds X run) w taken) (honce : EndsOnce run)
    (hkeys : EndKeysOnce X run) (table : ResultTable) (peer : PeerId) :
    (w.resultList table peer).Nodup := by
  rw [← Multiset.coe_nodup, h.lists]
  apply Multiset.Nodup.map_on _ ((Multiset.Nodup.of_map Prod.snd (h.nodup hkeys)).filter _)
  intro entry hentry entry' hentry' hrequest
  obtain ⟨hentry, -, hpeer⟩ := Multiset.mem_filter.1 hentry
  obtain ⟨hentry', -, hpeer'⟩ := Multiset.mem_filter.1 hentry'
  obtain ⟨stored, hstored, heq⟩ := h.exists_stored hentry
  have heq' := h.eq_keyedEnd honce hentry' hstored
    (by rw [hpeer', ← hpeer, ← heq]; rfl) (by rw [← hrequest, ← heq]; rfl)
  exact Multiset.inj_on_of_nodup_map (h.nodup hkeys) _ hentry _ hentry' (heq.symm.trans heq'.symm)

/-- An end record that a test has taken is recorded once. -/
theorem recordedOnce (h : TakenRecords (keyedEnds X run) w taken) (honce : EndsOnce run)
    (hkeys : EndKeysOnce X run) {peer : PeerId} {data : ConsensusEndData}
    (hstored : (peer, data) ∈ storedEnds run) (hmem : keyedEnd X (peer, data) ∈ taken.map Prod.snd) :
    w.RecordedOnce X peer data := by
  obtain ⟨⟨table, keyed⟩, hentry, rfl⟩ := Multiset.mem_map.1 hmem
  refine ⟨?_, table, ?_, ?_⟩
  · exact h.balance.lookup_eq_none (Multiset.coe_nodup.2 hkeys) hmem
  · apply List.count_eq_one_of_mem (h.nodup_resultList honce hkeys table peer)
    exact h.mem_resultList.2 ⟨_, hentry, rfl, rfl, rfl⟩
  · intro other hother hcontra
    obtain ⟨entry, hentry', rfl, hpeer, hrequest⟩ := h.mem_resultList.1 hcontra
    have hsame := h.eq_keyedEnd honce hentry' hstored hpeer hrequest
    exact hother (congrArg Prod.fst (Multiset.inj_on_of_nodup_map (h.nodup hkeys) _ hentry' _ hentry hsame))

end TakenRecords

end Accounts

/-- Every end record stored in a run is pending or recorded once, whatever the tests and the resets. -/
theorem securityAccounted_of_isRun {final : DataWarehouse} {run : Run}
    (h : IsRun (step X) DataWarehouse.new run final) (honce : EndsOnce run) (hhash : NoCollision X run) :
    SecurityAccounted X run final := by
  have hkeys := endKeysOnce honce hhash
  obtain ⟨taken, htaken⟩ := securityInv_of_isRun h hkeys
  refine ⟨?_, ?_⟩
  · intro peer data hstored
    by_cases hmem : keyedEnd X (peer, data) ∈ taken.map Prod.snd
    · exact .inr (htaken.recordedOnce honce hkeys hstored hmem)
    · exact .inl (htaken.pending honce hstored hmem)
  · intro table peer request hmem
    obtain ⟨entry, hentry, -, rfl, rfl⟩ := htaken.mem_resultList.1 hmem
    obtain ⟨stored, hstored, heq⟩ := htaken.exists_stored hentry
    rw [← heq]
    exact ⟨stored.2, hstored, rfl⟩

/-- A crash round that leaves one end record, a reset, and a malicious round that takes it. -/
def mixedTestOps : List Op :=
  [.storeConsensusStartData [9] ⟨⟨"a"⟩, 5⟩,
    .storeConsensusEndData [1] ⟨⟨"a"⟩, 7⟩,
    .storeConsensusEndData [1] ⟨⟨"b"⟩, 8⟩,
    .testCrash 1 [(([1], "a"), ⟨⟨"a"⟩, 7⟩), (([1], "b"), ⟨⟨"b"⟩, 8⟩)],
    .reset,
    .testMalicious (.malicious (.leaderFeignDeath .firstRound 1)) [(([1], "b"), ⟨⟨"b"⟩, 8⟩)]]

theorem securityAccounted_of_isRun_mixed :
    SecurityAccounted Externals.transparent
      (transitions (step Externals.transparent) DataWarehouse.new mixedTestOps)
      (final (step Externals.transparent) DataWarehouse.new mixedTestOps) :=
  securityAccounted_of_isRun (IsRun.of_isSome (by decide +kernel)) (by decide +kernel)
    (noCollision_transparent _)

end BFTDiagnosis.Analyzer
