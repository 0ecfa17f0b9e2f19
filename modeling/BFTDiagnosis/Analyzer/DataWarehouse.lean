import BFTDiagnosis.Components.Message
import BFTDiagnosis.Lib.Drain
import BFTDiagnosis.Lib.Run
import BFTDiagnosis.Utils.Platform

/-!
# The data warehouse of the analyzer

`DataWarehouse` of `components/src/analyzer/data_warehouse.rs`: three copies of the records that the
consensus nodes report (for throughput, latency and security), the computations on them and what these
computations leave behind. The rows that the code inserts into a database are the output of an
operation. Loops over hash maps take the order of the walk as an argument, which has to be a listing of
the map. The conversion of a count into a throughput is done in floating point and is a parameter.

`none` is a panic: an overflow or underflow in a build with overflow checks.
-/

namespace BFTDiagnosis.Analyzer

open Components Utils Word

/-- The code under the warehouse that is not modelled. -/
structure Externals extends Platform where
  /-- `(count as f64 / (0.001 * elapsed as f64)) as u64`. -/
  throughput : UInt64 → UInt64 → UInt64

/-- Externals on which runs can be evaluated: throughputs are rounded integer quotients. -/
def Externals.transparent : Externals where
  toPlatform := Platform.transparent
  throughput count elapsed :=
    if elapsed = 0 then (if count = 0 then 0 else UInt64.ofNat (2 ^ 64 - 1))
    else UInt64.ofNat (count.toNat * 1000 / elapsed.toNat)

/-- A peer and the hash of a request. -/
abbrev EndKey := PeerId × String

/-- A row that the code inserts into one of its tables. -/
inductive Row where
  | throughput (round : UInt64) (peer : PeerId) (throughput : UInt64)
  | latency (peer : PeerId) (request : Request) (latency : UInt64)
  | scalabilityThroughput (item : TestItem) (round : UInt64) (peer : PeerId) (throughput : UInt64)
  | scalabilityLatency (item : TestItem) (peer : PeerId) (request : Request) (latency : UInt64)
  | scalabilityItem (item : TestItem)
deriving DecidableEq

structure DataWarehouse where
  tStartData : HashMap String ConsensusStartData
  tEndData : HashMap EndKey ConsensusEndData
  tStartDataComputing : HashMap String ConsensusStartData
  tEndDataComputing : HashMap EndKey ConsensusEndData
  throughputMidResults : HashMap PeerId UInt64
  lStartData : HashMap String ConsensusStartData
  lEndData : HashMap EndKey ConsensusEndData
  lStartDataComputing : HashMap String ConsensusStartData
  lEndDataComputing : HashMap EndKey ConsensusEndData
  sStartData : HashMap String ConsensusStartData
  sEndData : HashMap EndKey ConsensusEndData
  crashNodes : HashMap UInt16 (List PeerId)
  crashResults : HashMap UInt16 (HashMap PeerId (List Request))
  maliciousResults : HashMap TestItem (HashMap PeerId (List Request))
  internalRound : UInt64
  throughputInternal : UInt64

variable (X : Externals)

/-- `common::get_request_hash`. -/
def getRequestHash (request : Request) : String := X.getHashStr (X.requestBytes request)

namespace DataWarehouse

def new : DataWarehouse where
  tStartData := ∅
  tEndData := ∅
  tStartDataComputing := ∅
  tEndDataComputing := ∅
  throughputMidResults := ∅
  lStartData := ∅
  lEndData := ∅
  lStartDataComputing := ∅
  lEndDataComputing := ∅
  sStartData := ∅
  sEndData := ∅
  crashNodes := ∅
  crashResults := ∅
  maliciousResults := ∅
  internalRound := 0
  throughputInternal := 0

def setThroughputInternal (w : DataWarehouse) (internal : UInt64) : DataWarehouse :=
  { w with throughputInternal := internal }

/-- `record_crash_node`. The list that is extended is the last one of the walk over the map. -/
def recordCrashNode (w : DataWarehouse) (count : UInt16) (peerId : PeerId)
    (order : List (UInt16 × List PeerId)) : Option DataWarehouse := do
  guard (w.crashNodes.Listing order)
  if w.crashNodes.len ≠ 0 then
    let (_, lastOne) ← order.getLast?
    return { w with crashNodes := w.crashNodes.insert count (lastOne ++ [peerId]) }
  else
    return { w with crashNodes := w.crashNodes.insert count [peerId] }

/-! ## Records -/

def storeConsensusStartData (w : DataWarehouse) (data : ConsensusStartData) : DataWarehouse :=
  let requestHash := getRequestHash X data.request
  { w with
    tStartData := w.tStartData.insert requestHash data
    lStartData := w.lStartData.insert requestHash data
    sStartData := w.sStartData.insert requestHash data }

def storeConsensusEndData (w : DataWarehouse) (originPeerId : PeerId) (data : ConsensusEndData) :
    DataWarehouse :=
  let requestHash := getRequestHash X data.request
  { w with
    tEndData := w.tEndData.insert (originPeerId, requestHash) data
    lEndData := w.lEndData.insert (originPeerId, requestHash) data
    sEndData := w.sEndData.insert (originPeerId, requestHash) data }

def reset (w : DataWarehouse) : DataWarehouse :=
  { w with
    tStartData := ∅
    tEndData := ∅
    tStartDataComputing := ∅
    tEndDataComputing := ∅
    lStartData := ∅
    lEndData := ∅
    lStartDataComputing := ∅
    lEndDataComputing := ∅
    throughputMidResults := ∅
    internalRound := 0 }

/-! ## Throughput -/

def prepareComputeThroughput (w : DataWarehouse) : DataWarehouse :=
  { w with
    tStartDataComputing := w.tStartData
    tStartData := ∅
    tEndDataComputing := w.tEndData
    tEndData := ∅ }

def updateRequestCountWithPeer (w : DataWarehouse) (peerId : PeerId) : Option DataWarehouse :=
  match w.throughputMidResults.lookup peerId with
  | some count => do
    return { w with throughputMidResults := w.throughputMidResults.insert peerId (← checkedAdd count 1) }
  | none => some { w with throughputMidResults := w.throughputMidResults.insert peerId 1 }

/-- One turn of the loop over the end records: an end record with a start record is counted. -/
def countEntry (w : DataWarehouse) (entry : EndKey × ConsensusEndData) : Option DataWarehouse :=
  match w.tStartDataComputing.lookup entry.1.2 with
  | some _ => do
    let w ← w.updateRequestCountWithPeer entry.1.1
    return { w with tEndDataComputing := w.tEndDataComputing.remove entry.1 }
  | none => some w

/-- The loop over the counts: the elapsed time is computed anew for every peer. -/
def throughputRows (w : DataWarehouse) (row : PeerId → UInt64 → Row) (peers : List (PeerId × UInt64)) :
    Option (List Row) :=
  peers.mapM fun (peer, count) ↦ do
    let elapsed ← checkedMul w.internalRound w.throughputInternal
    return row peer (X.throughput count elapsed)

/-- The remaining data is rewritten to the maps that records are stored in. -/
def rewriteThroughputData (w : DataWarehouse) : DataWarehouse :=
  { w with
    tStartData := w.tStartData.extend w.tStartDataComputing
    tEndData := w.tEndData.extend w.tEndDataComputing
    tStartDataComputing := ∅
    tEndDataComputing := ∅ }

/-- The body of `compute_throughput` and `compute_scalability_throughput`, which insert different rows. -/
def computeThroughputWith (row : UInt64 → PeerId → UInt64 → Row) (w : DataWarehouse)
    (order : List (EndKey × ConsensusEndData)) (peers : List (PeerId × UInt64)) :
    Option (DataWarehouse × List Row) := do
  let w := w.prepareComputeThroughput
  guard (w.tEndDataComputing.Listing order)
  let w ← order.foldlM countEntry w
  let index := w.internalRound
  let w := { w with internalRound := ← checkedAdd w.internalRound 1 }
  guard (w.throughputMidResults.Listing peers)
  let rows ← w.throughputRows X (row index) peers
  return (w.rewriteThroughputData, rows)

def computeThroughput (w : DataWarehouse) (order : List (EndKey × ConsensusEndData))
    (peers : List (PeerId × UInt64)) : Option (DataWarehouse × List Row) :=
  w.computeThroughputWith X .throughput order peers

def computeScalabilityThroughput (w : DataWarehouse) (item : TestItem)
    (order : List (EndKey × ConsensusEndData)) (peers : List (PeerId × UInt64)) :
    Option (DataWarehouse × List Row) :=
  w.computeThroughputWith X (.scalabilityThroughput item) order peers

/-! ## Latency -/

def prepareComputeLatency (w : DataWarehouse) : DataWarehouse :=
  { w with
    lStartDataComputing := w.lStartData
    lStartData := ∅
    lEndDataComputing := w.lEndData
    lEndData := ∅ }

/-- One turn of the loop of `compute_latency`. The difference wraps, and a latency above 100000 is not
reported. -/
def latencyEntry (acc : DataWarehouse × List Row) (entry : EndKey × ConsensusEndData) :
    DataWarehouse × List Row :=
  match acc.1.lStartDataComputing.lookup entry.1.2 with
  | some startData =>
    let latency := entry.2.completedTime - startData.startTime
    if 100000 < latency then acc
    else
      ({ acc.1 with lEndDataComputing := acc.1.lEndDataComputing.remove entry.1 },
        acc.2 ++ [.latency entry.1.1 startData.request latency])
  | none => acc

def computeLatency (w : DataWarehouse) (order : List (EndKey × ConsensusEndData)) :
    Option (DataWarehouse × List Row) := do
  let w := w.prepareComputeLatency
  guard (w.lEndDataComputing.Listing order)
  let (w, rows) := order.foldl latencyEntry (w, [])
  return ({ w with
    lStartData := w.lStartData.extend w.lStartDataComputing
    lEndData := w.lEndData.extend w.lEndDataComputing
    lStartDataComputing := ∅
    lEndDataComputing := ∅ }, rows)

/-- One turn of the loop of `compute_scalability_latency`. -/
def scalabilityLatencyEntry (item : TestItem) (acc : DataWarehouse × List Row)
    (entry : EndKey × ConsensusEndData) : Option (DataWarehouse × List Row) :=
  match acc.1.lStartDataComputing.lookup entry.1.2 with
  | some startData => do
    let latency ← checkedSub entry.2.completedTime startData.startTime
    return ({ acc.1 with lEndDataComputing := acc.1.lEndDataComputing.remove entry.1 },
      acc.2 ++ [.scalabilityLatency item entry.1.1 startData.request latency])
  | none => some acc

/-- `compute_scalability_latency`. The start records are not written back. -/
def computeScalabilityLatency (w : DataWarehouse) (item : TestItem)
    (order : List (EndKey × ConsensusEndData)) : Option (DataWarehouse × List Row) := do
  let w := w.prepareComputeLatency
  guard (w.lEndDataComputing.Listing order)
  let (w, rows) ← order.foldlM (scalabilityLatencyEntry item) (w, [])
  return ({ w with
    lEndData := w.lEndData.extend w.lEndDataComputing
    lStartDataComputing := ∅
    lEndDataComputing := ∅ }, rows)

/-- `compute_scalability`, without the number of nodes it is given and does not use. -/
def computeScalability (w : DataWarehouse) (item : TestItem) (latencyOrder throughputOrder :
    List (EndKey × ConsensusEndData)) (peers : List (PeerId × UInt64)) :
    Option (DataWarehouse × List Row) := do
  let (w, latencyRows) ← w.computeScalabilityLatency item latencyOrder
  let (w, throughputRows) ← w.computeScalabilityThroughput X item throughputOrder peers
  return (w, latencyRows ++ throughputRows)

/-! ## Security -/

def storeSecurityResult (results : HashMap PeerId (List Request)) (peerId : PeerId) (request : Request) :
    HashMap PeerId (List Request) := results.pushAt peerId request

/-- One turn of the loop of `test_crash`, on the results of the round and the end records. -/
def crashEntry (started : HashMap String ConsensusStartData)
    (acc : HashMap PeerId (List Request) × HashMap EndKey ConsensusEndData)
    (entry : EndKey × ConsensusEndData) :
    HashMap PeerId (List Request) × HashMap EndKey ConsensusEndData :=
  match started.lookup entry.1.2 with
  | some _ => (storeSecurityResult acc.1 entry.1.1 entry.2.request, acc.2.remove entry.1)
  | none => acc

def testCrash (w : DataWarehouse) (crashCount : UInt16) (order : List (EndKey × ConsensusEndData)) :
    Option (DataWarehouse × List Row) := do
  let crashResults := w.crashResults.mapAt crashCount
  guard (w.sEndData.Listing order)
  let (crashResults, sEndData) := order.foldl (crashEntry w.sStartData) (crashResults, w.sEndData)
  return ({ w with
    sEndData := sEndData
    crashResults := w.crashResults.insert crashCount crashResults }, [])

/-- One turn of the loop of `test_malicious`: no start record is needed. -/
def maliciousEntry (acc : HashMap PeerId (List Request) × HashMap EndKey ConsensusEndData)
    (entry : EndKey × ConsensusEndData) :
    HashMap PeerId (List Request) × HashMap EndKey ConsensusEndData :=
  (storeSecurityResult acc.1 entry.1.1 entry.2.request, acc.2.remove entry.1)

def testMalicious (w : DataWarehouse) (testItem : TestItem) (order : List (EndKey × ConsensusEndData)) :
    Option (DataWarehouse × List Row) := do
  let maliciousResults := w.maliciousResults.mapAt testItem
  guard (w.sEndData.Listing order)
  let (maliciousResults, sEndData) := order.foldl maliciousEntry (maliciousResults, w.sEndData)
  return ({ w with
    sEndData := sEndData
    maliciousResults := w.maliciousResults.insert testItem maliciousResults }, [])

end DataWarehouse

/-! ## Operations -/

/-- What the analyzer calls on its warehouse. Every loop over a map comes with the order of its walk. -/
inductive Op where
  | storeConsensusStartData (originPeerId : PeerId) (data : ConsensusStartData)
  | storeConsensusEndData (originPeerId : PeerId) (data : ConsensusEndData)
  | computeThroughput (order : List (EndKey × ConsensusEndData)) (peers : List (PeerId × UInt64))
  | computeLatency (order : List (EndKey × ConsensusEndData))
  | computeScalabilityThroughput (item : TestItem) (order : List (EndKey × ConsensusEndData))
      (peers : List (PeerId × UInt64))
  | computeScalabilityLatency (item : TestItem) (order : List (EndKey × ConsensusEndData))
  | testCrash (crashCount : UInt16) (order : List (EndKey × ConsensusEndData))
  | testMalicious (testItem : TestItem) (order : List (EndKey × ConsensusEndData))
  | recordCrashNode (count : UInt16) (peerId : PeerId) (order : List (UInt16 × List PeerId))
  | setThroughputInternal (internal : UInt64)
  | reset

/-- One call on the warehouse, with the rows it inserts. -/
def step (w : DataWarehouse) : Op → Option (DataWarehouse × List Row)
  | .storeConsensusStartData _ data => some (w.storeConsensusStartData X data, [])
  | .storeConsensusEndData originPeerId data => some (w.storeConsensusEndData X originPeerId data, [])
  | .computeThroughput order peers => w.computeThroughput X order peers
  | .computeLatency order => w.computeLatency order
  | .computeScalabilityThroughput item order peers => w.computeScalabilityThroughput X item order peers
  | .computeScalabilityLatency item order => w.computeScalabilityLatency item order
  | .testCrash crashCount order => w.testCrash crashCount order
  | .testMalicious testItem order => w.testMalicious testItem order
  | .recordCrashNode count peerId order => do
    return (← w.recordCrashNode count peerId order, [])
  | .setThroughputInternal internal => some (w.setThroughputInternal internal, [])
  | .reset => some (w.reset, [])

end BFTDiagnosis.Analyzer
