import BFTDiagnosis.Pbft.Log

/-!
# The messages and the state of the standalone PBFT executor

`consensus/src/pbft` is the executor that the PBFT protocol was ported from. Its PrePrepares, Prepares,
Commits, CheckPoints and public keys have the fields of the ported ones; its requests and replies name
the client, and its ViewChanges carry the latest stable checkpoint of the sender and the CheckPoints
that prove it.
-/

namespace BFTDiagnosis.PbftExecutor

open Pbft (PrePrepare Prepare Commit CheckPoint PublicKey ProofMessages)

structure Request where
  operation : String
  timestamp : String
  clientId : Bytes
  signature : String
deriving DecidableEq

structure Reply where
  clientId : Bytes
  timestamp : String
  view : UInt64
  number : UInt64
  fromPeerId : Bytes
  signature : Bytes
  result : Bytes
deriving DecidableEq

structure ViewChange (μ : Type) where
  newView : UInt64
  latestStableCheckpoint : UInt64
  latestStableCheckpointMessages : List CheckPoint
  proofMessages : ProofMessages μ
  fromPeerId : Bytes
  signature : String

structure NewView (μ : Type) where
  view : UInt64
  viewchanges : List (ViewChange μ)
  preprepares : List PrePrepare
  signature : String

inductive MessageType where
  | request (request : Request)
  | prePrepare (preprepare : PrePrepare)
  | prepare (prepare : Prepare)
  | commit (commit : Commit)
  | reply (reply : Reply)
  | checkPoint (checkpoint : CheckPoint)
  | viewChange (viewchange : ViewChange MessageType)
  | newView (newview : NewView MessageType)
  | publicKey (key : PublicKey)
  | distributePK

/-- The fields of `state::State` that the change of view reads. -/
structure State where
  faultToleranceCount : UInt64
  stableCheckpoint : UInt64 × String

/-- The part of `ConsensusLog` that the change of view reads. -/
structure ConsensusLog where
  viewchanges : HashMap UInt64 (List (ViewChange MessageType))

structure Executor where
  state : State
  log : ConsensusLog

namespace ConsensusLog

def recordViewchange (log : ConsensusLog) (viewchange : ViewChange MessageType) : ConsensusLog :=
  { log with viewchanges := log.viewchanges.pushAt viewchange.newView viewchange }

def getViewchangeMessagesByView (log : ConsensusLog) (view : UInt64) : List (ViewChange MessageType) :=
  log.viewchanges.listAt view

/-- One turn of the loop of `get_max_sequence_number_in_viewchange_by_view`. -/
def maxPrepareNumber (max : UInt64) : MessageType → UInt64
  | .prepare prepare => if max < prepare.number then prepare.number else max
  | _ => max

def getMaxSequenceNumberInViewchangeByView (log : ConsensusLog) (view : UInt64) : UInt64 :=
  (log.viewchanges.listAt view).foldl
    (fun max viewchange ↦ viewchange.proofMessages.prepares.foldl maxPrepareNumber max) 0

/-- One turn of the loop that collects PrePrepares: the first one of a number stays. -/
def collectPreprepare (found : HashMap UInt64 PrePrepare) : MessageType → HashMap UInt64 PrePrepare
  | .prePrepare preprepare =>
    if preprepare.number ∈ found then found else found.insert preprepare.number preprepare
  | _ => found

def collectPreprepares (viewchanges : List (ViewChange MessageType)) : HashMap UInt64 PrePrepare :=
  viewchanges.foldl
    (fun found viewchange ↦ viewchange.proofMessages.preprepares.foldl collectPreprepare found) ∅

/-- The PrePrepare of a number without a request. -/
def nullPreprepare (view number : UInt64) : PrePrepare where
  view := view
  number := number
  mHash := "NULL"
  m := []
  signature := []
  fromPeerId := []

/-- `create_newview_preprepare_messages`; the bounds `min + 1` and `max + 1` may overflow. -/
def createNewviewPreprepareMessages (log : ConsensusLog) (view min max : UInt64) :
    Option (List PrePrepare) := do
  let found := collectPreprepares (log.viewchanges.listAt view)
  let first ← Word.checkedAdd min 1
  let last ← Word.checkedAdd max 1
  return (List.range' first.toNat (last.toNat - first.toNat)).map fun i ↦
    (found.lookup (UInt64.ofNat i)).getD (nullPreprepare view (UInt64.ofNat i))

end ConsensusLog

end BFTDiagnosis.PbftExecutor
