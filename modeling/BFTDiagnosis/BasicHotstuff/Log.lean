import BFTDiagnosis.BasicHotstuff.Message
import BFTDiagnosis.Hotstuff.HighQC

/-!
# The Basic HotStuff log

`Log` of `protocols/src/basic_hotstuff/log.rs`. Partial signatures are kept for each message hash in
a map from the voter's key number to its share, so a voter counts once, and a repeated vote is
recorded again under the same number.
-/

namespace BFTDiagnosis.BasicHotstuff

open Hotstuff

structure Log where
  messageSignatures : MessageSignatures
  newviews : HashMap UInt64 (List NewView)

namespace Log

def new : Log where
  messageSignatures := ∅
  newviews := ∅

def recordNewview (log : Log) (viewNum : UInt64) (newview : NewView) : Log :=
  { log with newviews := log.newviews.pushAt viewNum newview }

def getNewviewsCountByView (log : Log) (viewNum : UInt64) : ℕ :=
  (log.newviews.listAt viewNum).length

/-- `get_high_qc_by_view`; `none` is the panic on a view without NewViews. -/
def getHighQCByView (log : Log) (viewNum : UInt64) (prepareQC : Option QC) : Option (Option QC) := do
  let newviews ← log.newviews.lookup viewNum
  return (newviews.map NewView.justify).foldl (higherQC QC.viewNum) prepareQC

/-- The shares recorded under a hash, none when the hash is new. -/
def sharesAt (log : Log) (msgHash : String) : HashMap UInt64 Bytes := log.messageSignatures.mapAt msgHash

def recordMessgaePartialSignature (log : Log) (msgHash : String) (keypairNum : UInt64)
    (partialSig : Bytes) : Log :=
  { log with messageSignatures := log.messageSignatures.insertAt msgHash keypairNum partialSig }

/-- `get_partial_signatures_by_message_hash`; `none` is the panic on an unknown hash. -/
def getPartialSignaturesByMessageHash (log : Log) (msgHash : String) : Option (HashMap UInt64 Bytes) :=
  log.messageSignatures.lookup msgHash

def getPartialSignaturesCountByMessageHash (log : Log) (msgHash : String) : ℕ :=
  countSignatures log.messageSignatures msgHash

variable (log : Log) (msgHash : String) (number : UInt64) (share : Bytes)

theorem lookup_record_self :
    (log.recordMessgaePartialSignature msgHash number share).messageSignatures.lookup msgHash =
      some ((log.sharesAt msgHash).insert number share) :=
  HashMap.lookup_insertAt_self _ _ _ _

@[simp] theorem sharesAt_record_self :
    (log.recordMessgaePartialSignature msgHash number share).sharesAt msgHash =
      (log.sharesAt msgHash).insert number share :=
  HashMap.mapAt_insertAt_self _ _ _ _

theorem sharesAt_record_of_ne {other : String} (h : other ≠ msgHash) :
    (log.recordMessgaePartialSignature msgHash number share).sharesAt other = log.sharesAt other :=
  HashMap.mapAt_insertAt_of_ne _ _ _ _ h

@[simp] theorem sharesAt_new : new.sharesAt msgHash = ∅ := HashMap.mapAt_empty msgHash

/-- The QC that is picked is the first one of the greatest view among the own one and the recorded ones. -/
theorem firstHighest_of_getHighQCByView {log : Log} {viewNum : UInt64} {prepareQC highQC : Option QC}
    (h : log.getHighQCByView viewNum prepareQC = some highQC) :
    FirstHighest QC.viewNum (prepareQC :: (log.newviews.listAt viewNum).map NewView.justify) highQC := by
  obtain ⟨newviews, hlookup, hfold⟩ := Option.bind_eq_some_iff.1 h
  rw [HashMap.listAt, hlookup, Option.getD_some, ← Option.some.inj hfold]
  exact .foldl prepareQC (newviews.map NewView.justify)

end Log

end BFTDiagnosis.BasicHotstuff
