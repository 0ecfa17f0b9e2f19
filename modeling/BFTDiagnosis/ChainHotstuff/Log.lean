import BFTDiagnosis.ChainHotstuff.Message
import BFTDiagnosis.Hotstuff.HighQC

/-!
# The chained HotStuff log

`Log` of `protocols/src/chain_hotstuff/log.rs`: the shares of votes, and the Generic messages without
a block, with which replicas enter a view, in a list for each view.
-/

namespace BFTDiagnosis.ChainHotstuff

open Hotstuff

structure Log where
  messageSignatures : MessageSignatures
  generics : HashMap UInt64 (List Generic)

namespace Log

def new : Log where
  messageSignatures := ∅
  generics := ∅

def recordGeneric (log : Log) (viewNum : UInt64) (generic : Generic) : Log :=
  { log with generics := log.generics.pushAt viewNum generic }

def getGenericsCountByView (log : Log) (viewNum : UInt64) : ℕ := (log.generics.listAt viewNum).length

/-- `get_high_qc_by_view`; `none` is the panic on a view without Generics. -/
def getHighQCByView (log : Log) (viewNum : UInt64) (genericQC : Option QC) : Option (Option QC) := do
  let generics ← log.generics.lookup viewNum
  return (generics.map Generic.justify).foldl (higherQC QC.viewNum) genericQC

/-- The shares recorded under a hash, none when the hash is new. -/
def sharesAt (log : Log) (msgHash : String) : HashMap UInt64 Bytes := log.messageSignatures.mapAt msgHash

def recordMessgaePartialSignature (log : Log) (msgHash : String) (keypairNum : UInt64)
    (partialSig : Bytes) : Log :=
  { log with messageSignatures := log.messageSignatures.insertAt msgHash keypairNum partialSig }

/-- `get_partial_signatures_by_message_hash`; `none` is the panic on an unknown hash. -/
def getPartialSignaturesByMessageHash (log : Log) (msgHash : String) : Option (HashMap UInt64 Bytes) :=
  log.messageSignatures.lookup msgHash

def getPartialSignaturesCountByMessageHash (log : Log) (msgHash : String) : ℕ :=
  countSignatures log.messageSignatures msgHash

/-- The QC that is picked is the first one of the greatest view among the own one and the recorded ones. -/
theorem firstHighest_of_getHighQCByView {log : Log} {viewNum : UInt64} {genericQC highQC : Option QC}
    (h : log.getHighQCByView viewNum genericQC = some highQC) :
    FirstHighest QC.viewNum (genericQC :: (log.generics.listAt viewNum).map Generic.justify) highQC := by
  obtain ⟨generics, hlookup, hfold⟩ := Option.bind_eq_some_iff.1 h
  rw [HashMap.listAt, hlookup, Option.getD_some, ← Option.some.inj hfold]
  exact .foldl genericQC (generics.map Generic.justify)

/-- The QC that is picked is the own one or comes from a recorded Generic. -/
theorem getHighQCByView_mem {log : Log} {viewNum : UInt64} {genericQC highQC : Option QC}
    (h : log.getHighQCByView viewNum genericQC = some highQC) :
    highQC = genericQC ∨ ∃ generic ∈ log.generics.listAt viewNum, highQC = generic.justify := by
  rcases List.mem_cons.1 ((firstHighest_of_getHighQCByView h).mem (List.cons_ne_nil _ _)) with hown | hrecorded
  · exact .inl hown
  · obtain ⟨generic, hgeneric, hjustify⟩ := List.mem_map.1 hrecorded
    exact .inr ⟨generic, hgeneric, hjustify.symm⟩

end Log

end BFTDiagnosis.ChainHotstuff
