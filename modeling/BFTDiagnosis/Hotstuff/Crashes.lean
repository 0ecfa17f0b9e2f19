import BFTDiagnosis.BasicHotstuff.Robustness
import BFTDiagnosis.ChainHotstuff.Certification
import BFTDiagnosis.ChainHotstuff.Robustness

/-!
# When the handlers of the HotStuff protocols return

A message or a view timeout aborts a node in exactly the states, and for exactly the fields, that the conditions of
the two protocols name. A node that has just been created is aborted by its first view timeout and by any vote.
-/

namespace BFTDiagnosis.Hotstuff

/-- In every state that is reached from the default, a call of either protocol returns if and only if it can rely
on what it needs. -/
theorem call_returns_iff (me : Bytes) (peerId : String) :
    (∀ (X : BasicHotstuff.Externals) (deserialize : Bytes → Option (List (Bytes × ConsensusNodePKInfo)))
        (run : List (Transition BasicHotstuff.BasicHotstuffProtocol BasicHotstuff.Event BasicHotstuff.Answer))
        (p : BasicHotstuff.BasicHotstuffProtocol) (call : BasicHotstuff.Call),
      X.peerIdValid me = true → IsRun (BasicHotstuff.step X me) (.new 1 peerId) run p → call.Ordered deserialize →
        ((call.run deserialize X me p).isSome = true ↔ call.Survives deserialize X p)) ∧
    (∀ (X : ChainHotstuff.Externals) (run : List ChainHotstuff.ChainTransition)
        (p : ChainHotstuff.ChainHotstuffProtocol) (call : ChainHotstuff.Call),
      X.peerIdValid me = true → IsRun (ChainHotstuff.step X me) (.new 1 peerId) run p → call.Ordered →
        ((call.run X me p).isSome = true ↔ call.Survives X p me)) := by
  constructor
  · intro X deserialize run p call hme hrun horder
    exact BasicHotstuff.Call.isSome_run deserialize (BasicHotstuff.operational_of_run hrun) hme horder
  · intro X run p call hme hrun horder
    exact ChainHotstuff.Call.isSome_run (ChainHotstuff.operational_of_run hrun) hme horder

/-- A node of either protocol that knows the other nodes survives a view timeout. -/
theorem call_returns_after_join :
    ((BasicHotstuff.Call.viewTimeout.run (fun _ ↦ none) .transparent [3] (final (BasicHotstuff.step .transparent [3])
      (.new 1 "") [.message (.consensusNodePKsInfo (fourKeys.map pkInfoOf)) (fourKeys.map pkInfoOf)])).isSome = true) ∧
    (ChainHotstuff.Call.viewTimeout.run .transparent [3]
      (final (ChainHotstuff.step .transparent [3]) (.new 1 "") (ChainHotstuff.joinEvents 2))).isSome = true := by
  constructor
  · refine ((call_returns_iff [3] "").1 .transparent (fun _ ↦ none) _ _ .viewTimeout rfl
      (IsRun.of_isSome (by decide +kernel)) trivial).2 ⟨by decide +kernel, by decide +kernel, by decide +kernel⟩
  · refine ((call_returns_iff [3] "").2 .transparent _ _ .viewTimeout rfl
      (IsRun.of_isSome (by decide +kernel)) trivial).2
        ⟨by decide +kernel, by decide +kernel, by decide +kernel, by decide +kernel⟩

/-- A node that has just been created is aborted by its first view timeout and by a vote of a node that it does
not know. -/
theorem call_aborts_fresh :
    (∃ run p, IsRun (BasicHotstuff.step .transparent [3]) (.new 1 "") run p ∧
      BasicHotstuff.Call.viewTimeout.run (fun _ ↦ none) .transparent [3] p = none ∧
      BasicHotstuff.Call.run (fun _ ↦ none) .transparent [3] p (.message (.prepareVote
        { viewNum := 1, block := ⟨"a", ""⟩, partialSignature := none, fromPeerId := [1] }) []) = none) ∧
    ∃ run p, IsRun (ChainHotstuff.step .transparent [3]) (.new 1 "") run p ∧
      ChainHotstuff.Call.viewTimeout.run .transparent [3] p = none ∧
      ChainHotstuff.Call.run .transparent [3] p (.message (.vote
        { viewNum := 1, block := { cmd := "a", parentHash := "", justify := none }, partialSignature := [],
          fromPeerId := [1] }) []) = none :=
  ⟨⟨[], _, .nil, by decide +kernel, by decide +kernel⟩, [], _, .nil, by decide +kernel, by decide +kernel⟩

end BFTDiagnosis.Hotstuff
