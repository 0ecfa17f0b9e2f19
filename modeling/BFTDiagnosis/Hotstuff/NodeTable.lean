import BFTDiagnosis.Hotstuff.Common

/-!
# The table of numbered nodes

Both protocols keep the ids of the nodes under their numbers and look the leader of a view up by the remainder of
the view. The loop that fills the table panics on an id that cannot be parsed, so the table has valid ids only.
-/

namespace BFTDiagnosis.Hotstuff

open Components Utils Word

/-- The table after the loop of `storage_consensus_node_pk`, if no id panics. -/
def assignNumbers (nodes : HashMap UInt64 Bytes) (order : List (Bytes × ConsensusNodePKInfo)) :
    HashMap UInt64 Bytes :=
  order.foldl (fun nodes entry ↦ nodes.insert entry.2.number entry.1) nodes

/-- The node whose number is the remainder of a view. -/
def nodeOfView (nodes : HashMap UInt64 Bytes) (view : UInt64) : Option Bytes :=
  nodes.lookup (view % UInt64.ofNat nodes.len)

/-- Every id of the table can be parsed. -/
def NumbersValid (X : Platform) (nodes : HashMap UInt64 Bytes) : Prop :=
  ∀ number peer, nodes.lookup number = some peer → X.peerIdValid peer = true

/-- Every id of a list of nodes can be parsed. -/
def IdsValid (X : Platform) (order : List (Bytes × ConsensusNodePKInfo)) : Prop :=
  ∀ entry ∈ order, X.peerIdValid entry.1 = true

instance IdsValid.decidable (X : Platform) (order : List (Bytes × ConsensusNodePKInfo)) :
    Decidable (IdsValid X order) :=
  inferInstanceAs (Decidable (∀ entry ∈ order, _))

variable {X : Externals} {nodes : HashMap UInt64 Bytes} {order : List (Bytes × ConsensusNodePKInfo)}

theorem len_ne_zero_of_nodeOfView {view : UInt64} {peer : Bytes} (h : nodeOfView nodes view = some peer) :
    nodes.len ≠ 0 := by
  have hmem := Finmap.mem_keys.2 (Finmap.mem_of_lookup_eq_some h)
  exact Finset.card_ne_zero_of_mem hmem

theorem numbersValid_empty (X : Platform) : NumbersValid X ∅ := by
  intro number peer h
  rw [Finmap.lookup_empty] at h
  cases h

theorem NumbersValid.insert {X : Platform} (h : NumbersValid X nodes) {number : UInt64} {peer : Bytes}
    (hpeer : X.peerIdValid peer = true) : NumbersValid X (nodes.insert number peer) := by
  intro number' peer' hlookup
  by_cases hnumber : number' = number
  · subst hnumber
    rw [Finmap.lookup_insert] at hlookup
    rwa [← Option.some.inj hlookup]
  · rw [Finmap.lookup_insert_of_ne _ hnumber] at hlookup
    exact h number' peer' hlookup

theorem NumbersValid.assignNumbers {X : Platform} (h : NumbersValid X nodes) (hids : IdsValid X order) :
    NumbersValid X (assignNumbers nodes order) := by
  induction order generalizing nodes with
  | nil => exact h
  | cons entry order ih =>
    obtain ⟨hentry, hrest⟩ := List.forall_mem_cons.1 hids
    exact ih (h.insert hentry) hrest

/-- The loop panics exactly on a list with an id that cannot be parsed. -/
theorem foldlM_storeNumber (nodes : HashMap UInt64 Bytes) (order : List (Bytes × ConsensusNodePKInfo)) :
    order.foldlM (storeNumber X) nodes =
      if IdsValid X.toPlatform order then some (assignNumbers nodes order) else none := by
  induction order generalizing nodes with
  | nil => rfl
  | cons entry order ih =>
    have hcons : IdsValid X.toPlatform (entry :: order) ↔
        X.peerIdValid entry.1 = true ∧ IdsValid X.toPlatform order := List.forall_mem_cons
    rw [List.foldlM_cons, storeNumber, Platform.peerIdFromBytes]
    cases hentry : X.peerIdValid entry.1 with
    | true =>
      simp only [if_true, Option.map_some, bind, Option.bind_some, ih, hcons, hentry, true_and]
      rfl
    | false =>
      rw [if_neg Bool.false_ne_true, if_neg fun h ↦ Bool.false_ne_true (hentry.symm.trans (hcons.1 h).1)]
      rfl

/-- What only changes a result returns when there is one. -/
theorem isSome_bind_some {α β : Type} (x : Option α) (f : α → β) : (x.bind fun a ↦ some (f a)).isSome = x.isSome := by
  cases x <;> rfl

end BFTDiagnosis.Hotstuff
