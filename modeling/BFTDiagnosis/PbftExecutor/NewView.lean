import Mathlib.Data.Finset.Card
import BFTDiagnosis.PbftExecutor.Message

/-!
# NewViews of the standalone PBFT executor

The primary builds a NewView from the ViewChanges it has recorded and the replicas verify it. Both
collect the PrePrepares of the ViewChanges, the first one for each number, and fill the gaps between
the stable checkpoint and the highest prepared number with empty ones.

The verification zips its own list with the one it has received, so it does not notice that one of them
is longer. Its quorum checks build sets of senders into which only members are inserted.
-/

namespace BFTDiagnosis.PbftExecutor

open Word
open Pbft (PrePrepare Prepare Commit CheckPoint PublicKey ProofMessages)

namespace Executor

/-! ## The functions of the executor -/

/-- `broadcast_newview`, up to the message that is sent; there has to be a first ViewChange. -/
def broadcastNewview (e : Executor) (newView : UInt64) : Option (NewView MessageType) := do
  let viewchanges := e.log.getViewchangeMessagesByView newView
  let first ← viewchanges.head?
  let max := e.log.getMaxSequenceNumberInViewchangeByView newView
  let preprepares ← e.log.createNewviewPreprepareMessages newView first.latestStableCheckpoint max
  return { view := newView, viewchanges := viewchanges, preprepares := preprepares, signature := "" }

def getMaxSequenceNumberByViewchanges (viewchanges : List (ViewChange MessageType)) : UInt64 :=
  viewchanges.foldl
    (fun max viewchange ↦ viewchange.proofMessages.prepares.foldl ConsensusLog.maxPrepareNumber max) 0

/-- The PrePrepares that `verify_preprepares_in_newview` computes itself. -/
def recreatedPreprepares (viewchanges : List (ViewChange MessageType)) (newView : UInt64) :
    Option (List PrePrepare) := do
  let first ← viewchanges.head?
  let max := getMaxSequenceNumberByViewchanges viewchanges
  let found := ConsensusLog.collectPreprepares viewchanges
  let low ← checkedAdd first.latestStableCheckpoint 1
  let high ← checkedAdd max 1
  return (List.range' low.toNat (high.toNat - low.toNat)).map fun i ↦
    (found.lookup (UInt64.ofNat i)).getD (ConsensusLog.nullPreprepare newView (UInt64.ofNat i))

def verifyPrepreparesInNewview (viewchanges : List (ViewChange MessageType))
    (preprepares : List PrePrepare) (newView : UInt64) : Option Bool := do
  let recreated ← recreatedPreprepares viewchanges newView
  return (recreated.zip preprepares).all fun pair ↦ pair.1 == pair.2

/-- The CheckPoints of a ViewChange that are for the stable checkpoint of the replica. -/
def matchingCheckpoints (e : Executor) (viewchange : ViewChange MessageType) : List CheckPoint :=
  viewchange.latestStableCheckpointMessages.filter fun c ↦
    c.currentMaxNumber == e.state.stableCheckpoint.1 &&
      c.checkpointStateDigest == e.state.stableCheckpoint.2

/-- `verify_viewchange`. A sender is inserted when it is a member already. -/
def verifyViewchange (e : Executor) (viewchange : ViewChange MessageType) : Option Bool := do
  let checkpointMsgFromIds := (e.matchingCheckpoints viewchange).foldl
    (fun ids c ↦ if c.fromPeerId ∈ ids then insert c.fromPeerId ids else ids) (∅ : Finset Bytes)
  let threshold ← checkedMul 2 e.state.faultToleranceCount
  return decide (threshold.toNat < checkpointMsgFromIds.card)

/-- One turn of the loop of `verify_viewchanges_in_newview`. -/
def collectSender (e : Executor) (ids : Finset Bytes) (viewchange : ViewChange MessageType) :
    Option (Finset Bytes) :=
  if viewchange.fromPeerId ∈ ids then
    (e.verifyViewchange viewchange).map fun valid ↦ if valid then insert viewchange.fromPeerId ids else ids
  else some ids

def verifyViewchangesInNewview (e : Executor) (viewchanges : List (ViewChange MessageType)) :
    Option Bool := do
  let viewchangeMsgFromIds ← viewchanges.foldlM e.collectSender ∅
  let threshold ← checkedMul 2 e.state.faultToleranceCount
  return decide (threshold.toNat < viewchangeMsgFromIds.card)

def verifyNewview (e : Executor) (newview : NewView MessageType) : Option Bool := do
  let viewchangesValid ← e.verifyViewchangesInNewview newview.viewchanges
  let prepreparesValid ← verifyPrepreparesInNewview newview.viewchanges newview.preprepares newview.view
  return viewchangesValid && prepreparesValid

end Executor

open Executor

/-! ## What a NewView should contain -/

/-- The PrePrepares that the ViewChanges prove, in order. -/
def provenPreprepares (viewchanges : List (ViewChange MessageType)) : List PrePrepare :=
  (viewchanges.flatMap fun viewchange ↦ viewchange.proofMessages.preprepares).filterMap fun
    | .prePrepare preprepare => some preprepare
    | _ => none

/-- The numbers of the Prepares in the ViewChanges. -/
def preparedNumbers (viewchanges : List (ViewChange MessageType)) : List UInt64 :=
  (viewchanges.flatMap fun viewchange ↦ viewchange.proofMessages.prepares).filterMap fun
    | .prepare prepare => some prepare.number
    | _ => none

def highestPrepared (viewchanges : List (ViewChange MessageType)) : ℕ :=
  ((preparedNumbers viewchanges).map UInt64.toNat).foldr max 0

/-- The PrePrepare of a number in the new view: the first one that is proven, or an empty one. -/
def elected (viewchanges : List (ViewChange MessageType)) (view number : UInt64) : PrePrepare :=
  ((provenPreprepares viewchanges).find? fun preprepare ↦ preprepare.number == number).getD
    (ConsensusLog.nullPreprepare view number)

/-- The loops of both sides find the elected PrePrepare of every number. -/
theorem getD_lookup_collectPreprepares (viewchanges : List (ViewChange MessageType))
    (view number : UInt64) :
    ((ConsensusLog.collectPreprepares viewchanges).lookup number).getD
      (ConsensusLog.nullPreprepare view number) = elected viewchanges view number := by
  -- each PrePrepare is entered under its number unless there is one already
  have hcollect : ConsensusLog.collectPreprepares viewchanges =
      (provenPreprepares viewchanges).foldl
        (fun found preprepare ↦ HashMap.insertNew found preprepare.number preprepare) ∅ := by
    unfold ConsensusLog.collectPreprepares provenPreprepares
    rw [List.foldl_filterMap, List.foldl_flatMap]
    congr 1
    funext found viewchange
    congr 1
    funext found message
    cases message <;> rfl
  rw [hcollect, HashMap.lookup_foldl_insertNew, Finmap.lookup_empty, Option.none_or]
  rfl

theorem toNat_foldl_maxPrepareNumber (messages : List MessageType) (start : UInt64) :
    (messages.foldl ConsensusLog.maxPrepareNumber start).toNat =
      max start.toNat (((messages.filterMap fun
        | .prepare prepare => some prepare.number
        | _ => none).map UInt64.toNat).foldr max 0) := by
  induction messages generalizing start with
  | nil => simp
  | cons message rest ih =>
    rw [List.foldl_cons, ih]
    cases message with
    | prepare prepare =>
      have hstep : (ConsensusLog.maxPrepareNumber start (.prepare prepare)).toNat =
          max start.toNat prepare.number.toNat := by
        change (if start < prepare.number then prepare.number else start).toNat = _
        split
        case isTrue hlt =>
          rw [UInt64.lt_iff_toNat_lt] at hlt
          omega
        case isFalse hle =>
          rw [UInt64.lt_iff_toNat_lt] at hle
          omega
      rw [hstep, max_assoc]
      rfl
    | _ => rfl

theorem toNat_getMaxSequenceNumberByViewchanges (viewchanges : List (ViewChange MessageType)) :
    (getMaxSequenceNumberByViewchanges viewchanges).toNat = highestPrepared viewchanges := by
  have hflat : getMaxSequenceNumberByViewchanges viewchanges =
      (viewchanges.flatMap fun viewchange ↦ viewchange.proofMessages.prepares).foldl
        ConsensusLog.maxPrepareNumber 0 := List.foldl_flatMap.symm
  have hzero : (0 : UInt64).toNat = 0 := rfl
  rw [hflat, toNat_foldl_maxPrepareNumber, hzero, Nat.zero_max]
  rfl

/-! ## Creation and verification -/

theorem toNat_addOne {x y : UInt64} (h : checkedAdd x 1 = some y) : y.toNat = x.toNat + 1 :=
  toNat_of_checkedAdd h

/-- The list both sides compute: the elected PrePrepare of every number above the stable checkpoint of
the first ViewChange, up to the highest prepared one. -/
theorem recreatedPreprepares_eq {first : ViewChange MessageType} {rest : List (ViewChange MessageType)}
    (view : UInt64) (hlow : first.latestStableCheckpoint.toNat + 1 < 2 ^ 64)
    (hhigh : highestPrepared (first :: rest) + 1 < 2 ^ 64) :
    recreatedPreprepares (first :: rest) view =
      some ((List.range' (first.latestStableCheckpoint.toNat + 1)
        (highestPrepared (first :: rest) - first.latestStableCheckpoint.toNat)).map fun number ↦
          elected (first :: rest) view (UInt64.ofNat number)) := by
  have hone : (1 : UInt64).toNat = 1 := rfl
  have hmax := toNat_getMaxSequenceNumberByViewchanges (first :: rest)
  obtain ⟨low, hlowSome⟩ := Option.isSome_iff_exists.1
    ((@isSome_checkedAdd first.latestStableCheckpoint 1).2 hlow)
  obtain ⟨high, hhighSome⟩ := Option.isSome_iff_exists.1
    ((@isSome_checkedAdd (getMaxSequenceNumberByViewchanges (first :: rest)) 1).2
      (by rw [hmax]; exact hhigh))
  have hlength : high.toNat - low.toNat =
      highestPrepared (first :: rest) - first.latestStableCheckpoint.toNat := by
    rw [toNat_addOne hhighSome, toNat_addOne hlowSome, hmax]
    omega
  simp only [recreatedPreprepares, List.head?_cons, bind, pure, Option.bind_some, hlowSome, hhighSome,
    toNat_addOne hlowSome, getD_lookup_collectPreprepares]
  rw [← toNat_addOne hlowSome, hlength]

/-- The primary sends what a replica recreates from the same ViewChanges. -/
theorem map_preprepares_broadcastNewview (e : Executor) (view : UInt64) :
    (e.broadcastNewview view).map NewView.preprepares =
      recreatedPreprepares (e.log.getViewchangeMessagesByView view) view := by
  simp only [broadcastNewview, recreatedPreprepares, ConsensusLog.createNewviewPreprepareMessages,
    ConsensusLog.getViewchangeMessagesByView, ConsensusLog.getMaxSequenceNumberInViewchangeByView,
    getMaxSequenceNumberByViewchanges, bind, pure]
  cases (e.log.viewchanges.listAt view).head? with
  | none => rfl
  | some first =>
    simp only [Option.bind_some]
    cases checkedAdd first.latestStableCheckpoint 1 with
    | none => rfl
    | some low =>
      simp only [Option.bind_some, Option.map_bind, Option.bind_assoc]
      rfl

/-- Comparing zipped lists compares the common positions. -/
theorem zip_all_eq_true_iff {α : Type} [DecidableEq α] {left right : List α} :
    (left.zip right).all (fun pair ↦ pair.1 == pair.2) = true ↔
      ∀ (i : ℕ) a b, left[i]? = some a → right[i]? = some b → b = a := by
  rw [List.all_eq_true]
  constructor
  · intro h i a b ha hb
    have hmem : (a, b) ∈ left.zip right :=
      List.mem_of_getElem? (List.getElem?_zip_eq_some.2 ⟨ha, hb⟩)
    exact (beq_iff_eq.1 (h (a, b) hmem)).symm
  · rintro h ⟨a, b⟩ hmem
    obtain ⟨i, hi⟩ := List.mem_iff_getElem?.1 hmem
    obtain ⟨ha, hb⟩ := List.getElem?_zip_eq_some.1 hi
    exact beq_iff_eq.2 (h i a b ha hb).symm

/-- The comparison is equality exactly when the lists have the same length or differ already in a
common position. -/
theorem zip_all_iff_eq_iff {α : Type} [DecidableEq α] {left right : List α} :
    ((left.zip right).all (fun pair ↦ pair.1 == pair.2) = true ↔ left = right) ↔
      right.length = left.length ∨
        ∃ (i : ℕ) (a b : α), left[i]? = some a ∧ right[i]? = some b ∧ b ≠ a := by
  rw [zip_all_eq_true_iff]
  by_cases hlength : right.length = left.length
  · refine iff_of_true ⟨fun h ↦ ?_, ?_⟩ (.inl hlength)
    · apply List.ext_getElem hlength.symm
      intro i hleft hright
      exact (h i left[i] right[i] (List.getElem?_eq_getElem hleft) (List.getElem?_eq_getElem hright)).symm
    · rintro rfl i a b ha hb
      exact Option.some.inj (hb.symm.trans ha)
  · have hne : left ≠ right := fun h ↦ hlength (congrArg List.length h).symm
    rw [iff_false_right hne, or_iff_right hlength]
    simp only [not_forall, exists_prop, ne_eq]

/-- A replica accepts the PrePrepares exactly when they are those that the primary creates from the same
ViewChanges. -/
def VerifiesCreated (primary : Executor) (preprepares : List PrePrepare) (view : UInt64) : Prop :=
  verifyPrepreparesInNewview (primary.log.getViewchangeMessagesByView view) preprepares view = some true ↔
    (primary.broadcastNewview view).map NewView.preprepares = some preprepares

/-- The list has one PrePrepare for each number between the stable checkpoint of the first ViewChange and
the highest prepared number, or one of its entries is not the elected one of its number, or there is no
number above the stable checkpoint. -/
def Comparable (viewchanges : List (ViewChange MessageType)) (preprepares : List PrePrepare)
    (view : UInt64) : Prop :=
  ∀ first ∈ viewchanges.head?,
    preprepares.length = highestPrepared viewchanges - first.latestStableCheckpoint.toNat ∨
    (∃ i preprepare, preprepares[i]? = some preprepare ∧
      first.latestStableCheckpoint.toNat + i < highestPrepared viewchanges ∧
      preprepare ≠
        elected viewchanges view (UInt64.ofNat (first.latestStableCheckpoint.toNat + 1 + i))) ∨
    first.latestStableCheckpoint.toNat + 1 = 2 ^ 64

theorem highestPrepared_lt {viewchanges : List (ViewChange MessageType)} {bound : ℕ} (hbound : 0 < bound)
    (h : ∀ number ∈ preparedNumbers viewchanges, number.toNat < bound) :
    highestPrepared viewchanges < bound := by
  unfold highestPrepared
  revert h
  generalize preparedNumbers viewchanges = numbers
  intro h
  induction numbers with
  | nil => exact hbound
  | cons number rest ih =>
    rw [List.forall_mem_cons] at h
    exact max_lt h.1 (ih h.2)

theorem recreatedPreprepares_of_last {first : ViewChange MessageType}
    {rest : List (ViewChange MessageType)} (view : UInt64)
    (hlow : ¬ first.latestStableCheckpoint.toNat + 1 < 2 ^ 64) :
    recreatedPreprepares (first :: rest) view = none := by
  have hnone : checkedAdd first.latestStableCheckpoint 1 = none := if_neg hlow
  simp [recreatedPreprepares, hnone]

/-- Creation and verification agree exactly on the comparable lists. -/
theorem verifiesCreated_iff_comparable {primary : Executor} {preprepares : List PrePrepare}
    {view : UInt64} (hrecorded : primary.log.getViewchangeMessagesByView view ≠ [])
    (hnumbers : ∀ number ∈ preparedNumbers (primary.log.getViewchangeMessagesByView view),
      number.toNat < 2 ^ 64 - 1) :
    VerifiesCreated primary preprepares view ↔
      Comparable (primary.log.getViewchangeMessagesByView view) preprepares view := by
  have hhighest := highestPrepared_lt (by decide) hnumbers
  rw [VerifiesCreated, map_preprepares_broadcastNewview]
  obtain ⟨first, rest, hviewchanges⟩ := List.exists_cons_of_ne_nil hrecorded
  rw [hviewchanges] at hhighest ⊢
  simp only [Comparable, List.head?_cons, Option.mem_some_iff, forall_eq']
  by_cases hlow : first.latestStableCheckpoint.toNat + 1 < 2 ^ 64
  · have hrecreated := @recreatedPreprepares_eq first rest view hlow (by omega)
    have hlast : first.latestStableCheckpoint.toNat + 1 ≠ 2 ^ 64 := by omega
    rw [verifyPrepreparesInNewview, hrecreated, or_iff_left hlast]
    simp only [bind, pure, Option.bind_some, Option.some.injEq]
    rw [zip_all_iff_eq_iff, List.length_map, List.length_range']
    refine or_congr Iff.rfl (exists_congr fun i ↦ ?_)
    -- The entry at position `i` is the elected one of the number `i` places above the checkpoint.
    by_cases hi : i < highestPrepared (first :: rest) - first.latestStableCheckpoint.toNat
    · have hlt : first.latestStableCheckpoint.toNat + i < highestPrepared (first :: rest) := by omega
      simp [List.getElem?_range' hi, hlt]
    · have hge : ¬ first.latestStableCheckpoint.toNat + i < highestPrepared (first :: rest) := by omega
      have hnone : (List.range' (first.latestStableCheckpoint.toNat + 1)
          (highestPrepared (first :: rest) - first.latestStableCheckpoint.toNat))[i]? = none := by
        rw [List.getElem?_eq_none_iff, List.length_range']
        omega
      simp [hnone, hge]
  · have hlast : first.latestStableCheckpoint.toNat + 1 = 2 ^ 64 := by
      have hlt := first.latestStableCheckpoint.toNat_lt
      omega
    rw [verifyPrepreparesInNewview, recreatedPreprepares_of_last view hlow]
    exact iff_of_true ⟨fun h ↦ (by cases h), fun h ↦ (by cases h)⟩ (.inr (.inr hlast))

/-- The PrePrepare of a number that has been prepared in view 0. -/
def preparedPreprepare (number : UInt64) : PrePrepare := { ConsensusLog.nullPreprepare 0 number with mHash := "h" }

/-- A ViewChange of view 1 from a peer that has prepared the number. -/
def preparedViewchange (peer : Bytes) (number : UInt64) : ViewChange MessageType :=
  { newView := 1, latestStableCheckpoint := 0, latestStableCheckpointMessages := [],
    proofMessages :=
      { preprepares := [.prePrepare (preparedPreprepare number)],
        prepares := [.prepare { view := 0, number := number, mHash := "h", fromPeerId := peer, signature := [] }] },
    fromPeerId := peer, signature := "" }

/-- A primary with one ViewChange. -/
def startedExecutor : Executor :=
  { state := { faultToleranceCount := 1, stableCheckpoint := (0, "") },
    log := (ConsensusLog.mk ∅).recordViewchange (preparedViewchange [2] 1) }

/-- A primary with two ViewChanges, of which none proves the second number. -/
def gapExecutor : Executor :=
  { startedExecutor with log := startedExecutor.log.recordViewchange (preparedViewchange [3] 3) }

/-- The proven PrePrepares are created and accepted, with an empty one between them. -/
theorem verifiesCreated_iff_comparable_gap :
    let preprepares := [preparedPreprepare 1, ConsensusLog.nullPreprepare 1 2, preparedPreprepare 3]
    (gapExecutor.broadcastNewview 1).map NewView.preprepares = some preprepares ∧
      Comparable (gapExecutor.log.getViewchangeMessagesByView 1) preprepares 1 ∧
      VerifiesCreated gapExecutor preprepares 1 := by
  intro preprepares
  have hviewchanges : gapExecutor.log.getViewchangeMessagesByView 1 =
      [preparedViewchange [2] 1, preparedViewchange [3] 3] := rfl
  have hnumbers : preparedNumbers [preparedViewchange [2] 1, preparedViewchange [3] 3] = [1, 3] := by
    decide +kernel
  have hcomparable : Comparable (gapExecutor.log.getViewchangeMessagesByView 1) preprepares 1 := by
    rintro first ⟨⟩
    exact .inl rfl
  refine ⟨by decide +kernel, hcomparable, (verifiesCreated_iff_comparable ?_ ?_).2 hcomparable⟩
  · rw [hviewchanges]
    exact List.cons_ne_nil _ _
  · rw [hviewchanges, hnumbers, List.forall_mem_cons, List.forall_mem_singleton]
    exact ⟨by decide, by decide⟩

/-- The empty list is accepted, though the primary creates one PrePrepare. -/
theorem not_verifiesCreated_of_empty :
    verifyPrepreparesInNewview [preparedViewchange [2] 1] [] 1 = some true ∧
      (startedExecutor.broadcastNewview 1).map NewView.preprepares = some [preparedPreprepare 1] ∧
      ¬ VerifiesCreated startedExecutor [] 1 := by
  have haccepted : verifyPrepreparesInNewview [preparedViewchange [2] 1] [] 1 = some true := by decide +kernel
  have hcreated : (startedExecutor.broadcastNewview 1).map NewView.preprepares =
      some [preparedPreprepare 1] := by decide +kernel
  refine ⟨haccepted, hcreated, fun h ↦ ?_⟩
  have hempty := h.1 haccepted
  rw [hcreated] at hempty
  cases hempty

/-! ## Quorums of senders -/

/-- A set into which only members are inserted stays empty. -/
theorem foldl_insert_members {α : Type} (sender : α → Bytes) (messages : List α) :
    messages.foldl (fun ids message ↦ if sender message ∈ ids then insert (sender message) ids else ids)
      (∅ : Finset Bytes) = ∅ := by
  induction messages with
  | nil => rfl
  | cons message rest ih => simpa using ih

theorem foldlM_collectSender (e : Executor) (viewchanges : List (ViewChange MessageType)) :
    viewchanges.foldlM e.collectSender ∅ = some ∅ := by
  induction viewchanges with
  | nil => rfl
  | cons viewchange rest ih =>
    have hfirst : e.collectSender ∅ viewchange = some ∅ := if_neg (Finset.notMem_empty _)
    rw [List.foldlM_cons, hfirst]
    exact ih

theorem verifyViewchange_ne_true (e : Executor) (viewchange : ViewChange MessageType) :
    e.verifyViewchange viewchange ≠ some true := by
  have hids := foldl_insert_members CheckPoint.fromPeerId (e.matchingCheckpoints viewchange)
  simp only [verifyViewchange, hids]
  cases checkedMul 2 e.state.faultToleranceCount with
  | none => simp
  | some threshold => simp

theorem verifyViewchangesInNewview_ne_true (e : Executor) (viewchanges : List (ViewChange MessageType)) :
    e.verifyViewchangesInNewview viewchanges ≠ some true := by
  unfold verifyViewchangesInNewview
  rw [foldlM_collectSender]
  cases checkedMul 2 e.state.faultToleranceCount with
  | none => simp
  | some threshold => simp

/-- No NewView is ever accepted. -/
theorem verifyNewview_ne_true (e : Executor) (newview : NewView MessageType) :
    e.verifyNewview newview ≠ some true := by
  have hviewchanges := verifyViewchangesInNewview_ne_true e newview.viewchanges
  unfold verifyNewview
  cases hvalid : e.verifyViewchangesInNewview newview.viewchanges with
  | none => simp
  | some valid =>
    cases valid with
    | true => exact absurd hvalid hviewchanges
    | false =>
      cases verifyPrepreparesInNewview newview.viewchanges newview.preprepares newview.view with
      | none => simp
      | some preprepares => simp

/-- The peers whose CheckPoints in the ViewChange are for the stable checkpoint of the replica. -/
def checkpointPeers (e : Executor) (viewchange : ViewChange MessageType) : Finset Bytes :=
  ((e.matchingCheckpoints viewchange).map CheckPoint.fromPeerId).toFinset

/-- The peers of the ViewChanges that the replica verifies. -/
def verifiedPeers (e : Executor) (viewchanges : List (ViewChange MessageType)) : Finset Bytes :=
  ((viewchanges.filter fun viewchange ↦ e.verifyViewchange viewchange = some true).map
    ViewChange.fromPeerId).toFinset

/-- Both checks accept exactly the quorums of more than `2 * f` different peers. -/
structure AcceptsQuorums (e : Executor) (viewchanges : List (ViewChange MessageType)) : Prop where
  viewchange : ∀ viewchange ∈ viewchanges, e.verifyViewchange viewchange = some true ↔
    2 * e.state.faultToleranceCount.toNat < (checkpointPeers e viewchange).card
  newview : e.verifyViewchangesInNewview viewchanges = some true ↔
    2 * e.state.faultToleranceCount.toNat < (verifiedPeers e viewchanges).card

theorem verifiedPeers_eq_empty (e : Executor) (viewchanges : List (ViewChange MessageType)) :
    verifiedPeers e viewchanges = ∅ := by
  have hnone : (viewchanges.filter fun viewchange ↦ e.verifyViewchange viewchange = some true) = [] := by
    rw [List.filter_eq_nil_iff]
    intro viewchange _
    rw [decide_eq_true_iff]
    exact verifyViewchange_ne_true e viewchange
  rw [verifiedPeers, hnone]
  rfl

/-- The checks accept exactly the quorums when there is no quorum to accept. -/
theorem acceptsQuorums_iff_no_quorum (e : Executor) (viewchanges : List (ViewChange MessageType)) :
    AcceptsQuorums e viewchanges ↔ ∀ viewchange ∈ viewchanges,
      (checkpointPeers e viewchange).card ≤ 2 * e.state.faultToleranceCount.toNat := by
  constructor
  · intro h viewchange hmem
    by_contra hquorum
    exact verifyViewchange_ne_true e viewchange ((h.viewchange viewchange hmem).2 (not_le.1 hquorum))
  · intro h
    refine ⟨fun viewchange hmem ↦ ?_, ?_⟩
    · exact iff_of_false (verifyViewchange_ne_true e viewchange) (not_lt.2 (h viewchange hmem))
    · rw [verifiedPeers_eq_empty]
      exact iff_of_false (verifyViewchangesInNewview_ne_true e viewchanges) (Nat.not_lt_zero _)

/-- A ViewChange with the CheckPoints of three peers for the initial checkpoint. -/
def provenViewchange (peer : Bytes) : ViewChange MessageType :=
  { preparedViewchange peer 1 with
    latestStableCheckpointMessages := [[2], [3], [4]].map fun sender ↦
      { currentMaxNumber := 0, checkpointStateDigest := "", fromPeerId := sender, signature := "" } }

/-- Three of four replicas prove the stable checkpoint, and the ViewChange is refused. -/
theorem not_acceptsQuorums_of_three :
    (checkpointPeers startedExecutor (provenViewchange [2])).card = 3 ∧
      startedExecutor.state.faultToleranceCount = 1 ∧
      startedExecutor.verifyViewchange (provenViewchange [2]) = some false ∧
      ¬ AcceptsQuorums startedExecutor [provenViewchange [2]] := by
  have hthree : (checkpointPeers startedExecutor (provenViewchange [2])).card = 3 := by decide +kernel
  refine ⟨hthree, rfl, by decide +kernel, fun h ↦ ?_⟩
  have hquorum : 2 * startedExecutor.state.faultToleranceCount.toNat <
      (checkpointPeers startedExecutor (provenViewchange [2])).card := by
    rw [hthree]
    decide
  exact verifyViewchange_ne_true _ _ ((h.viewchange _ List.mem_cons_self).2 hquorum)

end BFTDiagnosis.PbftExecutor
