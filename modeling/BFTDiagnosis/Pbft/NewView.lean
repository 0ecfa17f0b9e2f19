import BFTDiagnosis.Pbft.Encoding
import Mathlib.Order.Bounds.Defs

/-!
# What a NewView contains and what it makes a replica say

A primary reads a NewView off the ViewChanges it has recorded: the highest prepared number, and for every
number up to it the first PrePrepare that some ViewChange proves, or an empty one.

A replica logs the PrePrepares as they are, with the view in which they were proposed, and announces a
Prepare for each of them in the view of the NewView. Its log then stands behind the announcement only if
the PrePrepare was made for the new view, or had been logged for it, and if the request is logged already.
-/

namespace BFTDiagnosis.Pbft

open Components Word PBFTProtocol

variable {X : Externals}

/-! ## What the ViewChanges prove -/

def MessageType.asPreprepare : MessageType → Option PrePrepare
  | .prePrepare msg => some msg
  | _ => none

def MessageType.asPrepare : MessageType → Option Prepare
  | .prepare msg => some msg
  | _ => none

/-- The PrePrepares that the ViewChanges prove, in the order in which they are recorded. -/
def provenPreprepares (viewchanges : List (ViewChange MessageType)) : List PrePrepare :=
  viewchanges.flatMap fun viewchange ↦ viewchange.proofMessages.preprepares.filterMap MessageType.asPreprepare

/-- The Prepares that the ViewChanges prove, in the order in which they are recorded. -/
def provenPrepares (viewchanges : List (ViewChange MessageType)) : List Prepare :=
  viewchanges.flatMap fun viewchange ↦ viewchange.proofMessages.prepares.filterMap MessageType.asPrepare

/-- The number is the highest one of the Prepares, and 0 if there are none. -/
structure HighestNumber (prepares : List Prepare) (number : UInt64) : Prop where
  none : prepares = [] → number = 0
  greatest : prepares ≠ [] → IsGreatest {n | ∃ prepare ∈ prepares, prepare.number = n} number

/-- The PrePrepare is the first one of its number, or the NULL PrePrepare of the view when no other one has
this number. -/
def Elected (preprepares : List PrePrepare) (view : UInt64) (preprepare : PrePrepare) : Prop :=
  (∃ before after, preprepares = before ++ preprepare :: after ∧
    ∀ earlier ∈ before, earlier.number ≠ preprepare.number) ∨
  (preprepare = ConsensusLog.nullPreprepare view preprepare.number ∧
    ∀ other ∈ preprepares, other.number ≠ preprepare.number)

/-- One elected PrePrepare for each of the numbers `min + 1` to `max`, in increasing order. -/
structure NewviewContents (viewchanges : List (ViewChange MessageType)) (view min max : UInt64)
    (preprepares : List PrePrepare) : Prop where
  numbers : preprepares.map (·.number.toNat) = List.range' (min.toNat + 1) (max.toNat - min.toNat)
  elected : ∀ preprepare ∈ preprepares, Elected (provenPreprepares viewchanges) view preprepare

/-! ## The two loops -/

theorem foldl_maxPrepareNumber (prepares : List Prepare) (start : UInt64) :
    let highest := prepares.foldl (fun max prepare ↦ ConsensusLog.maxPrepareNumber max (.prepare prepare)) start
    start ≤ highest ∧ (∀ prepare ∈ prepares, prepare.number ≤ highest) ∧
      (highest = start ∨ ∃ prepare ∈ prepares, prepare.number = highest) := by
  induction prepares generalizing start with
  | nil => exact ⟨UInt64.le_refl start, fun _ h ↦ absurd h List.not_mem_nil, .inl rfl⟩
  | cons prepare rest ih =>
    have hstep : start ≤ ConsensusLog.maxPrepareNumber start (.prepare prepare) ∧
        prepare.number ≤ ConsensusLog.maxPrepareNumber start (.prepare prepare) ∧
        (ConsensusLog.maxPrepareNumber start (.prepare prepare) = start ∨
          prepare.number = ConsensusLog.maxPrepareNumber start (.prepare prepare)) := by
      have hlarger : ConsensusLog.maxPrepareNumber start (.prepare prepare) =
        if start < prepare.number then prepare.number else start := rfl
      rw [hlarger]
      split
      case isTrue hlt => exact ⟨UInt64.le_of_lt hlt, UInt64.le_refl _, .inr rfl⟩
      case isFalse hle => exact ⟨UInt64.le_refl _, UInt64.not_lt.1 hle, .inl rfl⟩
    obtain ⟨hstart, hothers, hreached⟩ := ih (ConsensusLog.maxPrepareNumber start (.prepare prepare))
    refine ⟨UInt64.le_trans hstep.1 hstart, ?_, ?_⟩
    · exact List.forall_mem_cons.2 ⟨UInt64.le_trans hstep.2.1 hstart, hothers⟩
    · rcases hreached with hsame | ⟨other, hother, hnumber⟩
      · rw [List.foldl_cons, hsame]
        exact hstep.2.2.imp id fun hnumber ↦ ⟨prepare, List.mem_cons_self, hnumber⟩
      · exact .inr ⟨other, List.mem_cons_of_mem _ hother, hnumber⟩

/-- The loop over the ViewChanges only looks at the Prepares they prove. -/
theorem getMaxSequenceNumberInViewchangeByView_eq (log : ConsensusLog) (view : UInt64) :
    log.getMaxSequenceNumberInViewchangeByView view =
      (provenPrepares (log.viewchanges.listAt view)).foldl
        (fun max prepare ↦ ConsensusLog.maxPrepareNumber max (.prepare prepare)) 0 := by
  unfold ConsensusLog.getMaxSequenceNumberInViewchangeByView provenPrepares
  rw [List.foldl_flatMap]
  congr 1
  funext max viewchange
  rw [List.foldl_filterMap]
  congr 1
  funext max msg
  cases msg <;> rfl

theorem highestNumber_getMaxSequenceNumber (log : ConsensusLog) (view : UInt64) :
    HighestNumber (provenPrepares (log.viewchanges.listAt view))
      (log.getMaxSequenceNumberInViewchangeByView view) := by
  rw [getMaxSequenceNumberInViewchangeByView_eq]
  obtain ⟨-, hothers, hreached⟩ := foldl_maxPrepareNumber (provenPrepares (log.viewchanges.listAt view)) 0
  refine ⟨fun hnone ↦ by rw [hnone]; rfl, fun hsome ↦ ⟨?_, ?_⟩⟩
  · rcases hreached with hzero | hmem
    · obtain ⟨prepare, hprepare⟩ := List.exists_mem_of_ne_nil _ hsome
      refine ⟨prepare, hprepare, ?_⟩
      have hle := hothers prepare hprepare
      rw [hzero] at hle ⊢
      exact UInt64.le_antisymm hle (UInt64.le_iff_toNat_le.2 (Nat.zero_le _))
    · exact hmem
  · rintro _ ⟨prepare, hprepare, rfl⟩
    exact hothers prepare hprepare

/-- The loop over the ViewChanges collects the first PrePrepare of every number. -/
theorem lookup_collectPreprepares (viewchanges : List (ViewChange MessageType)) (number : UInt64) :
    (ConsensusLog.collectPreprepares viewchanges).lookup number =
      (provenPreprepares viewchanges).find? fun preprepare ↦ preprepare.number == number := by
  have hcollect : ConsensusLog.collectPreprepares viewchanges =
      (provenPreprepares viewchanges).foldl
        (fun found preprepare ↦ HashMap.insertNew found preprepare.number preprepare) ∅ := by
    unfold ConsensusLog.collectPreprepares provenPreprepares
    rw [List.foldl_flatMap]
    congr 1
    funext found viewchange
    rw [List.foldl_filterMap]
    congr 1
    funext found msg
    cases msg <;> rfl
  rw [hcollect, HashMap.lookup_foldl_insertNew, Finmap.lookup_empty, Option.none_or]

theorem number_getD_find? (preprepares : List PrePrepare) (view number : UInt64) :
    ((preprepares.find? fun preprepare ↦ preprepare.number == number).getD
      (ConsensusLog.nullPreprepare view number)).number = number := by
  cases hfind : preprepares.find? fun preprepare ↦ preprepare.number == number with
  | none => rfl
  | some preprepare => exact beq_iff_eq.1 (List.find?_some hfind :)

theorem elected_getD_find? (preprepares : List PrePrepare) (view number : UInt64) :
    Elected preprepares view ((preprepares.find? fun preprepare ↦ preprepare.number == number).getD
      (ConsensusLog.nullPreprepare view number)) := by
  cases hfind : preprepares.find? fun preprepare ↦ preprepare.number == number with
  | none =>
    refine .inr ⟨rfl, fun other hother hnumber ↦ ?_⟩
    exact List.find?_eq_none.1 hfind other hother (beq_iff_eq.2 hnumber)
  | some preprepare =>
    obtain ⟨hnumber, before, after, hsplit, hbefore⟩ := List.find?_eq_some_iff_append.1 hfind
    refine .inl ⟨before, after, hsplit, fun earlier hearlier hsame ↦ ?_⟩
    have hdiffers := hbefore earlier hearlier
    rw [Option.getD_some] at hsame
    rw [hsame, beq_iff_eq.1 hnumber] at hdiffers
    simp at hdiffers

/-- The list that `create_newview_preprepare_messages` builds. -/
theorem createNewviewPreprepareMessages_eq (log : ConsensusLog) (view min max : UInt64)
    (hmin : min.toNat + 1 < 2 ^ 64) (hmax : max.toNat + 1 < 2 ^ 64) :
    log.createNewviewPreprepareMessages view min max =
      some ((List.range' (min.toNat + 1) (max.toNat - min.toNat)).map fun i ↦
        ((provenPreprepares (log.viewchanges.listAt view)).find? fun preprepare ↦
          preprepare.number == UInt64.ofNat i).getD (ConsensusLog.nullPreprepare view (UInt64.ofNat i))) := by
  obtain ⟨first, hfirst⟩ := Option.isSome_iff_exists.1 ((@isSome_checkedAdd min 1).2 hmin)
  obtain ⟨last, hlast⟩ := Option.isSome_iff_exists.1 ((@isSome_checkedAdd max 1).2 hmax)
  have hfirstNat : first.toNat = min.toNat + 1 := toNat_of_checkedAdd hfirst
  have hlastNat : last.toNat = max.toNat + 1 := toNat_of_checkedAdd hlast
  simp only [ConsensusLog.createNewviewPreprepareMessages, hfirst, hlast, bind, pure, Option.bind_some,
    lookup_collectPreprepares, hfirstNat, hlastNat, Nat.add_sub_add_right]

/-- The highest prepared number of the recorded ViewChanges is found, and the PrePrepares of a NewView are
the elected ones. -/
theorem newviewContents_of_recorded (log : ConsensusLog) (view min max : UInt64)
    (hmin : min.toNat + 1 < 2 ^ 64) (hmax : max.toNat + 1 < 2 ^ 64) :
    HighestNumber (provenPrepares (log.viewchanges.listAt view))
        (log.getMaxSequenceNumberInViewchangeByView view) ∧
      ∃ preprepares, log.createNewviewPreprepareMessages view min max = some preprepares ∧
        NewviewContents (log.viewchanges.listAt view) view min max preprepares := by
  refine ⟨highestNumber_getMaxSequenceNumber log view, _,
    createNewviewPreprepareMessages_eq log view min max hmin hmax, ?_, ?_⟩
  · simp only [List.map_map, Function.comp_def, number_getD_find?]
    have hsmall : ∀ i ∈ List.range' (min.toNat + 1) (max.toNat - min.toNat), (UInt64.ofNat i).toNat = id i := by
      intro i hi
      obtain ⟨hlow, hhigh⟩ := List.mem_range'_1.1 hi
      have hlt : i < 2 ^ 64 := by omega
      exact UInt64.toNat_ofNat_of_lt' hlt
    rw [List.map_congr_left hsmall, List.map_id]
  · intro preprepare hmem
    obtain ⟨i, -, rfl⟩ := List.mem_map.1 hmem
    exact elected_getD_find? _ view (UInt64.ofNat i)

/-- An unsigned PrePrepare of a peer. -/
def barePreprepare (view number : UInt64) (cmd : String) : PrePrepare :=
  { view := view, number := number, mHash := requestHash .transparent ⟨cmd⟩
    m := Externals.transparent.requestJson ⟨cmd⟩, signature := [], fromPeerId := [2] }

/-- A ViewChange for view 1 that proves the PrePrepares, and a Prepare for the number. -/
def provingViewchange (preprepares : List PrePrepare) (number : UInt64) : ViewChange MessageType :=
  { newView := 1, fromPeerId := [2], signature := ""
    proofMessages := ⟨.distributePK :: preprepares.map .prePrepare,
      [.prepare { view := 0, number := number, mHash := "", fromPeerId := [2], signature := [] }]⟩ }

/-- Two ViewChanges with two PrePrepares for number 2 and none for number 3. -/
def gappedLog : ConsensusLog :=
  (ConsensusLog.new.recordViewchange (provingViewchange [barePreprepare 0 2 "b"] 3)).recordViewchange
    (provingViewchange [barePreprepare 0 2 "c", barePreprepare 0 1 "a"] 2)

theorem newviewContents_of_recorded_gapped :
    gappedLog.getMaxSequenceNumberInViewchangeByView 1 = 3 ∧
      gappedLog.createNewviewPreprepareMessages 1 0 3 =
        some [barePreprepare 0 1 "a", barePreprepare 0 2 "b", ConsensusLog.nullPreprepare 1 3] ∧
      ∃ preprepares, gappedLog.createNewviewPreprepareMessages 1 0 3 = some preprepares ∧
        NewviewContents (gappedLog.viewchanges.listAt 1) 1 0 3 preprepares :=
  ⟨by decide +kernel, by decide +kernel,
    (newviewContents_of_recorded gappedLog 1 0 3 (by decide) (by decide)).2⟩

/-! ## What a replica announces -/

/-- The NewView is one that a primary in this state broadcasts. -/
def BuiltBy (q : PBFTProtocol) (msg : NewView MessageType) : Prop :=
  ∃ newView, q.broadcastNewview newView = some (.continueExecute [.broadcast (.message ⟨.newView msg⟩)])

/-- The log holds a PrePrepare for the slot of the Prepare, and the request unless the hash is NULL. -/
structure BacksPrepare (X : Externals) (log : ConsensusLog) (prepare : Prepare) : Prop where
  proposed : ∃ preprepare, .prePrepare preprepare ∈
    log.messages.listAt (getPreprepareKeyByRequestHash X (asBytes prepare.mHash) prepare.view prepare.number)
  requested : prepare.mHash ≠ "NULL" →
    ∃ request, log.requests.lookup prepare.number = some request ∧ requestHash X request = prepare.mHash

/-- Every Prepare that is sent is backed by the log. -/
def PreparesBacked (X : Externals) (p : PBFTProtocol) (out : Answer) : Prop :=
  ∀ payload ∈ payloads out, ∀ prepare, payload.built = .prepare prepare → BacksPrepare X p.log prepare

/-- A PrePrepare of a NewView for the view whose Prepare has something to refer to: it was made for this view,
or one for this view is logged, and its request is logged unless it has none. -/
structure ReadyFor (X : Externals) (log : ConsensusLog) (view : UInt64) (preprepare : PrePrepare) : Prop where
  proposed : preprepare.view = view ∨ ∃ logged, .prePrepare logged ∈
    log.messages.listAt (getPreprepareKeyByRequestHash X (asBytes preprepare.mHash) view preprepare.number)
  requested : preprepare.mHash ≠ "NULL" →
    ∃ request, log.requests.lookup preprepare.number = some request ∧ requestHash X request = preprepare.mHash

/-- A NewView that is built from ViewChanges has its PrePrepares under different numbers. -/
theorem BuiltBy.nodup {q : PBFTProtocol} {msg : NewView MessageType} (h : BuiltBy q msg) :
    (msg.preprepares.map PrePrepare.number).Nodup := by
  obtain ⟨newView, hbuilt⟩ := h
  simp only [broadcastNewview, bind, pure, Option.bind_eq_some_iff, Option.some.injEq,
    PhaseState.continueExecute.injEq, List.cons.injEq, SendType.broadcast.injEq, Payload.message.injEq,
    ConsensusMessage.mk.injEq, MessageType.newView.injEq] at hbuilt
  obtain ⟨preprepares, hcreated, rfl, -⟩ := hbuilt
  have hcreated' := hcreated
  simp only [ConsensusLog.createNewviewPreprepareMessages, bind, pure, Option.bind_eq_some_iff] at hcreated'
  obtain ⟨first, hfirst, last, hlast, -⟩ := hcreated'
  have hmin := (@isSome_checkedAdd 0 1).1 (Option.isSome_iff_exists.2 ⟨first, hfirst⟩)
  have hmax := isSome_checkedAdd.1 (Option.isSome_iff_exists.2 ⟨last, hlast⟩)
  obtain ⟨-, created, heq, hcontents⟩ := newviewContents_of_recorded q.log newView 0 _ hmin hmax
  obtain rfl : created = preprepares := Option.some.inj (heq.symm.trans hcreated)
  apply List.Nodup.of_map UInt64.toNat
  rw [List.map_map]
  exact hcontents.numbers ▸ List.nodup_range'

theorem listAt_recordPreprepares_eq (preprepares : List PrePrepare) (log : ConsensusLog) (key : String) :
    (preprepares.foldl (fun log preprepare ↦ log.recordMessageHandler X (.prePrepare preprepare)) log).messages.listAt
        key =
      log.messages.listAt key ++
        (preprepares.filter fun preprepare ↦ getMessageKey X (.prePrepare preprepare) = key).map .prePrepare := by
  induction preprepares generalizing log with
  | nil => simp
  | cons preprepare rest ih =>
    rw [List.foldl_cons, ih, List.filter_cons]
    change (log.messages.pushAt (getMessageKey X (.prePrepare preprepare)) (.prePrepare preprepare)).listAt key ++ _ = _
    by_cases hkey : getMessageKey X (.prePrepare preprepare) = key
    · subst hkey
      rw [HashMap.listAt_pushAt_self, if_pos (decide_eq_true rfl), List.map_cons, List.append_assoc,
        List.singleton_append]
    · rw [HashMap.listAt_pushAt_of_ne _ _ (Ne.symm hkey), if_neg (by simpa using hkey)]

/-- The log backs a Prepare for a PrePrepare of a NewView exactly when it was ready for it. -/
theorem backsPrepare_iff_readyFor (hX : X.CollisionFree) {p : PBFTProtocol} {me : Bytes}
    {msg : NewView MessageType} (hnodup : (msg.preprepares.map PrePrepare.number).Nodup)
    {preprepare : PrePrepare} (hmem : preprepare ∈ msg.preprepares) (signature : Bytes) :
    BacksPrepare X (p.handleNewview X me msg).1.log
        { view := msg.view, number := preprepare.number, mHash := preprepare.mHash, fromPeerId := me,
          signature := signature } ↔
      ReadyFor X p.log msg.view preprepare := by
  have hlist (key : String) : (p.handleNewview X me msg).1.log.messages.listAt key =
      p.log.messages.listAt key ++ (msg.preprepares.filter fun preprepare ↦
        getMessageKey X (.prePrepare preprepare) = key).map .prePrepare :=
    listAt_recordPreprepares_eq msg.preprepares p.log.clearCurrentRequest key
  have hrequests : (p.handleNewview X me msg).1.log.requests = p.log.requests := by
    obtain ⟨messages, hframe⟩ := @recordPreprepares_frame X msg.preprepares p.log.clearCurrentRequest
    rw [handleNewview, hframe]
    rfl
  constructor
  · rintro ⟨⟨logged, hlogged⟩, hrequest⟩
    rw [hrequests] at hrequest
    refine ⟨?_, hrequest⟩
    rw [hlist, List.mem_append] at hlogged
    rcases hlogged with hbefore | hnew
    · exact .inr ⟨logged, hbefore⟩
    · obtain ⟨other, hother, -⟩ := List.mem_map.1 hnew
      obtain ⟨hotherMem, hkey⟩ := List.mem_filter.1 hother
      have hslot : other.slot = ⟨msg.view, preprepare.number, preprepare.mHash⟩ :=
        (phaseKey_inj hX other.slot ⟨msg.view, preprepare.number, preprepare.mHash⟩ (of_decide_eq_true hkey)).2
      obtain ⟨hview, hnumber, -⟩ := Slot.mk.inj hslot
      obtain rfl : other = preprepare := List.inj_on_of_nodup_map hnodup hotherMem hmem hnumber
      exact .inl hview
  · rintro ⟨hpreprepare, hrequest⟩
    rw [← hrequests] at hrequest
    refine ⟨?_, hrequest⟩
    rw [hlist]
    rcases hpreprepare with hview | ⟨logged, hlogged⟩
    · refine ⟨preprepare, List.mem_append_right _ (List.mem_map.2 ⟨preprepare, List.mem_filter.2 ⟨hmem, ?_⟩, rfl⟩)⟩
      rw [← hview]
      exact decide_eq_true rfl
    · exact ⟨logged, List.mem_append_left _ hlogged⟩

/-- The Prepares that answer the NewView of a primary are backed by the log exactly when it was ready for every
PrePrepare in it. -/
theorem preparesBacked_iff_readyFor (hX : X.CollisionFree) {p q : PBFTProtocol} {me : Bytes}
    {msg : NewView MessageType} (hbuilt : BuiltBy q msg) :
    PreparesBacked X (p.handleNewview X me msg).1 (p.handleNewview X me msg).2 ↔
      ∀ preprepare ∈ msg.preprepares, ReadyFor X p.log msg.view preprepare := by
  unfold PreparesBacked
  rw [payloads_handleNewview, List.forall_mem_map]
  refine forall₂_congr fun preprepare hmem ↦ ?_
  rw [← backsPrepare_iff_readyFor hX hbuilt.nodup hmem []]
  constructor
  · intro h
    exact h _ rfl
  · intro h prepare hprepare
    obtain rfl := MessageType.prepare.inj hprepare
    exact h

/-- A primary that has received one ViewChange, proving a PrePrepare of the given view for number 1. -/
def askedPrimary (view : UInt64) : PBFTProtocol :=
  final (step .transparent [4]) (PBFTProtocol.new 1 [4])
    [.message (.viewChange (provingViewchange [barePreprepare view 1 "a"] 2))]

/-- What it broadcasts for view 1: the PrePrepare, and an empty one for number 2. -/
def askedNewview (view : UInt64) : NewView MessageType :=
  { view := 1, viewchanges := [provingViewchange [barePreprepare view 1 "a"] 2]
    preprepares := [barePreprepare view 1 "a", ConsensusLog.nullPreprepare 1 2], signature := "" }

theorem builtBy_askedPrimary (view : UInt64) : BuiltBy (askedPrimary view) (askedNewview view) := ⟨1, rfl⟩

/-- A replica that has accepted the PrePrepare for "a" in view 0. -/
def acceptedReplica : PBFTProtocol :=
  final (step .transparent [1]) (PBFTProtocol.new 1 [1])
    [.message (.publicKey ⟨[2], [2]⟩), .message (.prePrepare (roundPreprepare [2] ⟨"a"⟩))]

/-- The PrePrepare is made for view 1 and its request is logged. -/
theorem preparesBacked_iff_readyFor_sameView :
    acceptedReplica.log.requests.lookup 1 = some ⟨"a"⟩ ∧
      PreparesBacked .transparent (acceptedReplica.handleNewview .transparent [1] (askedNewview 1)).1
        (acceptedReplica.handleNewview .transparent [1] (askedNewview 1)).2 := by
  refine ⟨by decide +kernel, (preparesBacked_iff_readyFor Utils.Platform.collisionFree_transparent
    (builtBy_askedPrimary 1)).2 ?_⟩
  intro preprepare hmem
  rcases List.mem_cons.1 hmem with rfl | hmem
  · exact ⟨.inl rfl, fun _ ↦ ⟨⟨"a"⟩, by decide +kernel, rfl⟩⟩
  · obtain rfl := List.mem_singleton.1 hmem
    exact ⟨.inl rfl, fun hnull ↦ absurd rfl hnull⟩

/-- The PrePrepare was made for view 0. The replica has logged it there, with its request, and announces a
Prepare for view 1, where no PrePrepare is logged. -/
theorem not_preparesBacked_of_oldView :
    (∃ run, IsRun (step .transparent [4]) (PBFTProtocol.new 1 [4]) run (askedPrimary 0)) ∧
      BuiltBy (askedPrimary 0) (askedNewview 0) ∧
      (∃ run, IsRun (step .transparent [1]) (PBFTProtocol.new 1 [1]) run acceptedReplica) ∧
      acceptedReplica.log.requests.lookup 1 = some ⟨"a"⟩ ∧
      ¬ PreparesBacked .transparent (acceptedReplica.handleNewview .transparent [1] (askedNewview 0)).1
        (acceptedReplica.handleNewview .transparent [1] (askedNewview 0)).2 := by
  refine ⟨⟨_, .of_isSome (by decide +kernel)⟩, builtBy_askedPrimary 0, ⟨_, .of_isSome (by decide +kernel)⟩,
    by decide +kernel, ?_⟩
  intro hbacked
  have hfirst : (Payload.bare (.prepare
      { view := 1, number := 1, mHash := (barePreprepare 0 1 "a").mHash, fromPeerId := [1], signature := [] })) ∈
      payloads (acceptedReplica.handleNewview .transparent [1] (askedNewview 0)).2 := by
    rw [payloads_handleNewview]
    exact List.mem_cons_self
  have hready := (backsPrepare_iff_readyFor Utils.Platform.collisionFree_transparent
    (builtBy_askedPrimary 0).nodup List.mem_cons_self []).1 (hbacked _ hfirst _ rfl)
  rcases hready.proposed with hview | ⟨logged, hlogged⟩
  · revert hview
    decide
  · have hnone : acceptedReplica.log.messages.listAt (getPreprepareKeyByRequestHash .transparent
        (asBytes (barePreprepare 0 1 "a").mHash) 1 1) = [] := List.length_eq_zero_iff.1 (by decide +kernel)
    rw [show (askedNewview 0).view = 1 from rfl] at hlogged
    exact List.not_mem_nil (hnone ▸ hlogged)

end BFTDiagnosis.Pbft
