import BFTDiagnosis.Lib.HashMap
import BFTDiagnosis.Lib.Run
import BFTDiagnosis.Utils.Platform

/-!
# The request buffer of the standalone HotStuff node

`consensus/src/basic_hotstuff/consensus_node/node.rs` is the node that the HotStuff protocol was ported from.
It keeps the hashes of gossiped requests in a list, in the order of their arrival, and the requests in a map
under their hashes. A request is appended to the list also when its hash is there already, and the end of a
request removes the first hash of the list but the entry of its own hash from the map. The two agree exactly
as long as no buffered request is gossiped again and requests end in the order of the list.
-/

namespace BFTDiagnosis.HotstuffNode

open Components Utils

/-- `state::Mode`, with the number of waiting requests. -/
inductive Mode where
  | done (n : UInt64)
  | «do» (n : UInt64)
  | notIsLeader (n : UInt64)
  | init
deriving DecidableEq

/-- The requests of `Node`, the mode of its executor and the stored permit of `consensus_notify`. -/
structure Node where
  requestBuffer : List String
  requestBufferMap : HashMap String (Bytes × ℕ)
  mode : Mode
  consensusNotify : Bool

def Node.new : Node where
  requestBuffer := []
  requestBufferMap := ∅
  mode := .init
  consensusNotify := false

/-- What the event loop and the tasks of the executor react to. `end` comes from the executor of the node. -/
inductive Event where
  | request (data : Bytes) (request : Request)
  | «end» (requestHash : String)
  | consensusNotify
  | proposalStateCheck
  | viewTimeout
  | newviewQuorum

/-! ## Branches of the event loop -/

variable (X : Platform)

def getRequestHash (request : Request) : String := X.getHashStr (X.requestBytes request)

/-- One more waiting request. -/
def Mode.received : Mode → Option Mode
  | .do n => (Word.checkedAdd n 1).map .do
  | .done n => (Word.checkedAdd n 1).map .done
  | .notIsLeader n => (Word.checkedAdd n 1).map .notIsLeader
  | .init => some (.notIsLeader 1)

/-- The branch of a gossiped request. -/
def receiveRequest (node : Node) (data : Bytes) (request : Request) : Option Node :=
  let requestHash := getRequestHash X request
  let count := node.requestBuffer.length
  node.mode.received.map fun mode ↦
    { node with
      requestBuffer := node.requestBuffer ++ [requestHash]
      requestBufferMap := node.requestBufferMap.insert requestHash (data, count)
      mode := mode }

/-- `remove(0)` and the removal of the hash from the map; an empty list panics. -/
def removeRequest (node : Node) (requestHash : String) : Option Node :=
  if requestHash ∈ node.requestBufferMap then
    match node.requestBuffer with
    | [] => none
    | _ :: rest =>
      some { node with requestBuffer := rest, requestBufferMap := node.requestBufferMap.erase requestHash }
  else some node

/-- The branch of `MessageType::End`. -/
def endRequest (node : Node) (requestHash : String) : Option Node :=
  (removeRequest node requestHash).map fun node ↦
    let count := node.requestBuffer.length
    { node with mode := if count = 0 then .init else .notIsLeader (UInt64.ofNat count) }

/-- The branch of `consensus_notify`: the bytes of the first buffered request, which are handed to the
executor. `none` is the panic of `unwrap`. -/
def firstRequest (node : Node) : Option (Option Bytes) :=
  match node.requestBuffer.head? with
  | none => some none
  | some requestHash => (node.requestBufferMap.lookup requestHash).map fun requestInfo ↦ some requestInfo.1

/-- `Executor::proposal_state_check`, one turn of its loop. -/
def proposalStateCheck (node : Node) : Node :=
  match node.mode with
  | .do n => if 0 < n then { node with consensusNotify := true, mode := .done (n - 1) } else node
  | _ => node

/-- What the task of `Executor::view_timeout_start` does with the mode. -/
def viewTimeout (node : Node) : Node :=
  match node.mode with
  | .done n | .do n => { node with mode := if n = 0 then .init else .notIsLeader n }
  | _ => node

/-- What `Executor::handle_newview` does with the mode when it has a quorum. -/
def newviewQuorum (node : Node) : Node :=
  match node.mode with
  | .init => { node with mode := .do 0 }
  | .do n | .done n | .notIsLeader n => { node with mode := .do n }

/-- One turn of the event loop, with the bytes handed to the executor. The branch of `consensus_notify` is
taken when there is a permit. -/
def step (node : Node) : Event → Option (Node × Option Bytes)
  | .request data request => (receiveRequest X node data request).map (·, none)
  | .end requestHash => (endRequest node requestHash).map (·, none)
  | .consensusNotify =>
    if node.consensusNotify then (firstRequest node).map ({ node with consensusNotify := false }, ·)
    else some (node, none)
  | .proposalStateCheck => some (proposalStateCheck node, none)
  | .viewTimeout => some (viewTimeout node, none)
  | .newviewQuorum => some (newviewQuorum node, none)

/-! ## Agreement of the list and the map -/

/-- The list has no duplicates and holds the keys of the map. -/
structure Agrees (node : Node) : Prop where
  nodup : node.requestBuffer.Nodup
  keys : node.requestBuffer.toFinset = node.requestBufferMap.keys

/-- Exactly the request of a hash is removed. -/
structure Removed (requestHash : String) (node node' : Node) : Prop where
  buffer : node'.requestBuffer = node.requestBuffer.filter (· ≠ requestHash)
  map : node'.requestBufferMap = node.requestBufferMap.erase requestHash

/-- A request that is not buffered yet, or the end of a request that, if buffered, is the first one. -/
def Orderly (t : Transition Node Event (Option Bytes)) : Prop :=
  match t.event with
  | .request _ request => getRequestHash X request ∉ t.pre.requestBuffer
  | .end requestHash => requestHash ∈ t.pre.requestBuffer → t.pre.requestBuffer.head? = some requestHash
  | _ => True

instance Orderly.decidable (t : Transition Node Event (Option Bytes)) : Decidable (Orderly X t) :=
  match t with
  | ⟨_, .request _ _, _, _⟩ => inferInstanceAs (Decidable (_ ∉ _))
  | ⟨_, .end _, _, _⟩ => inferInstanceAs (Decidable (_ → _))
  | ⟨_, .consensusNotify, _, _⟩ => inferInstanceAs (Decidable True)
  | ⟨_, .proposalStateCheck, _, _⟩ => inferInstanceAs (Decidable True)
  | ⟨_, .viewTimeout, _, _⟩ => inferInstanceAs (Decidable True)
  | ⟨_, .newviewQuorum, _, _⟩ => inferInstanceAs (Decidable True)

/-- The list and the map agree afterwards, the first request is found in the map, and an end has removed
the request that it names. -/
structure Kept (t : Transition Node Event (Option Bytes)) : Prop where
  agrees : Agrees t.post
  unwraps : (firstRequest t.post).isSome = true
  removes : ∀ requestHash, t.event = .end requestHash → Removed requestHash t.pre t.post

variable {X} {node node' : Node}

theorem Agrees.new : Agrees Node.new := ⟨List.nodup_nil, rfl⟩

theorem Agrees.mem_iff (h : Agrees node) (requestHash : String) :
    requestHash ∈ node.requestBuffer ↔ requestHash ∈ node.requestBufferMap := by
  rw [← List.mem_toFinset, h.keys, Finmap.mem_keys]

theorem Agrees.isSome_firstRequest (h : Agrees node) : (firstRequest node).isSome = true := by
  unfold firstRequest
  cases hbuffer : node.requestBuffer with
  | nil => rfl
  | cons requestHash rest =>
    have hmem : requestHash ∈ node.requestBufferMap := (h.mem_iff requestHash).1 (by simp [hbuffer])
    rw [List.head?_cons]
    simpa using Finmap.lookup_isSome.2 hmem

/-- Agreement depends on the list and the map only. -/
theorem Agrees.congr (h : Agrees node) (hbuffer : node'.requestBuffer = node.requestBuffer)
    (hmap : node'.requestBufferMap = node.requestBufferMap) : Agrees node' :=
  ⟨hbuffer ▸ h.nodup, by rw [hbuffer, hmap, h.keys]⟩

/-- One gossiped request keeps the agreement exactly when its hash is not buffered. -/
theorem agrees_receiveRequest_iff {data : Bytes} {request : Request} (hagrees : Agrees node)
    (h : receiveRequest X node data request = some node') :
    Agrees node' ↔ getRequestHash X request ∉ node.requestBuffer := by
  obtain ⟨mode, -, rfl⟩ := Option.map_eq_some_iff.1 h
  constructor
  · intro hagrees' hmem
    have hnodup := List.nodup_append.1 hagrees'.nodup
    exact hnodup.2.2 _ hmem _ (List.mem_singleton_self _) rfl
  · intro hfresh
    constructor
    · exact List.nodup_append.2 ⟨hagrees.nodup, List.nodup_singleton _, by
        intro requestHash hmem other hother heq
        exact hfresh (List.mem_singleton.1 hother ▸ heq ▸ hmem)⟩
    · rw [HashMap.keys_insert, ← hagrees.keys, List.toFinset_append, Finset.union_comm]
      rfl

/-- The removal of a request takes the first one, and is the removal of the named one exactly when that
is the first one. -/
theorem agrees_removeRequest_iff {requestHash : String} (hagrees : Agrees node)
    (h : removeRequest node requestHash = some node') :
    Agrees node' ∧ Removed requestHash node node' ↔
      (requestHash ∈ node.requestBuffer → node.requestBuffer.head? = some requestHash) := by
  unfold removeRequest at h
  split at h
  case isFalse habsent =>
    obtain rfl := Option.some.inj h
    have hnot : requestHash ∉ node.requestBuffer := fun hmem ↦ habsent ((hagrees.mem_iff _).1 hmem)
    refine iff_of_true ⟨hagrees, ?_, ?_⟩ fun hmem ↦ absurd hmem hnot
    · refine (List.filter_eq_self.2 fun other hother ↦ ?_).symm
      exact decide_eq_true fun heq ↦ hnot (heq ▸ hother)
    · exact (HashMap.erase_of_notMem habsent).symm
  case isTrue hpresent =>
    have hmem := (hagrees.mem_iff requestHash).2 hpresent
    cases hbuffer : node.requestBuffer with
    | nil => simp [hbuffer] at hmem
    | cons first rest =>
      rw [hbuffer] at h
      obtain rfl := Option.some.inj h
      obtain ⟨hfirst, hrest⟩ := List.nodup_cons.1 (hbuffer ▸ hagrees.nodup)
      constructor
      · rintro ⟨hagrees', -⟩ -
        -- a named request behind the first one is still in the list but not in the map
        have hgone : requestHash ∉ rest := fun hin ↦
          Finmap.notMem_erase_self ((hagrees'.mem_iff requestHash).1 hin)
        rw [hbuffer] at hmem
        rw [List.head?_cons, (List.mem_cons.1 hmem).resolve_right hgone]
      · intro hhead
        obtain rfl : first = requestHash := by simpa using hhead (hbuffer ▸ hmem)
        have hfilter : rest = (first :: rest).filter (· ≠ first) := by
          rw [List.filter_cons_of_neg (by simp), List.filter_eq_self.2]
          intro other hother
          exact decide_eq_true fun heq ↦ hfirst (heq ▸ hother)
        refine ⟨⟨hrest, ?_⟩, hbuffer ▸ hfilter, rfl⟩
        rw [Finmap.keys_erase, ← hagrees.keys, hbuffer, List.toFinset_cons,
          Finset.erase_insert (fun hin ↦ hfirst (List.mem_toFinset.1 hin))]

/-- The other branches and the tasks change the mode and the permit only. -/
theorem requests_eq_of_step {event : Event} {out : Option Bytes}
    (hrequest : ∀ data request, event ≠ .request data request) (hend : ∀ requestHash, event ≠ .end requestHash)
    (h : step X node event = some (node', out)) :
    node'.requestBuffer = node.requestBuffer ∧ node'.requestBufferMap = node.requestBufferMap := by
  cases event with
  | request data request => exact absurd rfl (hrequest data request)
  | «end» requestHash => exact absurd rfl (hend requestHash)
  | consensusNotify =>
    simp only [step] at h
    split at h
    · obtain ⟨data, -, heq⟩ := Option.map_eq_some_iff.1 h
      obtain ⟨rfl, -⟩ := Prod.mk.inj heq
      exact ⟨rfl, rfl⟩
    · obtain ⟨rfl, -⟩ := Prod.mk.inj (Option.some.inj h)
      exact ⟨rfl, rfl⟩
  | proposalStateCheck =>
    obtain ⟨rfl, -⟩ := Prod.mk.inj (Option.some.inj h)
    unfold proposalStateCheck
    split
    · split <;> exact ⟨rfl, rfl⟩
    · exact ⟨rfl, rfl⟩
  | viewTimeout =>
    obtain ⟨rfl, -⟩ := Prod.mk.inj (Option.some.inj h)
    unfold viewTimeout
    split <;> exact ⟨rfl, rfl⟩
  | newviewQuorum =>
    obtain ⟨rfl, -⟩ := Prod.mk.inj (Option.some.inj h)
    unfold newviewQuorum
    split <;> exact ⟨rfl, rfl⟩

/-- The end of a request changes the list and the map as the removal does. -/
theorem requests_eq_of_endRequest {requestHash : String} (h : endRequest node requestHash = some node') :
    ∃ removed, removeRequest node requestHash = some removed ∧
      removed.requestBuffer = node'.requestBuffer ∧ removed.requestBufferMap = node'.requestBufferMap := by
  obtain ⟨removed, hremove, rfl⟩ := Option.map_eq_some_iff.1 h
  exact ⟨removed, hremove, rfl, rfl⟩

theorem kept_iff_agrees {event : Event} {out : Option Bytes} (hend : ∀ requestHash, event ≠ .end requestHash) :
    Kept ⟨node, event, out, node'⟩ ↔ Agrees node' := by
  refine ⟨fun h ↦ h.agrees, fun h ↦ ⟨h, h.isSome_firstRequest, fun requestHash heq ↦ ?_⟩⟩
  exact absurd heq (hend requestHash)

/-- One turn keeps the agreement, and removes what an end names, exactly when it is orderly. -/
theorem kept_iff_orderly {event : Event} {out : Option Bytes} (hagrees : Agrees node)
    (taken : step X node event = some (node', out)) :
    Kept ⟨node, event, out, node'⟩ ↔ Orderly X ⟨node, event, out, node'⟩ := by
  have hother (hrequest : ∀ data request, event ≠ .request data request)
      (hend : ∀ requestHash, event ≠ .end requestHash) : Kept ⟨node, event, out, node'⟩ := by
    obtain ⟨hbuffer, hmap⟩ := requests_eq_of_step hrequest hend taken
    exact (kept_iff_agrees hend).2 (hagrees.congr hbuffer hmap)
  cases event with
  | request data request =>
    obtain ⟨received, hreceive, heq⟩ := Option.map_eq_some_iff.1 taken
    obtain ⟨rfl, -⟩ := Prod.mk.inj heq
    rw [kept_iff_agrees (by simp)]
    exact agrees_receiveRequest_iff hagrees hreceive
  | «end» requestHash =>
    obtain ⟨ended, hend, heq⟩ := Option.map_eq_some_iff.1 taken
    obtain ⟨rfl, -⟩ := Prod.mk.inj heq
    obtain ⟨removed, hremove, hbuffer, hmap⟩ := requests_eq_of_endRequest hend
    refine Iff.trans ?_ (agrees_removeRequest_iff hagrees hremove)
    constructor
    · intro h
      have hremoved := h.removes requestHash rfl
      exact ⟨h.agrees.congr hbuffer hmap, hbuffer.trans hremoved.buffer, hmap.trans hremoved.map⟩
    · rintro ⟨hagrees', hremoved⟩
      have hended := hagrees'.congr hbuffer.symm hmap.symm
      refine ⟨hended, hended.isSome_firstRequest, fun other heq ↦ ?_⟩
      obtain rfl := Event.end.inj heq
      exact ⟨hbuffer.symm.trans hremoved.buffer, hmap.symm.trans hremoved.map⟩
  | consensusNotify => exact iff_of_true (hother (by simp) (by simp)) trivial
  | proposalStateCheck => exact iff_of_true (hother (by simp) (by simp)) trivial
  | viewTimeout => exact iff_of_true (hother (by simp) (by simp)) trivial
  | newviewQuorum => exact iff_of_true (hother (by simp) (by simp)) trivial

/-- In every run of the node, the list of requests and the map agree after every turn, the first request is
found, and every end removes exactly the request it names, if and only if every turn is orderly. -/
theorem requests_agree_iff_orderly {run : List (Transition Node Event (Option Bytes))}
    (h : IsRun (step X) Node.new run node) : (∀ t ∈ run, Kept t) ↔ ∀ t ∈ run, Orderly X t := by
  constructor
  · intro hkept t ht
    have hagrees := IsRun.invariant_pre_of_forall Agrees Agrees.new
      (fun t _ (hkept : Kept t) _ ↦ hkept.agrees) h hkept
    exact (kept_iff_orderly (hagrees t ht) (h.taken t ht)).1 (hkept t ht)
  · intro horderly t ht
    have hagrees := IsRun.invariant_pre_of_forall Agrees Agrees.new
      (fun t hpre (horderly : Orderly X t) taken ↦ ((kept_iff_orderly hpre taken).2 horderly).agrees) h horderly
    exact (kept_iff_orderly (hagrees t ht) (h.taken t ht)).2 (horderly t ht)

/-- Two requests that are gossiped once and end in the order of their arrival. -/
def orderlyRequests : List Event :=
  [.request [1] ⟨"a"⟩, .request [2] ⟨"b"⟩, .newviewQuorum, .proposalStateCheck, .consensusNotify, .end "a", .end "b"]

theorem requests_agree_of_orderlyRequests :
    (transitions (step .transparent) Node.new orderlyRequests).length = 7 ∧
      ∀ t ∈ transitions (step .transparent) Node.new orderlyRequests, Kept t :=
  ⟨by decide +kernel, (requests_agree_iff_orderly (X := .transparent) (IsRun.of_isSome (by decide +kernel))).2
    (by decide +kernel)⟩

/-- One request that is gossiped twice, and its end. -/
def repeatedRequest : List Event := [.request [1] ⟨"a"⟩, .request [1] ⟨"a"⟩, .end "a"]

/-- After a request that was gossiped twice has ended, the list still holds its hash and the map does not,
so that a node that becomes the leader panics. -/
theorem repeatedRequest_disagrees :
    ¬ (∀ t ∈ transitions (step .transparent) Node.new repeatedRequest, Kept t) ∧
      exec (step .transparent) Node.new
        (repeatedRequest ++ [.newviewQuorum, .proposalStateCheck, .consensusNotify]) = none := by
  constructor
  · intro hkept
    have hfound : ∀ t ∈ transitions (step .transparent) Node.new repeatedRequest,
        (firstRequest t.post).isSome = true := fun t ht ↦ (hkept t ht).unwraps
    exact absurd hfound (by decide +kernel)
  · exact Option.isNone_iff_eq_none.1 (by decide +kernel)

end BFTDiagnosis.HotstuffNode
