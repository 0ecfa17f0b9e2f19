import BFTDiagnosis.Lib.Run
import BFTDiagnosis.Network.Unicast

/-!
# Unicast messages that come again

The calls that the swarm makes to a `Unicast`, among them the messages that come in and the polls of its queue.
The answer of the filter for messages that have been received is not looked at, so the queue gets every message
as often as it comes in.

The filter is a parameter; `CuckooFilter.Exact` is what it answers without false positives and evictions.
-/

namespace BFTDiagnosis.Network

open Components

inductive CuckooError where
  | notEnoughSpace
deriving DecidableEq

/-- The filter of the `cuckoofilter` crate, for messages. -/
structure CuckooFilter (φ : Type) where
  /-- `CuckooFilter::new`. -/
  new : φ
  /-- `CuckooFilter::test_and_add`: whether the item is new, and the filter with it. -/
  testAndAdd : φ → UnicastMessage → Except CuckooError Bool × φ

/-- What comes from a connection: a message, or the confirmation of one that was sent. -/
inductive InnerMessage where
  | rx (message : UnicastMessage)
  | sent
deriving DecidableEq

/-- A `Unicast` with its filter. -/
structure FilteredUnicast (φ : Type) extends Unicast where
  received : φ

/-- The calls of a node and of the swarm, with the random choices as arguments. -/
inductive UnicastCall where
  | addNodeToPartialView (peerId : PeerId)
  | sendMessage (recvPeerId : PeerId) (data : Bytes) (sequenceNumber : Vector UInt8 20)
  | randSendMessage (num : ℕ) (data : Bytes) (sequenceNumber : Vector UInt8 20)
  | injectConnectionEstablished (id : PeerId) (otherEstablished : ℕ)
  | injectConnectionClosed (id : PeerId) (remainingEstablished : ℕ)
  | injectEvent (event : InnerMessage)
  | poll

namespace Unicast

/-- `inject_connection_closed` for the last connection to a peer. -/
def injectConnectionClosed (unicast : Unicast) (id : PeerId) : Unicast :=
  let unicast := { unicast with connectedPeers := unicast.connectedPeers.erase id }
  if id ∈ unicast.canSendPeers then { unicast with events := unicast.events ++ [.dial id] } else unicast

end Unicast

namespace FilteredUnicast

variable {φ : Type} (F : CuckooFilter φ)

def new (localPeerId : PeerId) : FilteredUnicast φ :=
  { Unicast.new localPeerId with received := F.new }

def injectEvent (unicast : FilteredUnicast φ) (event : InnerMessage) : FilteredUnicast φ :=
  match event with
  | .sent => unicast
  | .rx message =>
    let (added, received) := F.testAndAdd unicast.received message
    let unicast := match added with
      | .ok _ => { unicast with received := received }
      -- only printed
      | .error .notEnoughSpace => { unicast with received := received }
    { unicast with events := unicast.events ++ [.generateEvent message] }

/-- A call with the action that a poll takes from the queue; a random peer is not found among none. -/
def step (unicast : FilteredUnicast φ) (call : UnicastCall) : Option (FilteredUnicast φ × Option Action) :=
  match call with
  | .addNodeToPartialView peerId =>
    some ({ unicast with toUnicast := unicast.toUnicast.addNodeToPartialView peerId }, none)
  | .sendMessage recvPeerId data sequenceNumber =>
    some ({ unicast with toUnicast := unicast.toUnicast.sendMessage recvPeerId data sequenceNumber }, none)
  | .randSendMessage num data sequenceNumber => do
    let recvPeerId ← unicast.canSendPeers[num]?
    return ({ unicast with toUnicast := unicast.toUnicast.sendMessage recvPeerId data sequenceNumber }, none)
  | .injectConnectionEstablished id otherEstablished =>
    if 0 < otherEstablished then some (unicast, none)
    else some ({ unicast with toUnicast := unicast.toUnicast.injectConnectionEstablished id }, none)
  | .injectConnectionClosed id remainingEstablished =>
    if 0 < remainingEstablished then some (unicast, none)
    else some ({ unicast with toUnicast := unicast.toUnicast.injectConnectionClosed id }, none)
  | .injectEvent event => some (unicast.injectEvent F event, none)
  | .poll =>
    match unicast.events with
    | [] => some (unicast, none)
    | action :: rest => some ({ unicast with events := rest }, some action)

end FilteredUnicast

abbrev UnicastRun (φ : Type) := List (Transition (FilteredUnicast φ) UnicastCall (Option Action))

/-- The message that a call brings in. -/
def UnicastCall.message : UnicastCall → Option UnicastMessage
  | .injectEvent (.rx message) => some message
  | _ => none

/-- The message that the swarm is told about. -/
def Action.message : Action → Option UnicastMessage
  | .generateEvent message => some message
  | _ => none

variable {φ : Type} {F : CuckooFilter φ}

/-- The messages that have come in. -/
def incoming (run : UnicastRun φ) : List UnicastMessage := run.filterMap (·.event.message)

/-- The messages that have been queued for the swarm, those that it has polled first. -/
def queued (run : UnicastRun φ) (unicast : FilteredUnicast φ) : List UnicastMessage :=
  (run.filterMap (·.out) ++ unicast.events).filterMap Action.message

/-- An action that tells the swarm of no message. -/
theorem messages_concat (events : List Action) {action : Action} (h : action.message = none) :
    (events ++ [action]).filterMap Action.message = events.filterMap Action.message := by
  rw [filterMap_concat, h, Option.toList_none, List.append_nil]

theorem messages_sendMessage (unicast : Unicast) (recvPeerId : PeerId) (data : Bytes)
    (sequenceNumber : Vector UInt8 20) :
    (unicast.sendMessage recvPeerId data sequenceNumber).events.filterMap Action.message =
      unicast.events.filterMap Action.message := by
  rw [Unicast.sendMessage]
  split
  case isTrue => exact messages_concat unicast.events rfl
  case isFalse => rfl

theorem messages_injectConnectionClosed (unicast : Unicast) (id : PeerId) :
    (unicast.injectConnectionClosed id).events.filterMap Action.message =
      unicast.events.filterMap Action.message := by
  simp only [Unicast.injectConnectionClosed]
  split
  case isTrue => exact messages_concat unicast.events rfl
  case isFalse => rfl

/-- Whatever the filter answers, the message is queued. -/
theorem FilteredUnicast.events_injectEvent (unicast : FilteredUnicast φ) (message : UnicastMessage) :
    (unicast.injectEvent F (.rx message)).events = unicast.events ++ [.generateEvent message] := by
  simp only [injectEvent]
  split <;> rfl

/-- The queue grows by the message that comes in, and loses the action that is polled. -/
theorem FilteredUnicast.messages_of_step {unicast unicast' : FilteredUnicast φ} {call : UnicastCall}
    {out : Option Action} (h : unicast.step F call = some (unicast', out)) :
    (out.toList ++ unicast'.events).filterMap Action.message =
      unicast.events.filterMap Action.message ++ call.message.toList := by
  cases call with
  | addNodeToPartialView peerId =>
    obtain ⟨rfl, rfl⟩ := Prod.mk.inj (Option.some.inj h)
    exact (messages_concat unicast.events rfl).trans (List.append_nil _).symm
  | sendMessage recvPeerId data sequenceNumber =>
    obtain ⟨rfl, rfl⟩ := Prod.mk.inj (Option.some.inj h)
    exact (messages_sendMessage unicast.toUnicast recvPeerId data sequenceNumber).trans (List.append_nil _).symm
  | randSendMessage num data sequenceNumber =>
    obtain ⟨recvPeerId, -, hsent⟩ := Option.bind_eq_some_iff.1 h
    obtain ⟨rfl, rfl⟩ := Prod.mk.inj (Option.some.inj hsent)
    exact (messages_sendMessage unicast.toUnicast recvPeerId data sequenceNumber).trans (List.append_nil _).symm
  | injectConnectionEstablished id otherEstablished =>
    simp only [step] at h
    split at h
    all_goals
      obtain ⟨rfl, rfl⟩ := Prod.mk.inj (Option.some.inj h)
      exact (List.append_nil _).symm
  | injectConnectionClosed id remainingEstablished =>
    simp only [step] at h
    split at h
    case isTrue =>
      obtain ⟨rfl, rfl⟩ := Prod.mk.inj (Option.some.inj h)
      exact (List.append_nil _).symm
    case isFalse =>
      obtain ⟨rfl, rfl⟩ := Prod.mk.inj (Option.some.inj h)
      exact (messages_injectConnectionClosed unicast.toUnicast id).trans (List.append_nil _).symm
  | injectEvent event =>
    obtain ⟨rfl, rfl⟩ := Prod.mk.inj (Option.some.inj h)
    cases event with
    | sent => exact (List.append_nil _).symm
    | rx message =>
      rw [Option.toList_none, List.nil_append, events_injectEvent, List.filterMap_append]
      rfl
  | poll =>
    simp only [step] at h
    split at h
    case h_1 hnone =>
      obtain ⟨rfl, rfl⟩ := Prod.mk.inj (Option.some.inj h)
      exact (List.append_nil _).symm
    case h_2 action rest hfirst =>
      obtain ⟨rfl, rfl⟩ := Prod.mk.inj (Option.some.inj h)
      rw [hfirst]
      exact (List.append_nil _).symm

/-- Every message is queued as often as it comes in. -/
theorem queued_eq_incoming {me : PeerId} {run : UnicastRun φ} {unicast : FilteredUnicast φ}
    (h : IsRun (FilteredUnicast.step F) (FilteredUnicast.new F me) run unicast) :
    queued run unicast = incoming run := by
  induction h with
  | nil => rfl
  | @snoc run s s' call out previous taken ih =>
    have hqueue := FilteredUnicast.messages_of_step taken
    have hpolled := filterMap_concat (·.out) run ⟨s, call, out, s'⟩
    have hincoming := filterMap_concat (·.event.message) run ⟨s, call, out, s'⟩
    rw [queued, hpolled, List.append_assoc, List.filterMap_append, hqueue, ← List.append_assoc,
      ← List.filterMap_append, incoming, hincoming]
    exact congrArg (· ++ call.message.toList) ih

/-- No message is queued twice if and only if none comes in twice. -/
theorem queuedOnce_iff_nodup (me : PeerId) {run : UnicastRun φ} {unicast : FilteredUnicast φ}
    (h : IsRun (FilteredUnicast.step F) (FilteredUnicast.new F me) run unicast) :
    (∀ message, (queued run unicast).count message ≤ 1) ↔ (incoming run).Nodup := by
  rw [queued_eq_incoming h, List.nodup_iff_count_le_one]

/-! ## A filter that is exact -/

/-- The filter after items have been added. -/
def CuckooFilter.added (F : CuckooFilter φ) (items : List UnicastMessage) : φ :=
  items.foldl (fun filter item ↦ (F.testAndAdd filter item).2) F.new

/-- An item is new exactly when it has not been added. -/
def CuckooFilter.Exact (F : CuckooFilter φ) : Prop :=
  ∀ items item, (F.testAndAdd (F.added items) item).1 = .ok (decide (item ∉ items))

/-- The filter that keeps the items. -/
def CuckooFilter.keeping : CuckooFilter (Finset UnicastMessage) where
  new := ∅
  testAndAdd filter item := (.ok (decide (item ∉ filter)), insert item filter)

theorem CuckooFilter.exact_keeping : CuckooFilter.keeping.Exact := by
  intro items item
  have hadded : CuckooFilter.keeping.added items = items.toFinset := by
    induction items using List.reverseRecOn with
    | nil => rfl
    | append_singleton items last ih =>
      rw [added, List.foldl_append, List.toFinset_append, Finset.union_comm]
      exact congrArg (insert last) ih
  rw [hadded]
  simp [keeping]

def greeting : UnicastMessage := { source := [2], data := [10], sequenceNumber := List.replicate 20 7 }

def answer : UnicastMessage := { source := [3], data := [10], sequenceNumber := List.replicate 20 7 }

/-- The run in which the messages come in, each polled before the next one. -/
def polledRun (messages : List UnicastMessage) : UnicastRun (Finset UnicastMessage) :=
  transitions (FilteredUnicast.step .keeping) (FilteredUnicast.new .keeping [1])
    (messages.flatMap fun message ↦ [.injectEvent (.rx message), .poll])

theorem queuedOnce_of_polledRun :
    (∀ message, (queued (polledRun [greeting, answer])
      (final (FilteredUnicast.step .keeping) (FilteredUnicast.new .keeping [1])
        ([greeting, answer].flatMap fun message ↦ [.injectEvent (.rx message), .poll]))).count message ≤ 1) ↔
      (incoming (polledRun [greeting, answer])).Nodup :=
  queuedOnce_iff_nodup [1] (IsRun.of_isSome (by decide +kernel))

/-- With an exact filter, a message that comes in twice is queued twice. -/
theorem queued_twice_of_exact : CuckooFilter.keeping.Exact ∧
    ¬ ∀ run unicast, IsRun (FilteredUnicast.step .keeping) (FilteredUnicast.new .keeping [1]) run unicast →
      ∀ message, (queued run unicast).count message ≤ 1 := by
  refine ⟨CuckooFilter.exact_keeping, fun h ↦ ?_⟩
  have honce := h (polledRun [greeting, greeting]) _ (IsRun.of_isSome (by decide +kernel)) greeting
  exact absurd honce (by decide +kernel)

end BFTDiagnosis.Network
