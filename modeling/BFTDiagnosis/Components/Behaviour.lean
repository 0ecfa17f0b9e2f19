import BFTDiagnosis.Lib.Word

/-!
# The interface between a protocol and its actuator

A protocol answers every call of the actuator with a `PhaseState`, which carries the queue of
messages to send. The payload of a message stays abstract here: each protocol says what it hands
to the serializer.
-/

namespace BFTDiagnosis.Components

/-- `components::message::Request`. -/
structure Request where
  cmd : String
deriving DecidableEq, Repr

/-- A libp2p peer id, as the bytes it is built from. -/
abbrev PeerId := Bytes

instance PeerId.lawfulBEq : LawfulBEq PeerId :=
  inferInstance

/-- `components::behaviour::SendType`. -/
inductive SendType (π : Type) where
  | broadcast (msg : π)
  | unicast (peer : PeerId) (msg : π)
  | ambiguousBroadcast (msg ambiguous : π) (count : UInt16)

/-- What the network carries for one entry of a queue. -/
def SendType.payloads {π : Type} : SendType π → List π
  | broadcast msg => [msg]
  | unicast _ msg => [msg]
  | ambiguousBroadcast msg ambiguous _ => [msg, ambiguous]

/-- What the network carries to one peer for an entry of a queue. -/
def SendType.payloadsFor {π : Type} (receiver : PeerId) : SendType π → List π
  | broadcast msg => [msg]
  | unicast peer msg => if peer = receiver then [msg] else []
  | ambiguousBroadcast msg ambiguous _ => [msg, ambiguous]

theorem SendType.mem_payloads_of_mem_payloadsFor {π : Type} {receiver : PeerId} {send : SendType π}
    {msg : π} (h : msg ∈ send.payloadsFor receiver) : msg ∈ send.payloads := by
  cases send with
  | broadcast msg' => exact h
  | unicast peer msg' =>
    rw [payloadsFor] at h
    split at h
    case isTrue => exact h
    case isFalse => cases h
  | ambiguousBroadcast msg' ambiguous count => exact h

/-- `components::behaviour::PhaseState`. -/
inductive PhaseState (π : Type) where
  | over (request : Option Request)
  | overMessage (request : Option Request) (queue : List (SendType π))
  | continueExecute (queue : List (SendType π))
  | complete (request : Request) (queue : List (SendType π))

namespace PhaseState

variable {π : Type}

/-- The messages an answer asks the actuator to send. -/
def queue : PhaseState π → List (SendType π)
  | .over _ => []
  | .overMessage _ queue => queue
  | .continueExecute queue => queue
  | .complete _ queue => queue

@[simp] theorem queue_continueExecute (queue : List (SendType π)) :
    (continueExecute queue).queue = queue := rfl

@[simp] theorem queue_complete (request : Request) (queue : List (SendType π)) :
    (complete request queue).queue = queue := rfl

@[simp] theorem queue_over (request : Option Request) : (PhaseState.over request : PhaseState π).queue = [] :=
  rfl

@[simp] theorem queue_overMessage (request : Option Request) (queue : List (SendType π)) :
    (overMessage request queue).queue = queue := rfl

end PhaseState

end BFTDiagnosis.Components
