import BFTDiagnosis.Components.Behaviour

/-!
# The calls on a running protocol

The methods of the trait `ProtocolBehaviour` that an actuator calls while a protocol runs, and what they
return. Each protocol says what a decoded message and the arguments of its initial start are; what the
source leaves to hash maps and random numbers is part of them.
-/

namespace BFTDiagnosis.Components

inductive Call (μ ι : Type) where
  | consensusProtocolMessageHandler (msg : μ)
  | viewTimeoutHandler
  | checkTakenRequest (request : Bytes)
  | isLeader (peerId : Bytes)
  | extraInitialStart (start : ι)

/-- What a call returns. The handlers that the trait itself provides broadcast the empty message. -/
inductive Response (π : Type) where
  | phaseState (answer : PhaseState π)
  | emptyBroadcast
  | decision (value : Bool)

end BFTDiagnosis.Components
