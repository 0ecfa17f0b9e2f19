import BFTDiagnosis.Components.Message

/-!
# A consensus node

What `ProtocolActuator` of `components/src/protocol_actuator.rs` does with a message of the controller. While no
protocol runs it sets its mode and answers, and `ProtocolStart` starts the protocol; while one runs all that it
takes from the controller is `Reset`. The requests and the messages of the protocol are not modelled here.
-/

namespace BFTDiagnosis.Components

/-- `ProtocolActuator` of a node that knows controller and analyzer. -/
structure ProtocolActuator where
  mode : ConsensusNodeMode
  /-- The node is in the loop of `message_handler_start`. -/
  running : Bool
  /-- `protocol_phases` of the protocol, in the order of the map. -/
  protocolPhases : List (UInt8 × Bytes)

namespace ProtocolActuator

def setMode (node : ProtocolActuator) (mode : ConsensusNodeMode) : ProtocolActuator := { node with mode := mode }

/-- `no_running_controller_message_handler`, with the answers to the controller. -/
def noRunningControllerMessageHandler (node : ProtocolActuator) :
    InteractiveMessage → ProtocolActuator × List InteractiveMessage
  | .configureConsensusNode state => (node.setMode (.honest state), [.consensusNodeModeSuccess (.honest state)])
  | .maliciousTestPreparation => (node, node.protocolPhases.map fun entry ↦ .consensusPhase entry.1 entry.2)
  | .protocolStart => ({ node with running := true }, [])
  | .joinConsensus => (node.setMode (.honest .other), [.joinConsensusSuccess])
  | .consensusNodeMode mode =>
    -- a node that is in the mode already does not answer
    if node.mode ≠ mode then (node.setMode mode, [.consensusNodeModeSuccess mode]) else (node, [])
  | _ => (node, [])

/-- `running_controller_message_handler`. `Reset` ends the loop, and the node answers with its mode. -/
def runningControllerMessageHandler (node : ProtocolActuator) :
    InteractiveMessage → ProtocolActuator × List InteractiveMessage
  | .reset => ({ node with running := false }, [.resetSuccess node.mode])
  | _ => (node, [])

def controllerMessageHandler (node : ProtocolActuator) (message : InteractiveMessage) :
    ProtocolActuator × List InteractiveMessage :=
  if node.running then node.runningControllerMessageHandler message
  else node.noRunningControllerMessageHandler message

/-- An idle node in another mode takes the mode and answers. -/
theorem controllerMessageHandler_of_ne {node : ProtocolActuator} {mode : ConsensusNodeMode}
    (hidle : node.running = false) (hmode : node.mode ≠ mode) :
    node.controllerMessageHandler (.consensusNodeMode mode) =
      (node.setMode mode, [.consensusNodeModeSuccess mode]) := by
  rw [controllerMessageHandler, hidle, if_neg Bool.false_ne_true, noRunningControllerMessageHandler, if_pos hmode]

/-- A node that is running or in the mode already does nothing. -/
theorem controllerMessageHandler_of_eq {node : ProtocolActuator} {mode : ConsensusNodeMode}
    (h : ¬ (node.running = false ∧ node.mode ≠ mode)) :
    node.controllerMessageHandler (.consensusNodeMode mode) = (node, []) := by
  unfold controllerMessageHandler
  split
  · rfl
  · rename_i hrunning
    rw [noRunningControllerMessageHandler, if_neg fun hmode ↦ h ⟨Bool.eq_false_of_not_eq_true hrunning, hmode⟩]

theorem controllerMessageHandler_protocolStart (node : ProtocolActuator) :
    node.controllerMessageHandler .protocolStart = ({ node with running := true }, []) := by
  unfold controllerMessageHandler
  split
  · rename_i hrunning
    obtain ⟨mode, running, phases⟩ := node
    obtain rfl : running = true := hrunning
    rfl
  · rfl

end ProtocolActuator

end BFTDiagnosis.Components
