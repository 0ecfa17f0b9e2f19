import Mathlib.Data.List.Forall2
import BFTDiagnosis.Components.Message
import BFTDiagnosis.Lib.HashMap
import BFTDiagnosis.Lib.Json
import BFTDiagnosis.Utils.Platform

/-!
# Fault injection

`check_protocol_phase_state` of `components/src/protocol_actuator.rs` sends the messages that the protocol asks
for, in the order of the queue. Once the malicious flag is set, a broadcast goes through `malicious_trigger`, and
so does a unicast of the node that was started as leader. The three loops over a queue are one function here.
-/

namespace BFTDiagnosis.Components

open Utils

/-- What an actuator asks its protocol for while it sends; `none` is a panic. -/
structure SendingProtocol where
  getCurrentPhase : Bytes → Option UInt8
  phaseMap : HashMap UInt8 String
  isLeader : Bytes → Bool
  currentRequest : Request

/-- The part of `ProtocolActuator` that sends the messages of its protocol. -/
structure Sender where
  protocol : SendingProtocol
  peerId : PeerId
  analyzerId : Option PeerId
  mode : ConsensusNodeMode
  maliciousFlag : Bool
  isLeader : Bool
  /-- `other_consensus_node`, in the order in which the set is visited. -/
  otherConsensusNode : List PeerId
  requestBuffer : HashMap String Request
  consensusState : Bool

/-- What the network is handed: a gossiped message, a message for one node, or a report for the analyzer. -/
inductive Sent where
  | publish (msg : Bytes)
  | unicast (receiver : PeerId) (msg : Bytes)
  | consensusEndData (receiver : PeerId) (data : ConsensusEndData)
deriving DecidableEq

/-- The message of an entry, without its ambiguous version. -/
def SendType.msg {π : Type} : SendType π → π
  | broadcast msg => msg
  | unicast _ msg => msg
  | ambiguousBroadcast msg _ _ => msg

def SendType.isAmbiguous {π : Type} : SendType π → Bool
  | ambiguousBroadcast _ _ _ => true
  | _ => false

/-- The entry with another message. -/
def SendType.withMsg {π : Type} (msg : π) : SendType π → SendType π
  | broadcast _ => broadcast msg
  | unicast receiver _ => unicast receiver msg
  | ambiguousBroadcast msg' ambiguous count => ambiguousBroadcast msg' ambiguous count

/-- The phase that a fault is aimed at. -/
def MaliciousMode.phase : MaliciousMode → UInt8
  | leaderFeignDeath _ p => p
  | leaderSendAmbiguousMessage _ p _ _ => p
  | leaderDelaySendMessage _ p => p
  | leaderSendDuplicateMessages _ p => p
  | replicaNodeConspireForgeMessages _ p _ _ => p

namespace Sender

variable (text : Json.Text) (X : Platform)

/-! ## Forged messages -/

/-- The value that stands in for a value of a forged message. A number that is no `u64`, before or after the
addition, panics. -/
def errorValue : Json → Option Json
  | .null => some .null
  | .bool value => some (.bool !value)
  | .number n => if n + 99 < 2 ^ 64 then some (.number (n + 99)) else none
  | .string _ => some (.string "ErrorString")
  | .array _ => some (.array (["E", "R", "R", "O", "R"].map Json.string))
  | .object fields => some (.object fields)

def generateAErrorMessage (a : Sender) (msg : Bytes) (field : List String) (p : UInt8) : Option Bytes := do
  let parsed := (← text.parse msg).sorted
  let dataType ← a.protocol.phaseMap.lookup p
  let name ← field.head?
  let newValue ← errorValue (((parsed.get "msg_type").get dataType).get name)
  let parsed ← parsed.modify "msg_type" fun msgType ↦
    msgType.modify dataType fun data ↦ data.modify name fun _ ↦ some newValue
  return text.print parsed

/-! ## Sending -/

/-- The nodes that receive a message and those that receive its ambiguous version. -/
def divideConsensusNodes (a : Sender) (ambiguousCount : UInt16) : List PeerId × List PeerId :=
  if ambiguousCount.toNat ≤ a.otherConsensusNode.length then
    (a.otherConsensusNode.drop ambiguousCount.toNat, a.otherConsensusNode.take ambiguousCount.toNat)
  else ([], a.otherConsensusNode)

/-- `send_message`, which drops an empty message. -/
def sendMessage (a : Sender) : SendType Bytes → List Sent
  | .broadcast msg => if msg.length ≠ 0 then [.publish msg] else []
  | .unicast receiver msg => if msg.length ≠ 0 then [.unicast receiver msg] else []
  | .ambiguousBroadcast msg amsg amsgCount =>
    let (nodes, ambiguousNodes) := a.divideConsensusNodes amsgCount
    nodes.map (.unicast · msg) ++ ambiguousNodes.map (.unicast · amsg)

/-- The protocol of the node takes it for the leader. -/
def leads (a : Sender) : Bool := a.protocol.isLeader a.peerId

def maliciousTrigger (a : Sender) (phase : UInt8) (sendType : SendType Bytes) : Option (List Sent) :=
  match a.mode with
  | .dishonest (.leaderFeignDeath _ p) => if p = phase then some [] else some (a.sendMessage sendType)
  | .dishonest (.leaderSendDuplicateMessages _ p) =>
    if p = phase ∧ a.leads then some (a.sendMessage sendType ++ a.sendMessage sendType)
    else some (a.sendMessage sendType)
  | .dishonest (.leaderSendAmbiguousMessage _ p field amsgCount) =>
    if p = phase ∧ a.leads then
      (a.generateAErrorMessage text sendType.msg field p).map fun amsg ↦
        a.sendMessage (.ambiguousBroadcast sendType.msg amsg amsgCount)
    else some (a.sendMessage sendType)
  -- the delay is no longer there: the branch of the phase sends like the last one
  | .dishonest (.leaderDelaySendMessage _ _) => some (a.sendMessage sendType)
  | .dishonest (.replicaNodeConspireForgeMessages _ p field request) =>
    if p = phase ∧ request = a.protocol.currentRequest then
      match sendType with
      | .ambiguousBroadcast _ _ _ => some (a.sendMessage sendType)
      | _ => (a.generateAErrorMessage text sendType.msg field p).map fun amsg ↦
          a.sendMessage (sendType.withMsg amsg)
    else some (a.sendMessage sendType)
  | _ => some (a.sendMessage sendType)

/-- One turn of the loop over a queue. -/
def sendEntry (a : Sender) : SendType Bytes → Option (List Sent)
  | .broadcast msg => do
    let phase ← a.protocol.getCurrentPhase msg
    if a.maliciousFlag then a.maliciousTrigger text phase (.broadcast msg)
    else return a.sendMessage (.broadcast msg)
  | .unicast receiver msg => do
    let phase ← a.protocol.getCurrentPhase msg
    if a.maliciousFlag && a.isLeader then a.maliciousTrigger text phase (.unicast receiver msg)
    else return a.sendMessage (.unicast receiver msg)
  | .ambiguousBroadcast _ _ _ => some []

def sendQueue (a : Sender) : List (SendType Bytes) → Option (List Sent)
  | [] => some []
  | entry :: queue => do
    let sent ← a.sendEntry text entry
    let more ← a.sendQueue queue
    return sent ++ more

/-- The end of a request is reported to the analyzer, and the request leaves the buffer. -/
def complete (a : Sender) (now : UInt64) (request : Request) : Option (Sender × List Sent) :=
  a.analyzerId.map fun analyzerId ↦
    ({ a with requestBuffer := a.requestBuffer.erase (X.getHashStr (X.requestBytes request)) },
      [.consensusEndData analyzerId { request := request, completedTime := now }])

/-- A leader may take the next request. -/
def release (a : Sender) : Sender := { a with consensusState := a.consensusState || a.leads }

def checkProtocolPhaseState (a : Sender) (now : UInt64) : PhaseState Bytes → Option (Sender × List Sent)
  | .over none => some (a.release, [])
  | .over (some request) => (a.complete X now request).map fun (a, report) ↦ (a.release, report)
  | .continueExecute queue => (a.sendQueue text queue).map fun sent ↦ (a, sent)
  | .complete request queue => do
    let sent ← a.sendQueue text queue
    let (a, report) ← a.complete X now request
    return (a, sent ++ report)
  | .overMessage _ queue => (a.sendQueue text queue).map fun sent ↦ (a.release, sent)

/-! ## What happens to an entry -/

/-- The entries that the loop hands to `malicious_trigger`. -/
def exposed (a : Sender) : SendType Bytes → Bool
  | .broadcast _ => a.maliciousFlag
  | .unicast _ _ => a.maliciousFlag && a.isLeader
  | .ambiguousBroadcast _ _ _ => false

/-- The entries that a fault is aimed at: exposed, and of its phase. -/
def Target (a : Sender) (mode : MaliciousMode) (entry : SendType Bytes) : Prop :=
  a.exposed entry = true ∧ a.protocol.getCurrentPhase entry.msg = some mode.phase

/-- What the messages of one entry are under a fault, except under a feigned death of a node that does not
lead. -/
structure Injected (a : Sender) (mode : MaliciousMode) (entry : SendType Bytes) (sent : List Sent) : Prop where
  ambiguousEntry : entry.isAmbiguous = true → sent = []
  other : entry.isAmbiguous = false → ¬ a.Target mode entry → sent = a.sendMessage entry
  feignDeath : ∀ interval p, mode = .leaderFeignDeath interval p → a.Target mode entry →
    a.leads = true → sent = []
  duplicate : ∀ interval p, mode = .leaderSendDuplicateMessages interval p → a.Target mode entry →
    sent = if a.leads then a.sendMessage entry ++ a.sendMessage entry else a.sendMessage entry
  ambiguous : ∀ interval p field count, mode = .leaderSendAmbiguousMessage interval p field count →
    a.Target mode entry →
      if a.leads then ∃ amsg, a.generateAErrorMessage text entry.msg field p = some amsg ∧
        sent = a.sendMessage (.ambiguousBroadcast entry.msg amsg count)
      else sent = a.sendMessage entry
  delay : ∀ interval p, mode = .leaderDelaySendMessage interval p → a.Target mode entry →
    sent = a.sendMessage entry
  conspire : ∀ interval p field request, mode = .replicaNodeConspireForgeMessages interval p field request →
    a.Target mode entry →
      if request = a.protocol.currentRequest then ∃ amsg,
        a.generateAErrorMessage text entry.msg field p = some amsg ∧ sent = a.sendMessage (entry.withMsg amsg)
      else sent = a.sendMessage entry

/-- An entry does not panic: its phase is known, and it can be forged if it has to be. -/
structure Sendable (a : Sender) (mode : MaliciousMode) (entry : SendType Bytes) : Prop where
  phase : entry.isAmbiguous = false → (a.protocol.getCurrentPhase entry.msg).isSome
  ambiguous : ∀ interval p field count, mode = .leaderSendAmbiguousMessage interval p field count →
    a.Target mode entry → a.leads = true → (a.generateAErrorMessage text entry.msg field p).isSome
  conspire : ∀ interval p field request, mode = .replicaNodeConspireForgeMessages interval p field request →
    a.Target mode entry → request = a.protocol.currentRequest →
      (a.generateAErrorMessage text entry.msg field p).isSome

/-- Both kinds of messages go through the same steps once it is known which of them are exposed. -/
theorem sendEntry_eq (a : Sender) {entry : SendType Bytes} (hentry : entry.isAmbiguous = false) :
    a.sendEntry text entry = (a.protocol.getCurrentPhase entry.msg).bind fun phase ↦
      if a.exposed entry then a.maliciousTrigger text phase entry else some (a.sendMessage entry) := by
  cases entry with
  | broadcast msg => rfl
  | unicast receiver msg => rfl
  | ambiguousBroadcast msg amsg count => cases hentry

section Faults

variable {text X} {a : Sender} {mode : MaliciousMode} {phase : UInt8} {entry : SendType Bytes} {sent : List Sent}

/-- The fault is only looked at for messages of its phase. -/
theorem maliciousTrigger_of_ne (hmode : a.mode = .dishonest mode) (hphase : phase ≠ mode.phase) :
    a.maliciousTrigger text phase entry = some (a.sendMessage entry) := by
  unfold maliciousTrigger
  cases mode with
  | leaderFeignDeath interval p => simp only [hmode, if_neg fun h : p = phase ↦ hphase h.symm]
  | leaderSendAmbiguousMessage interval p field count =>
    simp only [hmode, if_neg fun h : p = phase ∧ _ ↦ hphase h.1.symm]
  | leaderDelaySendMessage interval p => simp only [hmode]
  | leaderSendDuplicateMessages interval p =>
    simp only [hmode, if_neg fun h : p = phase ∧ _ ↦ hphase h.1.symm]
  | replicaNodeConspireForgeMessages interval p field request =>
    simp only [hmode, if_neg fun h : p = phase ∧ _ ↦ hphase h.1.symm]

/-- An entry that no fault is aimed at is sent as it is, if its phase is known. -/
theorem sendEntry_of_not_target (hmode : a.mode = .dishonest mode) (hentry : entry.isAmbiguous = false)
    (htarget : ¬ a.Target mode entry) (hphase : a.protocol.getCurrentPhase entry.msg = some phase) :
    a.sendEntry text entry = some (a.sendMessage entry) := by
  rw [sendEntry_eq text a hentry, hphase, Option.bind_some]
  split
  · rename_i hexposed
    refine maliciousTrigger_of_ne hmode ?_
    rintro rfl
    exact htarget ⟨hexposed, hphase⟩
  · rfl

theorem isAmbiguous_of_target (htarget : a.Target mode entry) : entry.isAmbiguous = false := by
  cases entry with
  | broadcast msg => rfl
  | unicast receiver msg => rfl
  | ambiguousBroadcast msg amsg count => exact absurd htarget.1 Bool.false_ne_true

theorem sendEntry_of_target (htarget : a.Target mode entry) :
    a.sendEntry text entry = a.maliciousTrigger text mode.phase entry := by
  rw [sendEntry_eq text a (isAmbiguous_of_target htarget), htarget.2, Option.bind_some, if_pos htarget.1]

/-! Every fault at the entries that it is aimed at. -/

theorem sendEntry_feignDeath {interval : UInt64} {p : UInt8}
    (hmode : a.mode = .dishonest (.leaderFeignDeath interval p))
    (htarget : a.Target (.leaderFeignDeath interval p) entry) : a.sendEntry text entry = some [] := by
  rw [sendEntry_of_target htarget]
  unfold maliciousTrigger
  simp only [hmode, MaliciousMode.phase, if_true]

theorem sendEntry_duplicate {interval : UInt64} {p : UInt8}
    (hmode : a.mode = .dishonest (.leaderSendDuplicateMessages interval p))
    (htarget : a.Target (.leaderSendDuplicateMessages interval p) entry) :
    a.sendEntry text entry =
      some (if a.leads then a.sendMessage entry ++ a.sendMessage entry else a.sendMessage entry) := by
  rw [sendEntry_of_target htarget]
  unfold maliciousTrigger
  simp only [hmode, MaliciousMode.phase, true_and]
  split <;> rfl

theorem sendEntry_ambiguous {interval : UInt64} {p : UInt8} {field : List String} {count : UInt16}
    (hmode : a.mode = .dishonest (.leaderSendAmbiguousMessage interval p field count))
    (htarget : a.Target (.leaderSendAmbiguousMessage interval p field count) entry) :
    a.sendEntry text entry =
      if a.leads then (a.generateAErrorMessage text entry.msg field p).map fun amsg ↦
        a.sendMessage (.ambiguousBroadcast entry.msg amsg count)
      else some (a.sendMessage entry) := by
  rw [sendEntry_of_target htarget]
  unfold maliciousTrigger
  simp only [hmode, MaliciousMode.phase, true_and]

theorem sendEntry_delay {interval : UInt64} {p : UInt8}
    (hmode : a.mode = .dishonest (.leaderDelaySendMessage interval p))
    (htarget : a.Target (.leaderDelaySendMessage interval p) entry) :
    a.sendEntry text entry = some (a.sendMessage entry) := by
  rw [sendEntry_of_target htarget]
  unfold maliciousTrigger
  simp only [hmode]

theorem sendEntry_conspire {interval : UInt64} {p : UInt8} {field : List String} {request : Request}
    (hmode : a.mode = .dishonest (.replicaNodeConspireForgeMessages interval p field request))
    (htarget : a.Target (.replicaNodeConspireForgeMessages interval p field request) entry) :
    a.sendEntry text entry =
      if request = a.protocol.currentRequest then
        (a.generateAErrorMessage text entry.msg field p).map fun amsg ↦ a.sendMessage (entry.withMsg amsg)
      else some (a.sendMessage entry) := by
  have hentry := isAmbiguous_of_target htarget
  rw [sendEntry_of_target htarget]
  unfold maliciousTrigger
  simp only [hmode, MaliciousMode.phase, true_and]
  cases entry with
  | broadcast msg => rfl
  | unicast receiver msg => rfl
  | ambiguousBroadcast msg amsg count => cases hentry

/-! ## One entry -/

theorem sendEntry_injected (hmode : a.mode = .dishonest mode) (h : a.sendEntry text entry = some sent) :
    Injected text a mode entry sent where
  ambiguousEntry hentry := by
    cases entry with
    | ambiguousBroadcast msg amsg count => exact (Option.some.inj h).symm
    | broadcast msg => cases hentry
    | unicast receiver msg => cases hentry
  other hentry htarget := by
    cases hphase : a.protocol.getCurrentPhase entry.msg with
    | none =>
      rw [sendEntry_eq text a hentry, hphase] at h
      cases h
    | some phase =>
      rw [sendEntry_of_not_target hmode hentry htarget hphase] at h
      exact (Option.some.inj h).symm
  feignDeath interval p hkind htarget _ := by
    subst hkind
    rw [sendEntry_feignDeath hmode htarget] at h
    exact (Option.some.inj h).symm
  duplicate interval p hkind htarget := by
    subst hkind
    rw [sendEntry_duplicate hmode htarget] at h
    exact (Option.some.inj h).symm
  ambiguous interval p field count hkind htarget := by
    subst hkind
    rw [sendEntry_ambiguous hmode htarget] at h
    split
    · rename_i hleads
      rw [if_pos hleads] at h
      obtain ⟨amsg, hamsg, hsent⟩ := Option.map_eq_some_iff.1 h
      exact ⟨amsg, hamsg, hsent.symm⟩
    · rename_i hleads
      rw [if_neg hleads] at h
      exact (Option.some.inj h).symm
  delay interval p hkind htarget := by
    subst hkind
    rw [sendEntry_delay hmode htarget] at h
    exact (Option.some.inj h).symm
  conspire interval p field request hkind htarget := by
    subst hkind
    rw [sendEntry_conspire hmode htarget] at h
    split
    · rename_i hrequest
      rw [if_pos hrequest] at h
      obtain ⟨amsg, hamsg, hsent⟩ := Option.map_eq_some_iff.1 h
      exact ⟨amsg, hamsg, hsent.symm⟩
    · rename_i hrequest
      rw [if_neg hrequest] at h
      exact (Option.some.inj h).symm

theorem sendable_of_isSome (hmode : a.mode = .dishonest mode) (h : (a.sendEntry text entry).isSome) :
    Sendable text a mode entry where
  phase hentry := by
    rw [sendEntry_eq text a hentry] at h
    exact Option.isSome_of_isSome_bind h
  ambiguous interval p field count hkind htarget hleads := by
    subst hkind
    rw [sendEntry_ambiguous hmode htarget, if_pos hleads, Option.isSome_map] at h
    exact h
  conspire interval p field request hkind htarget hrequest := by
    subst hkind
    rw [sendEntry_conspire hmode htarget, if_pos hrequest, Option.isSome_map] at h
    exact h

theorem isSome_of_sendable (hmode : a.mode = .dishonest mode) (h : Sendable text a mode entry) :
    (a.sendEntry text entry).isSome := by
  by_cases htarget : a.Target mode entry
  · cases mode with
    | leaderFeignDeath interval p =>
      rw [sendEntry_feignDeath hmode htarget]
      rfl
    | leaderSendAmbiguousMessage interval p field count =>
      rw [sendEntry_ambiguous hmode htarget]
      split
      · rename_i hleads
        rw [Option.isSome_map]
        exact h.ambiguous interval p field count rfl htarget hleads
      · rfl
    | leaderDelaySendMessage interval p =>
      rw [sendEntry_delay hmode htarget]
      rfl
    | leaderSendDuplicateMessages interval p =>
      rw [sendEntry_duplicate hmode htarget]
      rfl
    | replicaNodeConspireForgeMessages interval p field request =>
      rw [sendEntry_conspire hmode htarget]
      split
      · rename_i hrequest
        rw [Option.isSome_map]
        exact h.conspire interval p field request rfl htarget hrequest
      · rfl
  · cases hentry : entry.isAmbiguous with
    | true =>
      cases entry with
      | ambiguousBroadcast msg amsg count => rfl
      | broadcast msg => cases hentry
      | unicast receiver msg => cases hentry
    | false =>
      obtain ⟨phase, hphase⟩ := Option.isSome_iff_exists.1 (h.phase hentry)
      rw [sendEntry_of_not_target hmode hentry htarget hphase]
      rfl

/-! ## The queue -/

theorem sendQueue_cons_eq_some {queue : List (SendType Bytes)}
    (h : a.sendQueue text (entry :: queue) = some sent) :
    ∃ part rest, a.sendEntry text entry = some part ∧ a.sendQueue text queue = some rest ∧
      sent = part ++ rest := by
  simp only [sendQueue, Option.bind_eq_bind, Option.bind_eq_some_iff, Option.pure_def, Option.some.injEq] at h
  obtain ⟨part, hpart, rest, hrest, rfl⟩ := h
  exact ⟨part, rest, hpart, hrest, rfl⟩

theorem sendQueue_injected (hmode : a.mode = .dishonest mode) {queue : List (SendType Bytes)}
    (h : a.sendQueue text queue = some sent) :
    ∃ parts, List.Forall₂ (Injected text a mode) queue parts ∧ sent = parts.flatten := by
  induction queue generalizing sent with
  | nil =>
    cases h
    exact ⟨[], .nil, rfl⟩
  | cons entry queue ih =>
    obtain ⟨part, rest, hpart, hrest, rfl⟩ := sendQueue_cons_eq_some h
    obtain ⟨parts, hparts, rfl⟩ := ih hrest
    exact ⟨part :: parts, .cons (sendEntry_injected hmode hpart) hparts, rfl⟩

theorem isSome_sendQueue (hmode : a.mode = .dishonest mode) (queue : List (SendType Bytes)) :
    (a.sendQueue text queue).isSome ↔ ∀ entry ∈ queue, Sendable text a mode entry := by
  induction queue with
  | nil => simp [sendQueue]
  | cons entry queue ih =>
    rw [List.forall_mem_cons, ← ih]
    constructor
    · intro h
      obtain ⟨sent, hsent⟩ := Option.isSome_iff_exists.1 h
      obtain ⟨part, rest, hpart, hrest, -⟩ := sendQueue_cons_eq_some hsent
      exact ⟨sendable_of_isSome hmode (by simp [hpart]), by simp [hrest]⟩
    · rintro ⟨hentry, hqueue⟩
      obtain ⟨part, hpart⟩ := Option.isSome_iff_exists.1 (isSome_of_sendable hmode hentry)
      obtain ⟨rest, hrest⟩ := Option.isSome_iff_exists.1 hqueue
      simp [sendQueue, hpart, hrest]

end Faults

/-! ## The answer of the protocol -/

/-- The reports that an answer of the protocol asks for. -/
def reports (a : Sender) (now : UInt64) : PhaseState Bytes → Option (List Sent)
  | .over (some request) | .complete request _ =>
    a.analyzerId.map fun analyzerId ↦ [.consensusEndData analyzerId { request := request, completedTime := now }]
  | _ => some []

/-- An answer is sent entry by entry, and then the reports. -/
theorem map_checkProtocolPhaseState (a : Sender) (now : UInt64) (answer : PhaseState Bytes) :
    (a.checkProtocolPhaseState text X now answer).map Prod.snd =
      (a.sendQueue text answer.queue).bind fun sent ↦ (a.reports now answer).map fun report ↦ sent ++ report := by
  match answer with
  | .over none => rfl
  | .over (some request) =>
    cases hanalyzer : a.analyzerId <;> simp [checkProtocolPhaseState, complete, reports, sendQueue, hanalyzer]
  | .overMessage request queue =>
    cases hsent : a.sendQueue text queue <;> simp [checkProtocolPhaseState, reports, hsent]
  | .continueExecute queue =>
    cases hsent : a.sendQueue text queue <;> simp [checkProtocolPhaseState, reports, hsent]
  | .complete request queue =>
    cases hsent : a.sendQueue text queue <;> cases hanalyzer : a.analyzerId <;>
      simp [checkProtocolPhaseState, Sender.complete, reports, hsent, hanalyzer]

end Sender

end BFTDiagnosis.Components
