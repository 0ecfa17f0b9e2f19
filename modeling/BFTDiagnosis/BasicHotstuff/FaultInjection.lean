import BFTDiagnosis.BasicHotstuff.Protocol
import BFTDiagnosis.Components.FaultInjection

/-!
# Fault injection under Basic HotStuff

The phases of the messages of Basic HotStuff and the names under which `generate_a_error_message` looks for their
fields, and what the actuator of a dishonest node makes of a queue of the protocol.
-/

namespace BFTDiagnosis.BasicHotstuff

open Components Utils

def MessageType.currentPhase : MessageType → UInt8
  | .request _ => 0
  | .newView _ => 0
  | .prepare _ => 1
  | .commit _ => 3
  | .preCommit _ => 2
  | .decide _ => 0
  | .prepareVote _ => 1
  | .commitVote _ => 3
  | .preCommitVote _ => 2
  | .end _ => 0
  | .tblsKey _ => 0
  | .consensusNodePKsInfo _ => 0

variable (decode : Bytes → Option ConsensusMessage)

/-- `get_current_phase`, with the deserialization of a consensus message as a parameter. -/
def getCurrentPhase (msg : Bytes) : Option UInt8 :=
  if msg.length = 0 then some 0 else (decode msg).map fun data ↦ data.msgType.currentPhase

/-- `phase_map` after a call of `protocol_phases`. -/
def protocolPhaseMap : HashMap UInt8 String :=
  HashMap.ofEntries [(1, "Prepare"), (2, "Vote"), (3, "PreCommit"), (4, "Vote"), (5, "Commit"), (6, "Vote")]

/-- The actuator with this protocol, which keeps `phase_map` beside its state. -/
def BasicHotstuffProtocol.sender (p : BasicHotstuffProtocol) (phaseMap : HashMap UInt8 String) (a : Sender) :
    Sender :=
  { a with
    protocol :=
      { getCurrentPhase := getCurrentPhase decode
        phaseMap := phaseMap
        isLeader := fun peerId ↦ p.state.primary == peerId
        currentRequest := p.state.currentRequest } }

variable (text : Json.Text) (X : Platform)

/-- A dishonest actuator sends a queue entry by entry. It gets through when every entry has a phase, can be forged
where it has to be, and a report has a receiver. -/
theorem checkProtocolPhaseState_injected (p : BasicHotstuffProtocol) (phaseMap : HashMap UInt8 String)
    (a : Sender) (mode : MaliciousMode) (hmode : a.mode = .dishonest mode) (now : UInt64)
    (answer : PhaseState Bytes) :
    (((p.sender decode phaseMap a).checkProtocolPhaseState text X now answer).isSome ↔
      (∀ entry ∈ answer.queue, (p.sender decode phaseMap a).Sendable text mode entry) ∧
        (a.reports now answer).isSome) ∧
    ∀ a' sent, (p.sender decode phaseMap a).checkProtocolPhaseState text X now answer = some (a', sent) →
      ∃ parts report, List.Forall₂ ((p.sender decode phaseMap a).Injected text mode) answer.queue parts ∧
        a.reports now answer = some report ∧ sent = parts.flatten ++ report := by
  have hsend := Sender.map_checkProtocolPhaseState text X (p.sender decode phaseMap a) now answer
  have hreports : (p.sender decode phaseMap a).reports now answer = a.reports now answer := rfl
  have hmode' : (p.sender decode phaseMap a).mode = .dishonest mode := hmode
  rw [hreports] at hsend
  constructor
  · rw [← Sender.isSome_sendQueue hmode', ← Option.isSome_map (f := Prod.snd), hsend]
    cases (p.sender decode phaseMap a).sendQueue text answer.queue <;> simp
  · intro a' sent h
    rw [h, Option.map_some] at hsend
    obtain ⟨queued, hqueued, hrest⟩ := Option.bind_eq_some_iff.1 hsend.symm
    obtain ⟨report, hreport, rfl⟩ := Option.map_eq_some_iff.1 hrest
    obtain ⟨parts, hparts, rfl⟩ := Sender.sendQueue_injected hmode' hqueued
    exact ⟨parts, report, hparts, hreport, rfl⟩

/-! ## Two messages of the first phase -/

section Examples

def sampleBlock : Json := .object [("cmd", .string "a"), ("parent_hash", .string "")]

def samplePrepare : Json :=
  .object [("msg_type", .object [("Prepare", .object
    [("view_num", .number 1), ("block", sampleBlock), ("justify", .null), ("from_peer_id", .array [.number 1])])])]

def sampleVote : Json :=
  .object [("msg_type", .object [("PrepareVote", .object
    [("view_num", .number 1), ("block", sampleBlock), ("partial_signature", .null),
      ("from_peer_id", .array [.number 2])])])]

def sampleDecode (bytes : Bytes) : Option ConsensusMessage :=
  let block : Block := { cmd := "a", parentHash := "" }
  if bytes = Json.Text.compact.print samplePrepare then
    some ⟨.prepare { viewNum := 1, block := block, justify := none, fromPeerId := [1] }⟩
  else if bytes = Json.Text.compact.print sampleVote then
    some ⟨.prepareVote { viewNum := 1, block := block, partialSignature := none, fromPeerId := [2] }⟩
  else none

/-- A node with a fault of the first phase and three other nodes. -/
def sampleSender (peerId : PeerId) (isLeader : Bool) (mode : MaliciousMode) : Sender :=
  ({ BasicHotstuffProtocol.new 1 "" with
      state := { State.new 1 with primary := [1], currentRequest := ⟨"a"⟩ } }).sender sampleDecode protocolPhaseMap
    { protocol :=
        { getCurrentPhase := fun _ ↦ none, phaseMap := ∅, isLeader := fun _ ↦ false, currentRequest := ⟨""⟩ }
      peerId := peerId, analyzerId := none, mode := .dishonest mode, maliciousFlag := true, isLeader := isLeader
      otherConsensusNode := [[3], [4], [5]], requestBuffer := ∅, consensusState := false }

theorem sampleVote_ne_samplePrepare :
    Json.Text.compact.print sampleVote ≠ Json.Text.compact.print samplePrepare := by
  intro h
  have hparse := congrArg Json.Text.compact.parse h
  rw [Json.Text.compact_roundTrips.parse_print, Json.Text.compact_roundTrips.parse_print] at hparse
  simp [sampleVote, samplePrepare] at hparse

theorem getCurrentPhase_samplePrepare (peerId : PeerId) (isLeader : Bool) (mode : MaliciousMode) :
    (sampleSender peerId isLeader mode).protocol.getCurrentPhase (Json.Text.compact.print samplePrepare) = some 1 := by
  have hphase : (sampleSender peerId isLeader mode).protocol.getCurrentPhase = getCurrentPhase sampleDecode := rfl
  have hne := Json.Text.compact_roundTrips.print_ne_nil samplePrepare
  rw [hphase, getCurrentPhase, if_neg (List.length_eq_zero_iff.not.2 hne), sampleDecode, if_pos rfl]
  rfl

theorem getCurrentPhase_sampleVote (peerId : PeerId) (isLeader : Bool) (mode : MaliciousMode) :
    (sampleSender peerId isLeader mode).protocol.getCurrentPhase (Json.Text.compact.print sampleVote) = some 1 := by
  have hphase : (sampleSender peerId isLeader mode).protocol.getCurrentPhase = getCurrentPhase sampleDecode := rfl
  have hne := Json.Text.compact_roundTrips.print_ne_nil sampleVote
  rw [hphase, getCurrentPhase, if_neg (List.length_eq_zero_iff.not.2 hne), sampleDecode,
    if_neg sampleVote_ne_samplePrepare, if_pos rfl]
  rfl

def forgedPrepare : Json :=
  .object [("msg_type", .object [("Prepare", .object
    [("block", sampleBlock), ("from_peer_id", .array [.number 1]), ("justify", .null), ("view_num", .number 100)])])]

/-- A forged vote has an entry for the proposal beside its own. -/
def forgedVote : Json :=
  .object [("msg_type", .object [("Prepare", .object [("view_num", .null)]), ("PrepareVote", .object
    [("block", sampleBlock), ("from_peer_id", .array [.number 2]), ("partial_signature", .null),
      ("view_num", .number 1)])])]

theorem generateAErrorMessage_samplePrepare (peerId : PeerId) (isLeader : Bool) (mode : MaliciousMode) :
    (sampleSender peerId isLeader mode).generateAErrorMessage .compact (Json.Text.compact.print samplePrepare)
      ["view_num"] 1 = some (Json.Text.compact.print forgedPrepare) := by
  rw [Sender.generateAErrorMessage, Json.Text.compact_roundTrips.parse_print]
  rfl

theorem generateAErrorMessage_sampleVote (peerId : PeerId) (isLeader : Bool) (mode : MaliciousMode) :
    (sampleSender peerId isLeader mode).generateAErrorMessage .compact (Json.Text.compact.print sampleVote)
      ["view_num"] 1 = some (Json.Text.compact.print forgedVote) := by
  rw [Sender.generateAErrorMessage, Json.Text.compact_roundTrips.parse_print]
  rfl

def ambiguousFault : MaliciousMode := .leaderSendAmbiguousMessage 0 1 ["view_num"] 1

def conspireFault : MaliciousMode := .replicaNodeConspireForgeMessages 0 1 ["view_num"] ⟨"a"⟩

/-- A leader sends two versions of its proposal under the fault that divides the nodes, and a conspirator that was
not started as leader sends its vote as it is. -/
theorem ambiguous_prepare_and_unforged_vote :
    (sampleSender [1] true ambiguousFault).checkProtocolPhaseState .compact .transparent 0
        (.continueExecute [.broadcast (Json.Text.compact.print samplePrepare)]) =
      some (sampleSender [1] true ambiguousFault,
        [.unicast [4] (Json.Text.compact.print samplePrepare), .unicast [5] (Json.Text.compact.print samplePrepare),
          .unicast [3] (Json.Text.compact.print forgedPrepare)]) ∧
    (sampleSender [2] false conspireFault).checkProtocolPhaseState .compact .transparent 0
        (.continueExecute [.unicast [1] (Json.Text.compact.print sampleVote)]) =
      some (sampleSender [2] false conspireFault, [.unicast [1] (Json.Text.compact.print sampleVote)]) ∧
    (sampleSender [2] false conspireFault).protocol.getCurrentPhase (Json.Text.compact.print sampleVote) = some 1 ∧
    (sampleSender [2] false conspireFault).protocol.currentRequest = ⟨"a"⟩ ∧
    (sampleSender [2] false conspireFault).generateAErrorMessage .compact (Json.Text.compact.print sampleVote)
      ["view_num"] 1 = some (Json.Text.compact.print forgedVote) ∧
    Json.Text.compact.print forgedVote ≠ Json.Text.compact.print sampleVote := by
  refine ⟨?_, ?_, getCurrentPhase_sampleVote _ _ _, rfl, generateAErrorMessage_sampleVote _ _ _, ?_⟩
  · have htarget : (sampleSender [1] true ambiguousFault).Target ambiguousFault
        (.broadcast (Json.Text.compact.print samplePrepare)) := ⟨rfl, getCurrentPhase_samplePrepare _ _ _⟩
    have hsent : (sampleSender [1] true ambiguousFault).sendEntry .compact
        (.broadcast (Json.Text.compact.print samplePrepare)) = _ := Sender.sendEntry_ambiguous rfl htarget
    rw [if_pos (by rfl), SendType.msg, generateAErrorMessage_samplePrepare, Option.map_some] at hsent
    simp only [Sender.checkProtocolPhaseState, Sender.sendQueue, hsent, Option.bind_eq_bind, Option.bind_some,
      Option.pure_def, Option.map_some, List.append_nil]
    rfl
  · have htarget : ¬ (sampleSender [2] false conspireFault).Target conspireFault
        (.unicast [1] (Json.Text.compact.print sampleVote)) := fun h ↦ Bool.false_ne_true h.1
    have hsent : (sampleSender [2] false conspireFault).sendEntry .compact
        (.unicast [1] (Json.Text.compact.print sampleVote)) = _ :=
      Sender.sendEntry_of_not_target rfl rfl htarget (getCurrentPhase_sampleVote _ _ _)
    have hne := List.length_eq_zero_iff.not.2 (Json.Text.compact_roundTrips.print_ne_nil sampleVote)
    rw [Sender.sendMessage, if_pos hne] at hsent
    simp only [Sender.checkProtocolPhaseState, Sender.sendQueue, hsent, Option.bind_eq_bind, Option.bind_some,
      Option.pure_def, Option.map_some, List.append_nil]
  · intro h
    have hparse := congrArg Json.Text.compact.parse h
    rw [Json.Text.compact_roundTrips.parse_print, Json.Text.compact_roundTrips.parse_print] at hparse
    simp [sampleVote, forgedVote] at hparse

/-- The proposal of a conspiring leader is replaced by its forged version. -/
theorem checkProtocolPhaseState_injected_conspirator :
    ((sampleSender [1] true conspireFault).checkProtocolPhaseState .compact .transparent 0
      (.continueExecute [.broadcast (Json.Text.compact.print samplePrepare)])).isSome ∧
    ∀ a sent, (sampleSender [1] true conspireFault).checkProtocolPhaseState .compact .transparent 0
        (.continueExecute [.broadcast (Json.Text.compact.print samplePrepare)]) = some (a, sent) →
      sent = [.publish (Json.Text.compact.print forgedPrepare)] := by
  have hinjected := checkProtocolPhaseState_injected sampleDecode .compact .transparent
    { BasicHotstuffProtocol.new 1 "" with
      state := { State.new 1 with primary := [1], currentRequest := ⟨"a"⟩ } } protocolPhaseMap
    (sampleSender [1] true conspireFault) conspireFault rfl 0
    (.continueExecute [.broadcast (Json.Text.compact.print samplePrepare)])
  have hforged := generateAErrorMessage_samplePrepare [1] true conspireFault
  have htarget : (sampleSender [1] true conspireFault).Target conspireFault
      (.broadcast (Json.Text.compact.print samplePrepare)) := ⟨rfl, getCurrentPhase_samplePrepare _ _ _⟩
  refine ⟨hinjected.1.2 ⟨fun entry hentry ↦ ?_, rfl⟩, fun a sent h ↦ ?_⟩
  · obtain rfl := List.mem_singleton.1 hentry
    refine ⟨fun _ ↦ ?_, (fun _ _ _ _ hkind ↦ by cases hkind), fun _ _ _ _ hkind _ _ ↦ ?_⟩
    · exact Option.isSome_of_eq_some (getCurrentPhase_samplePrepare _ _ _)
    · cases hkind
      exact Option.isSome_of_eq_some hforged
  · obtain ⟨parts, report, hparts, hreport, rfl⟩ := hinjected.2 a sent h
    cases hreport
    obtain ⟨part, rest, hpart, hrest, rfl⟩ := List.forall₂_cons_left_iff.1 hparts
    obtain rfl := List.forall₂_nil_left_iff.1 hrest
    have hconspire := hpart.conspire 0 1 ["view_num"] ⟨"a"⟩ rfl htarget
    rw [if_pos (by rfl)] at hconspire
    obtain ⟨amsg, hamsg, rfl⟩ := hconspire
    obtain rfl := Option.some.inj (hforged.symm.trans hamsg)
    have hne := List.length_eq_zero_iff.not.2 (Json.Text.compact_roundTrips.print_ne_nil forgedPrepare)
    simp only [SendType.withMsg, Sender.sendMessage, if_pos hne, List.flatten_cons, List.flatten_nil,
      List.append_nil]

end Examples

end BFTDiagnosis.BasicHotstuff
