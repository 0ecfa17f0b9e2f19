import BFTDiagnosis.Components.ProtocolActuator
import BFTDiagnosis.Lib.Notify
import BFTDiagnosis.Lib.Run

/-!
# Runs of the message loop of a consensus node

`message_handler_start` of `components/src/protocol_actuator.rs` is entered at every `ProtocolStart` and left
through `protocol_stop_notify` or `crash_notify`. The timers that it starts outlive it, and `reset` keeps the
notifications, so what was meant for one run may be taken by a later one. A run that is entered as an honest
node is left alone when nothing is outstanding at its start.

Runs are numbered, and every timer and every permit is labelled with the run that it comes from. The requests
and the messages of the protocol are not modelled here.
-/

namespace BFTDiagnosis.Components

/-- A node that knows the controller, with its notifications and the number of the run that it is in, or was
in last, and the mode in which that run was entered. -/
structure ActuatorRuns where
  node : ProtocolActuator
  analyzerKnown : Bool
  maliciousFlag : Bool
  run : ℕ
  entered : ConsensusNodeMode
  crash : Notify ℕ
  malicious : Notify ℕ
  stop : Notify ℕ

namespace ActuatorRuns

/-- What the message loops and the timers of a node react to. -/
inductive Event where
  /-- A message of the controller. -/
  | controller (message : InteractiveMessage)
  /-- The gossiped id of the analyzer. -/
  | analyzerInfo
  | crashTimer (i : ℕ)
  | maliciousTimer (i : ℕ)
  /-- The branch of `protocol_stop_notify`. -/
  | stop
  /-- The branch of `crash_notify`. -/
  | crash
  /-- The branch of `malicious_notify`. -/
  | malicious

def new (protocolPhases : List (UInt8 × Bytes)) : ActuatorRuns where
  node := { mode := .uninitialized, running := false, protocolPhases := protocolPhases }
  analyzerKnown := false
  maliciousFlag := false
  run := 0
  entered := .uninitialized
  crash := .new
  malicious := .new
  stop := .new

def crashTimerStart (s : ActuatorRuns) : ActuatorRuns := { s with crash := s.crash.start s.run }

def maliciousTimerStart (s : ActuatorRuns) : ActuatorRuns := { s with malicious := s.malicious.start s.run }

def protocolStartPreprocess (s : ActuatorRuns) : ActuatorRuns :=
  match s.node.mode with
  | .uninitialized => s
  | .honest _ => s
  | .dishonest _ => s.maliciousTimerStart
  | .crash _ => s.crashTimerStart

/-- `message_handler_start` up to its loop. -/
def messageHandlerStart (s : ActuatorRuns) : ActuatorRuns :=
  { s with run := s.run + 1, entered := s.node.mode }.protocolStartPreprocess

/-- `reset`, which keeps every notification, with its answer to the controller. -/
def reset (s : ActuatorRuns) : ActuatorRuns × List InteractiveMessage :=
  ({ s with maliciousFlag := false, node := { s.node with running := false } }, [.resetSuccess s.node.mode])

def runningControllerMessageHandler (s : ActuatorRuns) : InteractiveMessage → ActuatorRuns
  | .reset => if s.analyzerKnown then { s with stop := s.stop.notifyOne s.run } else s
  | _ => s

def noRunningControllerMessageHandler (s : ActuatorRuns) (message : InteractiveMessage) :
    ActuatorRuns × List InteractiveMessage :=
  let (node, answers) := s.node.noRunningControllerMessageHandler message
  match message with
  | .protocolStart => ({ s with node := node }.messageHandlerStart, answers)
  | _ => ({ s with node := node }, answers)

/-- One turn of a loop of the node, or a timer. A branch is taken in a run when it has a permit. -/
def step (s : ActuatorRuns) : Event → Option (ActuatorRuns × List InteractiveMessage)
  | .controller message =>
    if s.node.running then some (s.runningControllerMessageHandler message, [])
    else some (s.noRunningControllerMessageHandler message)
  | .analyzerInfo => some ({ s with analyzerKnown := s.analyzerKnown || !s.node.running }, [])
  | .crashTimer i => some ({ s with crash := s.crash.fire i }, [])
  | .maliciousTimer i => some ({ s with malicious := s.malicious.fire i }, [])
  | .stop =>
    if s.node.running && s.stop.ready then some { s with stop := s.stop.notified }.reset else some (s, [])
  | .crash =>
    if s.node.running && s.crash.ready then some { s with crash := s.crash.notified }.reset else some (s, [])
  | .malicious =>
    if s.node.running && s.malicious.ready then
      some ({ s with malicious := s.malicious.notified, maliciousFlag := true }, [])
    else some (s, [])

/-- A `Reset` that is followed by the branch of `protocol_stop_notify` does what the node does in one turn when
its notifications are left out. -/
theorem step_stop_of_reset {s : ActuatorRuns} (hrunning : s.node.running = true)
    (hknown : s.analyzerKnown = true) :
    ∃ s', (s.runningControllerMessageHandler .reset).step .stop =
        some (s', (s.node.controllerMessageHandler .reset).2) ∧
      s'.node = (s.node.controllerMessageHandler .reset).1 := by
  have hready : (s.stop.notifyOne s.run).ready = true := Notify.ready_iff.2 (by simp [Notify.notifyOne])
  simp only [runningControllerMessageHandler, hknown, if_true, step, hrunning, hready, Bool.and_true,
    ProtocolActuator.controllerMessageHandler, ProtocolActuator.runningControllerMessageHandler, reset]
  exact ⟨_, rfl, rfl⟩

/-! ## Isolation of honest runs -/

def isHonest : ConsensusNodeMode → Bool
  | .honest _ => true
  | _ => false

/-- Neither the branch of `crash_notify` nor the one of `malicious_notify` can be taken, the flag is not set,
and a permit to stop comes from a `Reset` of this run. -/
structure Isolated (s : ActuatorRuns) : Prop where
  crash : s.crash.ready = false
  malicious : s.malicious.ready = false
  flag : s.maliciousFlag = false
  stop : ∀ received ∈ s.stop.permit, received = s.run

/-- When a node enters a run in an honest mode, no timer and no permit of an earlier run is outstanding. -/
def Undisturbed (t : Transition ActuatorRuns Event (List InteractiveMessage)) : Prop :=
  match t.event with
  | .controller .protocolStart => t.pre.node.running = false → isHonest t.pre.node.mode = true →
      t.pre.crash.outstanding = 0 ∧ t.pre.malicious.outstanding = 0 ∧ t.pre.stop.outstanding = 0
  | _ => True

/-- The flag is set in a run only, and in a run that was entered in an honest mode there are no timers and no
permits but those to stop it. -/
structure Separated (s : ActuatorRuns) : Prop where
  idle : s.node.running = false → s.maliciousFlag = false
  crash : s.node.running = true → isHonest s.entered = true → s.crash.outstanding = 0
  malicious : s.node.running = true → isHonest s.entered = true → s.malicious.outstanding = 0
  flag : s.node.running = true → isHonest s.entered = true → s.maliciousFlag = false
  stop : s.node.running = true → isHonest s.entered = true → ∀ received ∈ s.stop.permit, received = s.run

variable {s s' : ActuatorRuns}

theorem separated_new (protocolPhases : List (UInt8 × Bytes)) : Separated (new protocolPhases) where
  idle _ := rfl
  crash hrunning := absurd hrunning Bool.false_ne_true
  malicious hrunning := absurd hrunning Bool.false_ne_true
  flag hrunning := absurd hrunning Bool.false_ne_true
  stop hrunning := absurd hrunning Bool.false_ne_true

/-- A node outside of a run satisfies the invariant when the flag is not set. -/
theorem Separated.of_idle (hidle : s.node.running = false) (hflag : s.maliciousFlag = false) : Separated s where
  idle _ := hflag
  crash hrunning := absurd (hidle.symm.trans hrunning) Bool.false_ne_true
  malicious hrunning := absurd (hidle.symm.trans hrunning) Bool.false_ne_true
  flag hrunning := absurd (hidle.symm.trans hrunning) Bool.false_ne_true
  stop hrunning := absurd (hidle.symm.trans hrunning) Bool.false_ne_true

theorem Separated.isolated (h : Separated s) (hrunning : s.node.running = true)
    (hhonest : isHonest s.entered = true) : Isolated s where
  crash := Notify.ready_eq_false_of_outstanding (h.crash hrunning hhonest)
  malicious := Notify.ready_eq_false_of_outstanding (h.malicious hrunning hhonest)
  flag := h.flag hrunning hhonest
  stop := h.stop hrunning hhonest

theorem running_of_ne_protocolStart (node : ProtocolActuator) {message : InteractiveMessage}
    (h : message ≠ .protocolStart) :
    (node.noRunningControllerMessageHandler message).1.running = node.running := by
  cases message with
  | protocolStart => exact absurd rfl h
  | consensusNodeMode mode =>
    rw [ProtocolActuator.noRunningControllerMessageHandler]
    split <;> rfl
  | _ => rfl

/-- Outside of a run, `ProtocolStart` enters one; every other message changes the mode at most. -/
theorem noRunningControllerMessageHandler_cases (message : InteractiveMessage) :
    (message = .protocolStart ∧ s.noRunningControllerMessageHandler message =
        ({ s with node := { s.node with running := true } }.messageHandlerStart, [])) ∨
      ∃ node answers, node.running = s.node.running ∧
        s.noRunningControllerMessageHandler message = ({ s with node := node }, answers) := by
  by_cases hstart : message = .protocolStart
  · subst hstart
    exact .inl ⟨rfl, rfl⟩
  · refine .inr ⟨(s.node.noRunningControllerMessageHandler message).1,
      (s.node.noRunningControllerMessageHandler message).2, running_of_ne_protocolStart s.node hstart, ?_⟩
    unfold noRunningControllerMessageHandler
    cases message with
    | protocolStart => exact absurd rfl hstart
    | _ => rfl

/-- Entering a run numbers it and records the mode; an honest node starts no timer. -/
theorem messageHandlerStart_cases (s : ActuatorRuns) :
    (isHonest s.node.mode = true ∧ s.messageHandlerStart = { s with run := s.run + 1, entered := s.node.mode }) ∨
      (isHonest s.node.mode = false ∧ s.messageHandlerStart.entered = s.node.mode ∧
        s.messageHandlerStart.node = s.node) := by
  unfold messageHandlerStart protocolStartPreprocess
  cases hmode : s.node.mode with
  | honest state => exact .inl ⟨rfl, rfl⟩
  | uninitialized => exact .inr ⟨rfl, rfl, rfl⟩
  | dishonest mode => exact .inr ⟨rfl, rfl, rfl⟩
  | crash interval => exact .inr ⟨rfl, rfl, rfl⟩

/-- A run starts separated when it is entered in an honest mode only while nothing is outstanding. -/
theorem separated_messageHandlerStart (hrunning : s.node.running = true) (hflag : s.maliciousFlag = false)
    (h : isHonest s.node.mode = true →
      s.crash.outstanding = 0 ∧ s.malicious.outstanding = 0 ∧ s.stop.outstanding = 0) :
    Separated s.messageHandlerStart := by
  rcases messageHandlerStart_cases s with ⟨hhonest, hstart⟩ | ⟨hother, hentered, hnode⟩
  · obtain ⟨hcrash, hmalicious, hstop⟩ := h hhonest
    rw [hstart]
    refine ⟨fun _ ↦ hflag, fun _ _ ↦ hcrash, fun _ _ ↦ hmalicious, fun _ _ ↦ hflag, fun _ _ received hmem ↦ ?_⟩
    rw [show s.stop.permit = [] from (Notify.outstanding_eq_zero_iff.1 hstop).2] at hmem
    cases hmem
  · have hdishonest : isHonest s.messageHandlerStart.entered ≠ true := by
      rw [hentered, hother]
      exact Bool.false_ne_true
    exact ⟨fun hidle ↦ absurd (hrunning.symm.trans (hnode ▸ hidle)) (by decide),
      fun _ hhonest ↦ absurd hhonest hdishonest, fun _ hhonest ↦ absurd hhonest hdishonest,
      fun _ hhonest ↦ absurd hhonest hdishonest, fun _ hhonest ↦ absurd hhonest hdishonest⟩

theorem separated_reset (s : ActuatorRuns) : Separated s.reset.1 := .of_idle rfl rfl

/-- A message in a run can only add a permit to stop it. -/
theorem separated_runningControllerMessageHandler (message : InteractiveMessage) (h : Separated s) :
    Separated (s.runningControllerMessageHandler message) := by
  unfold runningControllerMessageHandler
  split
  · split
    · refine ⟨h.idle, h.crash, h.malicious, h.flag, fun hrunning hhonest received hmem ↦ ?_⟩
      rcases List.mem_append.1 hmem with hearlier | hnow
      · exact h.stop hrunning hhonest received hearlier
      · exact List.mem_singleton.1 hnow
    · exact h
  · exact h

theorem separated_of_step {event : Event} {answers : List InteractiveMessage} (h : Separated s)
    (hundisturbed : Undisturbed ⟨s, event, answers, s'⟩) (taken : s.step event = some (s', answers)) :
    Separated s' := by
  cases event with
  | controller message =>
    simp only [step] at taken
    split at taken
    case isTrue =>
      obtain ⟨rfl, -⟩ := Prod.mk.inj (Option.some.inj taken)
      exact separated_runningControllerMessageHandler message h
    case isFalse hnot =>
      have hidle := Bool.eq_false_of_not_eq_true hnot
      have heq := Option.some.inj taken
      rcases noRunningControllerMessageHandler_cases (s := s) message with
        ⟨rfl, hstart⟩ | ⟨node, answers', hsame, hother⟩
      · obtain ⟨rfl, -⟩ := Prod.mk.inj (hstart.symm.trans heq)
        exact separated_messageHandlerStart rfl (h.idle hidle) (hundisturbed hidle)
      · obtain ⟨rfl, -⟩ := Prod.mk.inj (hother.symm.trans heq)
        exact .of_idle (hsame.trans hidle) (h.idle hidle)
  | analyzerInfo =>
    obtain ⟨rfl, -⟩ := Prod.mk.inj (Option.some.inj taken)
    exact ⟨h.idle, h.crash, h.malicious, h.flag, h.stop⟩
  | crashTimer i =>
    obtain ⟨rfl, -⟩ := Prod.mk.inj (Option.some.inj taken)
    refine ⟨h.idle, fun hrunning hhonest ↦ ?_, h.malicious, h.flag, h.stop⟩
    rw [Notify.outstanding_fire]
    exact h.crash hrunning hhonest
  | maliciousTimer i =>
    obtain ⟨rfl, -⟩ := Prod.mk.inj (Option.some.inj taken)
    refine ⟨h.idle, h.crash, fun hrunning hhonest ↦ ?_, h.flag, h.stop⟩
    rw [Notify.outstanding_fire]
    exact h.malicious hrunning hhonest
  | stop =>
    simp only [step] at taken
    split at taken
    · obtain ⟨rfl, -⟩ := Prod.mk.inj (Option.some.inj taken)
      exact separated_reset _
    · obtain ⟨rfl, -⟩ := Prod.mk.inj (Option.some.inj taken)
      exact h
  | crash =>
    simp only [step] at taken
    split at taken
    · obtain ⟨rfl, -⟩ := Prod.mk.inj (Option.some.inj taken)
      exact separated_reset _
    · obtain ⟨rfl, -⟩ := Prod.mk.inj (Option.some.inj taken)
      exact h
  | malicious =>
    simp only [step] at taken
    split at taken
    case isTrue hready =>
      obtain ⟨rfl, -⟩ := Prod.mk.inj (Option.some.inj taken)
      obtain ⟨hrunning, hready⟩ := Bool.and_eq_true_iff.1 hready
      -- in an honest run there is no permit, so the run was entered in another mode
      have hdishonest : isHonest s.entered ≠ true := fun hhonest ↦
        Bool.false_ne_true ((h.isolated hrunning hhonest).malicious.symm.trans hready)
      exact ⟨fun hidle ↦ absurd (hrunning.symm.trans hidle) (by decide), fun _ hhonest ↦ absurd hhonest hdishonest,
        fun _ hhonest ↦ absurd hhonest hdishonest, fun _ hhonest ↦ absurd hhonest hdishonest,
        fun _ hhonest ↦ absurd hhonest hdishonest⟩
    case isFalse =>
      obtain ⟨rfl, -⟩ := Prod.mk.inj (Option.some.inj taken)
      exact h

/-- In every history of a node in which honest runs are entered only while nothing is outstanding, a run that
was entered in an honest mode does not crash, does not turn malicious and is stopped by its own `Reset` only. -/
theorem isolated_of_undisturbed {protocolPhases : List (UInt8 × Bytes)}
    {run : List (Transition ActuatorRuns Event (List InteractiveMessage))}
    (h : IsRun step (new protocolPhases) run s) (hundisturbed : ∀ t ∈ run, Undisturbed t) :
    s.node.running = true → isHonest s.entered = true → Isolated s :=
  (IsRun.invariant_of_forall Separated (separated_new protocolPhases)
    (fun _ hseparated hundisturbed taken ↦ separated_of_step hseparated hundisturbed taken) h
    hundisturbed).isolated

instance Undisturbed.decidable (t : Transition ActuatorRuns Event (List InteractiveMessage)) :
    Decidable (Undisturbed t) :=
  match t with
  | ⟨_, .controller message, _, _⟩ =>
    match message with
    | .protocolStart => inferInstanceAs (Decidable (_ → _ → _ ∧ _ ∧ _))
    | .componentInfo _ | .testItem _ | .startTest | .completedTest _ | .crashNode _ _ | .dishonestNode _
    | .joinConsensus | .joinConsensusSuccess | .maliciousTestPreparation | .consensusPhase _ _
    | .configureConsensusNode _ | .configureConsensusNodeSuccess _ | .consensusNodeMode _
    | .consensusNodeModeSuccess _ | .reset | .resetSuccess _ | .makeAConsensusRequest _
    | .makeConsensusRequests _ => inferInstanceAs (Decidable True)
  | ⟨_, .analyzerInfo, _, _⟩ => inferInstanceAs (Decidable True)
  | ⟨_, .crashTimer _, _, _⟩ => inferInstanceAs (Decidable True)
  | ⟨_, .maliciousTimer _, _, _⟩ => inferInstanceAs (Decidable True)
  | ⟨_, .stop, _, _⟩ => inferInstanceAs (Decidable True)
  | ⟨_, .crash, _, _⟩ => inferInstanceAs (Decidable True)
  | ⟨_, .malicious, _, _⟩ => inferInstanceAs (Decidable True)

/-- A node crashes in its first run and is honest in the second one. -/
def crashThenHonest : List Event :=
  [.analyzerInfo, .controller (.consensusNodeMode (.crash 1000)), .controller .protocolStart, .crashTimer 0, .crash,
    .controller (.configureConsensusNode .other), .controller .protocolStart, .controller .reset]

theorem isolated_crashThenHonest :
    (final step (new []) crashThenHonest).run = 2 ∧ (final step (new []) crashThenHonest).stop.permit = [2] ∧
      Isolated (final step (new []) crashThenHonest) :=
  ⟨by decide +kernel, by decide +kernel, isolated_of_undisturbed (IsRun.of_isSome (by decide +kernel))
    (by decide +kernel) (by decide +kernel) (by decide +kernel)⟩

/-- The first run is stopped before its crash timer fires; it fires in the second run, which is honest. -/
def lateCrash : List Event :=
  [.analyzerInfo, .controller (.consensusNodeMode (.crash 1000)), .controller .protocolStart, .controller .reset, .stop,
    .controller (.configureConsensusNode .other), .controller .protocolStart, .crashTimer 0]

/-- The timer of the first run makes the honest node leave its second run through the crash branch. -/
theorem not_isolated_lateCrash :
    ∃ run, IsRun step (new []) run (final step (new []) lateCrash) ∧
      (final step (new []) lateCrash).node.running = true ∧
      isHonest (final step (new []) lateCrash).entered = true ∧
      (final step (new []) lateCrash).crash.permit = [1] ∧ (final step (new []) lateCrash).run = 2 ∧
      (((final step (new []) lateCrash).step .crash).map fun result ↦ (result.1.node.running, result.2)) =
        some (false, [.resetSuccess (.honest .other)]) ∧
      ¬ Isolated (final step (new []) lateCrash) := by
  refine ⟨_, IsRun.of_isSome (by decide +kernel), by decide +kernel, by decide +kernel, by decide +kernel,
    by decide +kernel, by decide +kernel, fun hisolated ↦ ?_⟩
  exact absurd hisolated.crash (by decide +kernel)

end ActuatorRuns

end BFTDiagnosis.Components
