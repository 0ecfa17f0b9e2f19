import BFTDiagnosis.Analyzer.Analyzer
import BFTDiagnosis.Lib.Notify
import BFTDiagnosis.Lib.Run

/-!
# The timers of the analyzer

`StartTest` spawns a timer that notifies `completed_test_notify` when the time of the test is over, and for a
performance test a loop that notifies `internal_notify` at every interval until then. Nothing stops a timer,
all timers share the two notifications, and the message loop looks at the test item that is current when it
takes a notification. A test item is reported for the timer that was started for it as long as no test is
started, and no other item configured, while a timer of an earlier start is outstanding.
-/

namespace BFTDiagnosis.Analyzer

open Components Utils

/-- The analyzer with `completed_test_notify`, where a timer is labelled with the item it was started for, the
number of running interval loops, and whether `internal_notify` has a permit. -/
structure Timed where
  analyzer : Analyzer
  completedTest : Notify TestItem
  intervals : ℕ
  internal : Bool

namespace Timed

/-- What the message loop and the spawned tasks react to. -/
inductive Event where
  | controller (message : ControllerMessage) (walks : Walks)
  | consensusNode (originPeerId : PeerId) (data : ConsensusData)
  /-- An interval loop notifies `internal_notify`. -/
  | tick
  /-- An interval loop has seen that its timer has fired. -/
  | intervalEnd
  /-- One of the timers fires. -/
  | timer (i : ℕ)
  /-- The branch of `internal_notify`. -/
  | internal (walks : Walks)
  /-- The branch of `completed_test_notify`. -/
  | completed (walks : Walks)

def new (performanceTestInternal : UInt64) : Timed where
  analyzer := Analyzer.new performanceTestInternal
  completedTest := .new
  intervals := 0
  internal := false

/-! ## Timers -/

def performanceTestTimerStart (s : Timed) (item : TestItem) : Timed :=
  { s with completedTest := s.completedTest.start item, intervals := s.intervals + 1 }

def crashTestTimerStart (s : Timed) (item : TestItem) : Timed :=
  { s with completedTest := s.completedTest.start item }

def maliciousTestTimerStart (s : Timed) (item : TestItem) : Timed :=
  { s with completedTest := s.completedTest.start item }

/-- The end of the handler of `StartTest`: the timer of the current test item is started, if there is one. -/
def timerStart (s : Timed) : Timed :=
  match s.analyzer.currentTestItem with
  | some testItem =>
    match testItem with
    | .throughput | .latency | .throughputAndLatency | .scalability .. => s.performanceTestTimerStart testItem
    | .crash .. => s.crashTestTimerStart testItem
    | .malicious _ => s.maliciousTestTimerStart testItem
  | none => s

variable (X : Externals)

/-- A turn of the message loop of the analyzer. -/
def handle (s : Timed) (event : Analyzer.Event) : Option (Timed × Answer) :=
  (s.analyzer.messageHandler X event).map fun result ↦ ({ s with analyzer := result.1 }, result.2)

/-- One turn of the message loop, or what a spawned task does. A branch without a permit is not taken. -/
def step (s : Timed) : Event → Option (Timed × Answer)
  | .controller (.startTest number) walks =>
    (s.handle X ⟨.controller (.startTest number), walks⟩).map fun result ↦ (result.1.timerStart, result.2)
  | .controller message walks => s.handle X ⟨.controller message, walks⟩
  | .consensusNode originPeerId data => s.handle X ⟨.consensusNode originPeerId data, ⟨[], [], [], [], []⟩⟩
  | .tick => some ({ s with internal := s.internal || decide (0 < s.intervals) }, ⟨[], none⟩)
  | .intervalEnd => some ({ s with intervals := s.intervals - 1 }, ⟨[], none⟩)
  | .timer i => some ({ s with completedTest := s.completedTest.fire i }, ⟨[], none⟩)
  | .internal walks =>
    if s.internal then { s with internal := false }.handle X ⟨.internal, walks⟩ else some (s, ⟨[], none⟩)
  | .completed walks =>
    if s.completedTest.ready then
      { s with completedTest := s.completedTest.notified }.handle X ⟨.completed, walks⟩
    else some (s, ⟨[], none⟩)

/-! ## Completions -/

/-- When the branch of `completed_test_notify` may run, there is a current test item, every timer behind the
permit was started for it, `next_test` finds it, and it is the item that the branch reports. -/
def CompletionMatches (s : Timed) : Prop :=
  s.completedTest.ready = true →
    ∃ item, s.analyzer.currentTestItem = some item ∧ (∀ started ∈ s.completedTest.permit, started = item) ∧
      s.analyzer.nextTest = some (s.analyzer.clearTestItem, item) ∧
      ∀ walks s' answer, s.step X (.completed walks) = some (s', answer) → answer.completedTest = some item

/-- A test item is configured when no timer is outstanding, or it is the current one already; a test is started
when no timer is outstanding, or there is nothing to start. -/
def Separate (t : Transition Timed Event Answer) : Prop :=
  match t.event with
  | .controller (.testItem item) _ =>
    t.pre.completedTest.outstanding = 0 ∨ t.pre.analyzer.currentTestItem = some item
  | .controller (.startTest _) _ =>
    t.pre.completedTest.outstanding = 0 ∨ t.pre.analyzer.currentTestItem = none
  | _ => True

/-- At most one timer is outstanding, and it was started for the current test item. -/
def Single (s : Timed) : Prop :=
  s.completedTest.outstanding = 0 ∨
    ∃ item, s.completedTest.outstanding = {item} ∧ s.analyzer.currentTestItem = some item

variable {X} {s s' : Timed}

theorem single_new (performanceTestInternal : UInt64) : Single (new performanceTestInternal) := .inl rfl

theorem handle_cases {event : Analyzer.Event} {answer : Answer} (h : s.handle X event = some (s', answer)) :
    ∃ a, HandlerEffect X s.analyzer event.walks event.message a answer ∧ s' = { s with analyzer := a } := by
  obtain ⟨⟨a, answer'⟩, hhandled, heq⟩ := Option.map_eq_some_iff.1 h
  obtain ⟨rfl, rfl⟩ := Prod.mk.inj heq
  exact ⟨a, messageHandler_effect hhandled, rfl⟩

/-- A computation keeps the current test item. -/
theorem currentTestItem_computeAndAnalyse {a a₁ : Analyzer} {walks : Walks} {rows : List Row}
    (h : a.computeAndAnalyse X walks = some (a₁, rows)) : a₁.currentTestItem = a.currentTestItem := by
  rcases computeAndAnalyse_cases h with ⟨-, rfl, -⟩ | ⟨item, w, -, -, rfl⟩ <;> rfl

/-- Starting the timer adds one for the current test item, if there is one. -/
theorem timerStart_cases (s : Timed) :
    (s.analyzer.currentTestItem = none ∧ s.timerStart = s) ∨
      ∃ item, s.analyzer.currentTestItem = some item ∧ s.timerStart.analyzer = s.analyzer ∧
        s.timerStart.completedTest = s.completedTest.start item := by
  unfold timerStart
  cases hitem : s.analyzer.currentTestItem with
  | none => exact .inl ⟨rfl, rfl⟩
  | some item => cases item <;> exact .inr ⟨_, rfl, rfl, rfl⟩

/-- A turn that keeps the current test item and the outstanding timers keeps the invariant. -/
theorem Single.congr (h : Single s) (houtstanding : s'.completedTest.outstanding = s.completedTest.outstanding)
    (hitem : s'.analyzer.currentTestItem = s.analyzer.currentTestItem) : Single s' := by
  unfold Single
  rw [houtstanding, hitem]
  exact h

/-- The branch of `completed_test_notify` leaves no timer outstanding. -/
theorem single_completed {walks : Walks} {answer : Answer} (hsingle : Single s)
    (hready : s.completedTest.ready = true)
    (h : { s with completedTest := s.completedTest.notified }.handle X ⟨.completed, walks⟩ = some (s', answer)) :
    Single s' := by
  obtain ⟨a, -, rfl⟩ := handle_cases h
  rcases hsingle with hnone | ⟨item, hone, -⟩
  · left
    rw [Notify.outstanding_notified, Multiset.coe_eq_zero]
    exact (Notify.outstanding_eq_zero_iff.1 hnone).1
  · exact .inl (Notify.outstanding_notified_of_singleton hone hready)

theorem single_of_step {event : Event} {answer : Answer} (hsingle : Single s)
    (hseparate : Separate ⟨s, event, answer, s'⟩) (h : step X s event = some (s', answer)) : Single s' := by
  cases event with
  | controller message walks =>
    cases message with
    | testItem item =>
      obtain ⟨a, heffect, rfl⟩ := handle_cases h
      cases heffect
      rcases hseparate with hnone | hcurrent
      · exact .inl hnone
      · exact hsingle.congr rfl hcurrent.symm
    | crashNode count peerIdBytes =>
      obtain ⟨a, heffect, rfl⟩ := handle_cases h
      cases heffect
      exact hsingle.congr rfl rfl
    | startTest number =>
      rw [step] at h
      obtain ⟨⟨s₁, answer₁⟩, hhandled, heq⟩ := Option.map_eq_some_iff.1 h
      obtain ⟨rfl, rfl⟩ := Prod.mk.inj heq
      obtain ⟨a, heffect, rfl⟩ := handle_cases hhandled
      cases heffect
      rcases timerStart_cases _ with ⟨-, hsame⟩ | ⟨item, hcurrent, hanalyzer, hstarted⟩
      · rw [hsame]
        exact hsingle.congr rfl rfl
      · -- a timer is started for the current test item, and it is the only one
        rcases hseparate with hnone | habsent
        · refine .inr ⟨item, ?_, by rw [hanalyzer]; exact hcurrent⟩
          rw [hstarted, Notify.outstanding_start]
          exact congrArg (item ::ₘ ·) hnone
        · exact absurd (hcurrent.symm.trans habsent) (Option.some_ne_none item)
  | consensusNode originPeerId data =>
    obtain ⟨a, heffect, rfl⟩ := handle_cases h
    cases heffect <;> exact hsingle.congr rfl rfl
  | tick =>
    obtain ⟨rfl, -⟩ := Prod.mk.inj (Option.some.inj h)
    exact hsingle.congr rfl rfl
  | intervalEnd =>
    obtain ⟨rfl, -⟩ := Prod.mk.inj (Option.some.inj h)
    exact hsingle.congr rfl rfl
  | timer i =>
    obtain ⟨rfl, -⟩ := Prod.mk.inj (Option.some.inj h)
    exact hsingle.congr (Notify.outstanding_fire _ i) rfl
  | internal walks =>
    simp only [step] at h
    split at h
    · obtain ⟨a, heffect, rfl⟩ := handle_cases h
      cases heffect with
      | internal hcomputed => exact hsingle.congr rfl (currentTestItem_computeAndAnalyse hcomputed)
    · obtain ⟨rfl, -⟩ := Prod.mk.inj (Option.some.inj h)
      exact hsingle
  | completed walks =>
    simp only [step] at h
    split at h
    case isTrue hready => exact single_completed hsingle hready h
    case isFalse =>
      obtain ⟨rfl, -⟩ := Prod.mk.inj (Option.some.inj h)
      exact hsingle

/-- With a single timer for the current test item, the branch of `completed_test_notify` reports that item. -/
theorem Single.completionMatches (h : Single s) : CompletionMatches X s := by
  intro hready
  rcases h with hnone | ⟨item, hone, hcurrent⟩
  · exact absurd (Notify.outstanding_eq_zero_iff.1 hnone).2 (Notify.ready_iff.1 hready)
  · have hstarted : ∀ started ∈ s.completedTest.permit, started = item := fun started hmem ↦
      Multiset.mem_singleton.1 (hone ▸ Notify.mem_outstanding_of_mem_permit hmem)
    refine ⟨item, hcurrent, hstarted, by rw [nextTest, hcurrent]; rfl, ?_⟩
    intro walks s' answer htaken
    rw [step, if_pos hready] at htaken
    obtain ⟨a, heffect, -⟩ := handle_cases htaken
    cases heffect with
    | completed hcomputed hreported =>
      rw [currentTestItem_computeAndAnalyse hcomputed] at hreported
      exact hreported.symm.trans hcurrent

/-- In every run in which items are configured and tests are started only when no timer of an earlier start is
outstanding, a completion is the one of the item that its timer was started for. -/
theorem completionMatches_of_separate {performanceTestInternal : UInt64}
    {run : List (Transition Timed Event Answer)} (h : IsRun (step X) (new performanceTestInternal) run s)
    (hseparate : ∀ t ∈ run, Separate t) : CompletionMatches X s :=
  (IsRun.invariant_of_forall Single (single_new performanceTestInternal)
    (fun _ hsingle hseparate taken ↦ single_of_step hsingle hseparate taken) h hseparate).completionMatches

instance Separate.decidable (t : Transition Timed Event Answer) : Decidable (Separate t) :=
  match t with
  | ⟨_, .controller (.testItem _) _, _, _⟩ => inferInstanceAs (Decidable (_ ∨ _))
  | ⟨_, .controller (.startTest _) _, _, _⟩ => inferInstanceAs (Decidable (_ ∨ _))
  | ⟨_, .controller (.crashNode _ _) _, _, _⟩ => inferInstanceAs (Decidable True)
  | ⟨_, .consensusNode _ _, _, _⟩ => inferInstanceAs (Decidable True)
  | ⟨_, .tick, _, _⟩ => inferInstanceAs (Decidable True)
  | ⟨_, .intervalEnd, _, _⟩ => inferInstanceAs (Decidable True)
  | ⟨_, .timer _, _, _⟩ => inferInstanceAs (Decidable True)
  | ⟨_, .internal _, _, _⟩ => inferInstanceAs (Decidable True)
  | ⟨_, .completed _, _, _⟩ => inferInstanceAs (Decidable True)

/-- Two tests one after the other; the timer of the second one has just fired. -/
def twoTests : List Event :=
  [.controller (.testItem .throughput) ⟨[], [], [], [], []⟩, .controller (.startTest 1) ⟨[], [], [], [], []⟩,
    .tick, .internal ⟨[], [], [], [], []⟩, .timer 0, .intervalEnd, .completed ⟨[], [], [], [], []⟩,
    .controller (.testItem .latency) ⟨[], [], [], [], []⟩, .controller (.startTest 2) ⟨[], [], [], [], []⟩,
    .timer 0]

theorem completionMatches_twoTests :
    (final (step .transparent) (new 10) twoTests).completedTest.ready = true ∧
      CompletionMatches .transparent (final (step .transparent) (new 10) twoTests) :=
  ⟨by decide +kernel, completionMatches_of_separate (IsRun.of_isSome (by decide +kernel)) (by decide +kernel)⟩

/-- A test that is started twice; the second timer fires after the first completion. -/
def startedTwice : List Event :=
  [.controller (.testItem (.crash 0 1)) ⟨[], [], [], [], []⟩, .controller (.startTest 1) ⟨[], [], [], [], []⟩,
    .controller (.startTest 2) ⟨[], [], [], [], []⟩, .timer 0, .completed ⟨[], [], [], [], []⟩, .timer 0]

/-- The permit of the second timer finds no current test item, so that `next_test` panics. -/
theorem not_completionMatches_startedTwice :
    ∃ run, IsRun (step .transparent) (new 10) run (final (step .transparent) (new 10) startedTwice) ∧
      (final (step .transparent) (new 10) startedTwice).completedTest.ready = true ∧
      (final (step .transparent) (new 10) startedTwice).analyzer.nextTest.isNone = true ∧
      ¬ CompletionMatches .transparent (final (step .transparent) (new 10) startedTwice) := by
  have hready : (final (step .transparent) (new 10) startedTwice).completedTest.ready = true := by
    decide +kernel
  have hnone : (final (step .transparent) (new 10) startedTwice).analyzer.nextTest.isNone = true := by
    decide +kernel
  refine ⟨_, IsRun.of_isSome (by decide +kernel), hready, hnone, fun hmatches ↦ ?_⟩
  obtain ⟨item, -, -, hnext, -⟩ := hmatches hready
  rw [hnext] at hnone
  cases hnone

end Timed

end BFTDiagnosis.Analyzer
