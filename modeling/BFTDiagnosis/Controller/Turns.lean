import BFTDiagnosis.Controller.ResetBarrier
import Mathlib.Data.Finset.Option

/-!
# Turns that prepare a test

A turn of the event loop calls `next_test`, or configures on a command, or prepares nothing: then it sends no
test item and asks no node to take part or to change its mode. What the analyzer was told last, and whether it
has reported the completion of that, is read off the run.
-/

namespace BFTDiagnosis.Controller

open Components Word

variable {X : Externals} {walk : Walk PeerId}

/-! ## Turns that prepare nothing -/

/-- The messages that announce a test or change who takes part in it. -/
def Action.prepares : Action → Bool
  | .sendMessage _ (.testItem _) => true
  | .sendMessage _ (.configureConsensusNode _) => true
  | .sendMessage _ .joinConsensus => true
  | .sendMessage _ (.consensusNodeMode (.crash _)) => true
  | .sendMessage _ (.consensusNodeMode (.dishonest _)) => true
  | _ => false

/-- The commands that configure the analyzer or the nodes. -/
def isConfiguring : Input → Bool
  | .command .configureAnalyzer => true
  | .command .configureConsensusNode => true
  | _ => false

/-- The peer that an answer admits to the test. -/
def admittedPeer : Route → Option PeerId
  | .node peerId (.configureConsensusNodeSuccess _) => some peerId
  | .node peerId (.consensusNodeModeSuccess (.honest _)) => some peerId
  | _ => none

/-- The peer that has joined the test. -/
def joinedPeer (c : Controller) : Route → Option PeerId
  | .node peerId .joinConsensusSuccess => if c.feedbackScalabilityNode = peerId then some peerId else none
  | _ => none

/-- A turn that prepares nothing: all it does to the preparation is to take note of nodes. -/
structure Unprepared (c : Controller) (route : Route) (c' : Controller) (actions : List Action) : Prop where
  sent : ∀ action ∈ actions, action.prepares = false
  testItems : c'.testItems = c.testItems
  nextTestItem : c'.nextTestItem = c.nextTestItem
  scalabilityCandidates : c'.optionalScalabilityConsensusNodes = c.optionalScalabilityConsensusNodes
  feedbackScalability : c'.feedbackScalabilityNode = c.feedbackScalabilityNode
  crashCandidates : c'.optionalCrashConsensusNodes = c.optionalCrashConsensusNodes ∪ (admittedPeer route).toFinset
  nodes : c'.consensusNodes = c.consensusNodes ∪ (admittedPeer route).toFinset ∪ (c.joinedPeer route).toFinset

theorem prepares_of_isCalm {action : Action} (h : action.isCalm = true) : action.prepares = false := by
  cases action with
  | sendMessage receiver message =>
    cases message <;> first | rfl | cases h
  | publish => rfl
  | conspireRequestSendTimerStart => rfl

theorem prepares_sendMessages {receivers : List PeerId} {message : InteractiveMessage}
    (h : ∀ receiver, (Action.sendMessage receiver message).prepares = false) :
    ∀ action ∈ sendMessages receivers message, action.prepares = false := by
  intro action haction
  obtain ⟨receiver, -, rfl⟩ := List.mem_map.1 haction
  exact h receiver

theorem prepares_start (c : Controller) (walk : Walk PeerId) : ∀ action ∈ c.start walk, action.prepares = false :=
  List.forall_mem_append.2 ⟨prepares_sendMessages fun _ ↦ rfl, List.forall_mem_singleton.2 rfl⟩

/-- A turn that does not touch the preparation at all. -/
theorem Unprepared.of_same {c c' : Controller} {route : Route} {actions : List Action}
    (hsent : ∀ action ∈ actions, action.prepares = false) (hadmitted : admittedPeer route = none)
    (hjoined : c.joinedPeer route = none) (htestItems : c'.testItems = c.testItems)
    (hnext : c'.nextTestItem = c.nextTestItem)
    (hscalability : c'.optionalScalabilityConsensusNodes = c.optionalScalabilityConsensusNodes)
    (hfeedback : c'.feedbackScalabilityNode = c.feedbackScalabilityNode)
    (hcrash : c'.optionalCrashConsensusNodes = c.optionalCrashConsensusNodes)
    (hnodes : c'.consensusNodes = c.consensusNodes) : Unprepared c route c' actions where
  sent := hsent
  testItems := htestItems
  nextTestItem := hnext
  scalabilityCandidates := hscalability
  feedbackScalability := hfeedback
  crashCandidates := by
    rw [hadmitted, hcrash]
    exact (Finset.union_empty _).symm
  nodes := by
    rw [hadmitted, hjoined, hnodes]
    exact ((Finset.union_empty _).trans (Finset.union_empty _)).symm

theorem joinedPeer_of_isUnusedFeedback (c : Controller) {peerId : PeerId} {message : InteractiveMessage}
    (h : isUnusedFeedback message = true) :
    admittedPeer (.node peerId message) = none ∧ c.joinedPeer (.node peerId message) = none := by
  cases message with
  | consensusNodeModeSuccess mode => cases mode <;> first | exact ⟨rfl, rfl⟩ | cases h
  | joinConsensusSuccess | configureConsensusNodeSuccess => cases h
  | _ => exact ⟨rfl, rfl⟩

theorem joinedPeer_of_expectedPeer {c : Controller} {peerId other : PeerId} {message : InteractiveMessage}
    (h : c.expectedPeer message = some other) :
    admittedPeer (.node peerId message) = none ∧ c.joinedPeer (.node peerId message) = none := by
  cases message with
  | consensusNodeModeSuccess mode => cases mode <;> first | exact ⟨rfl, rfl⟩ | cases h
  | _ => cases h

theorem Unprepared.of_admitted {c c' : Controller} {route : Route} {actions : List Action} {peerId : PeerId}
    (hsent : ∀ action ∈ actions, action.prepares = false) (hadmitted : admittedPeer route = some peerId)
    (hjoined : c.joinedPeer route = none) (htestItems : c'.testItems = c.testItems)
    (hnext : c'.nextTestItem = c.nextTestItem)
    (hscalability : c'.optionalScalabilityConsensusNodes = c.optionalScalabilityConsensusNodes)
    (hfeedback : c'.feedbackScalabilityNode = c.feedbackScalabilityNode)
    (hcrash : c'.optionalCrashConsensusNodes = insert peerId c.optionalCrashConsensusNodes)
    (hnodes : c'.consensusNodes = insert peerId c.consensusNodes) : Unprepared c route c' actions where
  sent := hsent
  testItems := htestItems
  nextTestItem := hnext
  scalabilityCandidates := hscalability
  feedbackScalability := hfeedback
  crashCandidates := by rw [hadmitted, hcrash, Option.toFinset_some, Finset.union_singleton]
  nodes := by
    rw [hadmitted, hjoined, hnodes, Option.toFinset_some, Finset.union_singleton]
    exact (Finset.union_empty _).symm

theorem unprepared_of_step {c c' : Controller} {event : Event} {actions : List Action}
    (h : step X c event = some (c', actions)) (hcommand : isConfiguring event.input = false)
    (hcall : ∀ c₁, ¬ CallsNextTest c event c₁) : Unprepared c (c.route event.input) c' actions := by
  have heffect := step_effect h
  generalize hroute : c.route event.input = route at heffect
  cases heffect with
  | completedNext completed reset => exact absurd (.completed hroute completed reset) (hcall _)
  | resetNext kind counted summed complete => exact absurd (.reset hroute kind counted summed complete) (hcall _)
  | crashResetNext counted summed notAll complete =>
    exact absurd (.crashReset hroute counted summed notAll complete) (hcall _)
  | configureExhausted | configureAnalyzer | configureNodes | configureFirst | configureNobody =>
    rw [input_of_route_command hroute] at hcommand
    cases hcommand
  | calmCommand kind calm =>
    exact .of_same (fun action haction ↦ prepares_of_isCalm (calm action haction)) rfl rfl rfl rfl rfl rfl rfl rfl
  | conspireRequest calm =>
    exact .of_same (fun action haction ↦ prepares_of_isCalm (calm action haction)) rfl rfl rfl rfl rfl rfl rfl rfl
  | startTestCommand => exact .of_same (List.forall_mem_singleton.2 rfl) rfl rfl rfl rfl rfl rfl rfl rfl
  | protocolStartCommand => exact .of_same (prepares_sendMessages fun _ ↦ rfl) rfl rfl rfl rfl rfl rfl rfl rfl
  | completedReset completed =>
    obtain ⟨middle, fields, rfl⟩ := completeTest_frame completed
    exact .of_same (prepares_sendMessages fun _ ↦ rfl) rfl rfl rfl rfl rfl rfl rfl rfl
  | @joined peerId peerId_eq =>
    have hjoined : c.joinedPeer (.node peerId .joinConsensusSuccess) = some peerId := if_pos peerId_eq
    refine ⟨prepares_start _ event.walk, rfl, rfl, rfl, rfl, (Finset.union_empty _).symm, ?_⟩
    rw [hjoined, Option.toFinset_some, Finset.union_singleton]
    exact congrArg (insert peerId) (Finset.union_empty _).symm
  | notJoined peerId_ne =>
    exact .of_same (List.forall_mem_nil _) rfl (if_neg peerId_ne) rfl rfl rfl rfl rfl rfl
  | admitted | admittedFirst | admittedOther =>
    exact .of_admitted (List.forall_mem_nil _) rfl rfl rfl rfl rfl rfl rfl rfl
  | admittedLast => exact .of_admitted (prepares_start _ event.walk) rfl rfl rfl rfl rfl rfl rfl rfl
  | allCrashed =>
    refine .of_same ?_ rfl rfl rfl rfl rfl rfl rfl rfl
    intro action haction
    obtain ⟨receiver, -, rfl⟩ := List.mem_map.1 haction
    rfl
  | conspiredLast =>
    exact .of_same (List.forall_mem_append.2 ⟨prepares_start _ event.walk, List.forall_mem_singleton.2 rfl⟩)
      rfl rfl rfl rfl rfl rfl rfl rfl
  | expected peerId_eq =>
    exact .of_same (prepares_start _ event.walk) (joinedPeer_of_expectedPeer peerId_eq).1
      (joinedPeer_of_expectedPeer peerId_eq).2 rfl rfl rfl rfl rfl rfl
  | unexpected other_eq =>
    exact .of_same (List.forall_mem_nil _) (joinedPeer_of_expectedPeer other_eq).1
      (joinedPeer_of_expectedPeer other_eq).2 rfl rfl rfl rfl rfl rfl
  | unusedFeedback kind =>
    exact .of_same (List.forall_mem_nil _) (joinedPeer_of_isUnusedFeedback c kind).1
      (joinedPeer_of_isUnusedFeedback c kind).2 rfl rfl rfl rfl rfl rfl
  | analyzerInfo | unusedReport | phase | reset | crashReset | conspired | dropped | discovered =>
    exact .of_same (List.forall_mem_nil _) rfl rfl rfl rfl rfl rfl rfl rfl

/-! ## What the analyzer was told last -/

/-- The item that the analyzer was told last, and whether the test has been completed since. -/
structure Announcement where
  item : Option TestItem
  completed : Bool

/-- The item whose completion the analyzer reports. -/
def completedItem (t : Transition Controller Event (List Action)) : Option TestItem :=
  match t.pre.route t.event.input with
  | .analyzer (.completedTest item) => some item
  | _ => none

theorem completedItem_eq_some_iff {t : Transition Controller Event (List Action)} {item : TestItem} :
    completedItem t = some item ↔ t.pre.route t.event.input = .analyzer (.completedTest item) := by
  unfold completedItem
  constructor
  · intro h
    split at h
    case h_1 item' hroute => rw [hroute, Option.some.inj h]
    case h_2 => cases h
  · intro hroute
    rw [hroute]

/-- The announcement after one more turn. What a turn announces comes after what it has been told. -/
def Announcement.next (announcement : Announcement) (t : Transition Controller Event (List Action)) : Announcement :=
  match (announcedItems t.pre.analyzerId t.out).getLast? with
  | some item => ⟨some item, false⟩
  | none => ⟨announcement.item, announcement.completed || (completedItem t).isSome⟩

def announcement (run : Run) : Announcement := run.foldl Announcement.next ⟨none, false⟩

theorem announcement_concat (run : Run) (t : Transition Controller Event (List Action)) :
    announcement (run ++ [t]) = (announcement run).next t := by
  rw [announcement, List.foldl_append]
  rfl

theorem Announcement.next_of_some {announcement : Announcement} {t : Transition Controller Event (List Action)}
    {item : TestItem} (h : (announcedItems t.pre.analyzerId t.out).getLast? = some item) :
    announcement.next t = ⟨some item, false⟩ := by
  rw [next, h]

theorem Announcement.next_of_nil {announcement : Announcement} {t : Transition Controller Event (List Action)}
    (h : announcedItems t.pre.analyzerId t.out = []) :
    announcement.next t = ⟨announcement.item, announcement.completed || (completedItem t).isSome⟩ := by
  rw [next, h]
  rfl

/-- The analyzer completes the item that it was told last, and the next test is chosen after that. -/
structure InOrder (before : Run) (t : Transition Controller Event (List Action)) : Prop where
  completed : ∀ item ∈ completedItem t, (announcement before).item = some item
  called : callsNextTest t = true → (announcement before).completed = true ∨ (completedItem t).isSome = true

instance InOrder.decidable (before : Run) (t : Transition Controller Event (List Action)) :
    Decidable (InOrder before t) :=
  decidable_of_iff ((∀ item ∈ completedItem t, (announcement before).item = some item) ∧
    (callsNextTest t = true → (announcement before).completed = true ∨ (completedItem t).isSome = true))
    ⟨fun h ↦ ⟨h.1, h.2⟩, fun h ↦ ⟨h.completed, h.called⟩⟩

theorem announcedItems_of_prepares {analyzerId : PeerId} {actions : List Action}
    (h : ∀ action ∈ actions, action.prepares = false) : announcedItems analyzerId actions = [] := by
  apply List.filterMap_eq_nil_iff.2
  intro action haction
  have hprepares := h action haction
  cases action with
  | sendMessage receiver message => cases message <;> first | rfl | cases hprepares
  | publish => rfl
  | conspireRequestSendTimerStart => rfl

/-- A turn takes an item from the plan. -/
def takesItem (t : Transition Controller Event (List Action)) : Bool :=
  t.pre.testItems.length != t.post.testItems.length

/-- Configuring takes an item from the plan, unless it is exhausted. -/
theorem Configured.length_lt {c c' : Controller} {actions : List Action} (h : Configured walk c c' actions)
    (hne : c.testItems ≠ []) : c'.testItems.length < c.testItems.length := by
  induction h with
  | exhausted plan => exact absurd plan hne
  | plain plan => simp [plan]
  | scalability plan => simp [plan, configureFirstNode]
  | @skipped c c' rest count max increment actions plan nobody next ih =>
    rcases List.eq_nil_or_concat rest with rfl | ⟨rest', item, hconcat⟩
    · cases next with
      | exhausted => simp [plan]
      | plain plan' | scalability plan' | skipped plan' =>
        simp only [announce_testItems] at plan'
        exact absurd plan'.symm (List.append_ne_nil_of_right_ne_nil _ (List.cons_ne_nil _ _))
    · have hlt := ih (by simp [hconcat])
      simp only [announce_testItems] at hlt
      rw [plan, List.length_append, List.length_singleton]
      omega

/-- The item that is configured is the one that is announced last. -/
theorem Configured.nextTestItem_eq {c c' : Controller} {actions : List Action} (h : Configured walk c c' actions) :
    c'.nextTestItem = none ∨ (announcedItems c.analyzerId actions).getLast? = c'.nextTestItem := by
  induction h with
  | exhausted => exact .inl rfl
  | @plain c rest item plan kind =>
    rw [announcedItems_cons_testItem, announcedItems_configureNodes]
    exact .inr (announce_nextTestItem c item rest).symm
  | @scalability c rest count max increment peerId plan chosen =>
    rw [announcedItems_cons_testItem, announcedItems_cons_of_none rfl, announcedItems_idleNodes]
    exact .inr rfl
  | @skipped c c' rest count max increment actions plan nobody next ih =>
    rcases ih with hnone | hlast
    · exact .inl hnone
    · cases hitem : c'.nextTestItem with
      | none => exact .inl rfl
      | some item =>
        right
        have hannounced : (announcedItems c.analyzerId actions).getLast? = some item := hlast.trans hitem
        rw [announcedItems_cons_testItem, List.getLast?_cons, hannounced]
        rfl

/-- The items that configuring announces are scalability items and the one that is configured. -/
theorem Configured.mem_announcedItems {c c' : Controller} {actions : List Action} {item : TestItem}
    (h : Configured walk c c' actions) (hitem : item ∈ announcedItems c.analyzerId actions) :
    isScalability item = true ∨ c'.nextTestItem = some item := by
  induction h with
  | exhausted => cases hitem
  | @plain c rest item' plan kind =>
    rw [announcedItems_cons_testItem, announcedItems_configureNodes, List.mem_singleton] at hitem
    rw [hitem]
    exact .inr (announce_nextTestItem c item' rest)
  | scalability =>
    rw [announcedItems_cons_testItem, announcedItems_cons_of_none rfl, announcedItems_idleNodes,
      List.mem_singleton] at hitem
    rw [hitem]
    exact .inl rfl
  | skipped _ _ _ ih =>
    rw [announcedItems_cons_testItem, List.mem_cons] at hitem
    rcases hitem with rfl | hitem
    · exact .inl rfl
    · exact ih hitem

/-- Choosing the next test announces the middle item and keeps the plan, or it configures the next item of the
plan and announces the middle item after it or not at all. -/
theorem NextTest.announcedItems_cases {c c' : Controller} {actions : List Action} (h : NextTest walk c c' actions) :
    (c'.testItems = c.testItems ∧ c'.nextTestItem = c.nextTestItem ∧
      ∀ item ∈ announcedItems c.analyzerId actions, c.nextMidTestItem = some item ∧ hasNoBranch item = false) ∨
    ∃ c₁ configured later, Configured walk c c₁ configured ∧ c'.testItems = c₁.testItems ∧
      c'.nextTestItem = c₁.nextTestItem ∧
      announcedItems c.analyzerId actions = announcedItems c.analyzerId configured ++ later ∧
      ∀ item ∈ later, c.nextMidTestItem = some item ∧ hasNoBranch item = false ∧ goesOn item = false := by
  have hsingle {item : TestItem} {actions : List Action} (hannounced : announcedItems c.analyzerId actions = [item])
      (hmiddle : c.nextMidTestItem = some item) (hbranch : hasNoBranch item = false) :
      ∀ item ∈ announcedItems c.analyzerId actions, c.nextMidTestItem = some item ∧ hasNoBranch item = false := by
    rw [hannounced]
    exact List.forall_mem_singleton.2 ⟨hmiddle, hbranch⟩
  have hlater {item : TestItem} (actions : List Action) : announcedItems c.analyzerId
      (actions ++ [.sendMessage c.analyzerId (.testItem item)]) = announcedItems c.analyzerId actions ++ [item] := by
    rw [announcedItems_append, announcedItems_cons_testItem, announcedItems_nil]
  cases h with
  | configured _ next => exact .inr ⟨c', actions, [], next, rfl, rfl, (List.append_nil _).symm, List.forall_mem_nil _⟩
  | @nobodyJoined _ _ _ _ configured middle _ next =>
    exact .inr ⟨_, configured, _, next, rfl, rfl, hlater configured, List.forall_mem_singleton.2 ⟨middle, rfl, rfl⟩⟩
  | @notEnoughConspire _ _ _ _ _ configured middle _ next =>
    exact .inr ⟨_, configured, _, next, rfl, rfl, hlater configured, List.forall_mem_singleton.2 ⟨middle, rfl, rfl⟩⟩
  | joined middle =>
    exact .inl ⟨rfl, rfl, hsingle ((announcedItems_cons_of_none rfl).trans
      (announcedItems_cons_testItem c.analyzerId _ _)) middle rfl⟩
  | @dishonest item mode id middle kind chosen =>
    have hbranch : hasNoBranch item = false := by
      unfold dishonestMode at kind
      split at kind <;> first | rfl | cases kind
    exact .inl ⟨rfl, rfl, hsingle ((announcedItems_cons_of_none rfl).trans
      (announcedItems_cons_testItem c.analyzerId _ _)) middle hbranch⟩
  | conspire middle =>
    refine .inl ⟨rfl, rfl, hsingle ?_ middle rfl⟩
    rw [hlater, announcedItems_map_eq_nil fun _ ↦ rfl]
    rfl
  | noCrash middle => exact .inl ⟨rfl, rfl, hsingle (announcedItems_cons_testItem c.analyzerId _ _) middle rfl⟩
  | crash middle =>
    exact .inl ⟨rfl, rfl, hsingle ((announcedItems_cons_of_none rfl).trans
      (announcedItems_cons_testItem c.analyzerId _ _)) middle rfl⟩
  | nobodyDishonest | ignored => exact .inl ⟨rfl, rfl, List.forall_mem_nil _⟩

/-- A call of `next_test` is made with the plan, the nodes and the candidates of the state before the turn. -/
theorem CallsNextTest.exists_eq {c c₁ : Controller} {event : Event} (h : CallsNextTest c event c₁) :
    ∃ middle fields crashNodes, c₁ = { c with
      nextMidTestItem := middle
      fields := fields
      crashConsensusNodes := crashNodes }.clearResetCounts := by
  cases h with
  | completed _ completed =>
    obtain ⟨middle, fields, rfl⟩ := completeTest_frame completed
    exact ⟨middle, fields, c.crashConsensusNodes, rfl⟩
  | reset => exact ⟨c.nextMidTestItem, c.fields, c.crashConsensusNodes, rfl⟩
  | crashReset => exact ⟨c.nextMidTestItem, c.fields, _, rfl⟩

theorem Configured.eq_of_length {c c' : Controller} {actions : List Action} (h : Configured walk c c' actions)
    (hlength : c.testItems.length = c'.testItems.length) :
    c' = { c with nextTestItem := none } ∧ actions = [] := by
  cases h with
  | exhausted => exact ⟨rfl, rfl⟩
  | plain plan => simp [plan] at hlength
  | scalability plan => simp [plan, configureFirstNode] at hlength
  | skipped plan nobody next =>
    have hlt := (Configured.skipped plan nobody next).length_lt (by simp [plan])
    omega

/-- The kinds of turns of the event loop. -/
inductive Turn (c : Controller) (event : Event) : Controller → List Action → Prop
  | unprepared {c' : Controller} {actions : List Action} (noCall : ∀ c₁, ¬ CallsNextTest c event c₁)
      (unprepared : Unprepared c (c.route event.input) c' actions) : Turn c event c' actions
  | called {c₁ c' : Controller} {actions : List Action} (call : CallsNextTest c event c₁)
      (next : NextTest event.walk c₁ c' actions) : Turn c event c' actions
  | planExhausted (command : event.input = .command .configureAnalyzer) (plan : c.testItems = []) :
      Turn c event { c with nextTestItem := none } []
  | itemAnnounced {rest : List TestItem} {item : TestItem} (command : event.input = .command .configureAnalyzer)
      (plan : c.testItems = rest ++ [item]) :
      Turn c event (c.announce item rest) [.sendMessage c.analyzerId (.testItem item)]
  | nodesConfigured {item : TestItem} (command : event.input = .command .configureConsensusNode)
      (item_eq : c.nextTestItem = some item) (kind : isScalability item = false) :
      Turn c event { c with consensusNodes := ∅ }
        (sendMessages (event.walk.order c.waitingConsensusNodes) (.configureConsensusNode .first))
  | firstConfigured {count max increment : UInt16} {peerId : PeerId}
      (command : event.input = .command .configureConsensusNode)
      (item_eq : c.nextTestItem = some (.scalability count max increment))
      (chosen : event.walk.last c.optionalScalabilityConsensusNodes = some peerId) :
      Turn c event (c.configureFirstNode count peerId) (.sendMessage peerId (.configureConsensusNode .first) ::
        (c.configureFirstNode count peerId).idleNodes event.walk)
  | nobodyConfigured {count max increment : UInt16} {c' : Controller} {actions : List Action}
      (command : event.input = .command .configureConsensusNode)
      (item_eq : c.nextTestItem = some (.scalability count max increment))
      (nobody : c.optionalScalabilityConsensusNodes = ∅)
      (next : Configured event.walk { c with feedbackScalabilityFirstCount := count, consensusNodes := ∅ }
        c' actions) : Turn c event c' (actions ++ c'.idleNodes event.walk)

theorem step_turn {c c' : Controller} {event : Event} {actions : List Action}
    (h : step X c event = some (c', actions)) : Turn c event c' actions := by
  by_cases hcall : ∃ c₁, CallsNextTest c event c₁
  · obtain ⟨c₁, hcalls⟩ := hcall
    exact .called hcalls (nextTest_spec ((hcalls.step_eq (X := X)).symm.trans h))
  · have hnoCall (c₁ : Controller) : ¬ CallsNextTest c event c₁ := fun hcalls ↦ hcall ⟨c₁, hcalls⟩
    cases hcommand : isConfiguring event.input with
    | false => exact .unprepared hnoCall (unprepared_of_step h hcommand hnoCall)
    | true =>
      obtain ⟨input, walk⟩ := event
      have heffect := step_effect h
      cases input with
      | command command =>
        cases heffect with
        | configureExhausted plan => exact .planExhausted rfl plan
        | configureAnalyzer plan => exact .itemAnnounced rfl plan
        | configureNodes item_eq kind => exact .nodesConfigured rfl item_eq kind
        | configureFirst item_eq chosen => exact .firstConfigured rfl item_eq chosen
        | configureNobody item_eq nobody next => exact .nobodyConfigured rfl item_eq nobody next
        | startTestCommand | protocolStartCommand => cases hcommand
        | calmCommand kind => rcases kind with rfl | rfl | rfl <;> cases hcommand
      | conspire | unicast | gossip | discovered => cases hcommand

/-- A turn leaves the middle item alone, or it completes a test. -/
theorem step_middle {t : Transition Controller Event (List Action)}
    (htaken : step X t.pre t.event = some (t.post, t.out)) :
    (completedItem t = none ∧ t.post.nextMidTestItem = t.pre.nextMidTestItem) ∨
      ∃ item c₁, completedItem t = some item ∧ t.pre.completeTest item = some c₁ ∧
        t.post.nextMidTestItem = c₁.nextMidTestItem := by
  have heffect := step_effect htaken
  cases hitem : completedItem t with
  | none =>
    refine .inl ⟨rfl, heffect.middle_eq fun item hroute ↦ ?_⟩
    cases hitem.symm.trans (completedItem_eq_some_iff.2 hroute)
  | some item =>
    rw [completedItem_eq_some_iff.1 hitem] at heffect
    generalize t.post = c', t.out = actions at heffect
    cases heffect with
    | completedReset completed => exact .inr ⟨item, _, rfl, completed, rfl⟩
    | completedNext completed _ next => exact .inr ⟨item, _, rfl, completed, next.sameCursor.middle⟩
    | unusedReport kind => cases kind

/-! ## Turns that start a test -/

def isStartTest : Action → Bool
  | .sendMessage _ .startTest => true
  | _ => false

/-- The messages that start a test. -/
def Action.starts : Action → Bool
  | .sendMessage _ .startTest => true
  | .sendMessage _ .protocolStart => true
  | _ => false

/-- Whether the handlers start a test, as they decide it. -/
def startsTest (c : Controller) : Route → Bool
  | .command .startTest => true
  | .node peerId .joinConsensusSuccess => c.feedbackScalabilityNode = peerId
  | .node _ (.consensusNodeModeSuccess (.honest .other)) =>
    UInt16.ofNat c.waitingConsensusNodes.card = c.consensusNodeConfigureCount + 1 ∨ 1 = c.feedbackScalabilityFirstCount
  | .node peerId (.consensusNodeModeSuccess (.dishonest mode)) =>
    if isConspire mode then c.feedbackDishonestNodeCount = c.feedbackDishonestNodeSuccessCount + 1
    else c.feedbackDishonestNode = peerId
  | .node peerId (.consensusNodeModeSuccess (.crash _)) => c.feedbackCrashNode = peerId
  | _ => false

/-- The ways in which a turn starts a test or does not. -/
inductive Starts (c : Controller) (event : Event) : Controller → List Action → Prop
  | feedback {c' : Controller} {later : List Action} (starts : c.startsTest (c.route event.input) = true)
      (isLater : ∀ action ∈ later, action.starts = false) : Starts c event c' (c'.start event.walk ++ later)
  | startTestCommand (command : event.input = .command .startTest) : Starts c event c c.startTest
  | protocolStartCommand (command : event.input = .command .protocolStart) :
      Starts c event c (c.protocolStart event.walk)
  | nothing {c' : Controller} {actions : List Action} (waits : c.startsTest (c.route event.input) = false)
      (sent : ∀ action ∈ actions, action.starts = false) : Starts c event c' actions

theorem starts_of_isCalm {action : Action} (h : action.isCalm = true) : action.starts = false := by
  cases action with
  | sendMessage receiver message => cases message <;> first | rfl | cases h
  | publish => rfl
  | conspireRequestSendTimerStart => rfl

theorem starts_map {receivers : List PeerId} {send : PeerId → Action} (h : ∀ receiver, (send receiver).starts = false) :
    ∀ action ∈ receivers.map send, action.starts = false := by
  intro action haction
  obtain ⟨receiver, -, rfl⟩ := List.mem_map.1 haction
  exact h receiver

theorem Configured.starts {c c' : Controller} {actions : List Action} (h : Configured walk c c' actions) :
    ∀ action ∈ actions, action.starts = false := by
  induction h with
  | exhausted => exact List.forall_mem_nil _
  | plain => exact List.forall_mem_cons.2 ⟨rfl, starts_map fun _ ↦ rfl⟩
  | scalability => exact List.forall_mem_cons.2 ⟨rfl, List.forall_mem_cons.2 ⟨rfl, starts_map fun _ ↦ rfl⟩⟩
  | skipped _ _ _ ih => exact List.forall_mem_cons.2 ⟨rfl, ih⟩

theorem NextTest.starts {c c' : Controller} {actions : List Action} (h : NextTest walk c c' actions) :
    ∀ action ∈ actions, action.starts = false := by
  cases h with
  | configured _ next => exact next.starts
  | nobodyJoined _ _ next | notEnoughConspire _ _ next =>
    exact List.forall_mem_append.2 ⟨next.starts, List.forall_mem_singleton.2 rfl⟩
  | conspire => exact List.forall_mem_append.2 ⟨starts_map fun _ ↦ rfl, List.forall_mem_singleton.2 rfl⟩
  | joined | noCrash => exact List.forall_mem_cons.2 ⟨rfl, List.forall_mem_singleton.2 rfl⟩
  | dishonest | crash =>
    exact List.forall_mem_cons.2 ⟨rfl, List.forall_mem_cons.2 ⟨rfl, List.forall_mem_singleton.2 rfl⟩⟩
  | nobodyDishonest | ignored => exact List.forall_mem_nil _

theorem startsTest_of_expectedPeer {c : Controller} {peerId other : PeerId} {message : InteractiveMessage}
    (h : c.expectedPeer message = some other) : c.startsTest (.node peerId message) = decide (other = peerId) := by
  cases message with
  | consensusNodeModeSuccess mode =>
    cases mode with
    | dishonest mode =>
      unfold expectedPeer at h
      cases hkind : isConspire mode with
      | true => simp [hkind] at h
      | false =>
        simp only [hkind, Bool.false_eq_true, if_false, Option.some.injEq] at h
        simp [startsTest, hkind, h]
    | crash interval =>
      rw [← Option.some.inj h]
      rfl
    | uninitialized | honest => cases h
  | _ => cases h

theorem startsTest_of_isUnusedFeedback (c : Controller) {peerId : PeerId} {message : InteractiveMessage}
    (h : isUnusedFeedback message = true) : c.startsTest (.node peerId message) = false := by
  cases message with
  | consensusNodeModeSuccess mode => cases mode <;> first | rfl | cases h
  | joinConsensusSuccess => cases h
  | _ => rfl

theorem step_starts {c c' : Controller} {event : Event} {actions : List Action}
    (h : step X c event = some (c', actions)) : Starts c event c' actions := by
  have hsame {x count : UInt16} (hadd : checkedAdd16 x 1 = some count) : x + 1 = count := by
    apply UInt16.toNat_inj.1
    rw [UInt16.toNat_add, checkedAdd16_eq_some_iff.1 hadd]
    exact Nat.mod_eq_of_lt (checkedAdd16_eq_some_iff.1 hadd ▸ count.toNat_lt)
  have heffect := step_effect h
  generalize hroute : c.route event.input = route at heffect
  have hwaits (hfalse : c.startsTest route = false) : c.startsTest (c.route event.input) = false := hroute ▸ hfalse
  have hstarts (htrue : c.startsTest route = true) : c.startsTest (c.route event.input) = true := hroute ▸ htrue
  have hstart {c' : Controller} (htrue : c.startsTest route = true) : Starts c event c' (c'.start event.walk) := by
    rw [← List.append_nil (c'.start event.walk)]
    exact .feedback (hstarts htrue) (List.forall_mem_nil _)
  cases heffect with
  | startTestCommand => exact .startTestCommand (input_of_route_command hroute)
  | protocolStartCommand => exact .protocolStartCommand (input_of_route_command hroute)
  | calmCommand kind calm =>
    refine .nothing (hwaits ?_) fun action haction ↦ starts_of_isCalm (calm action haction)
    rcases kind with rfl | rfl | rfl <;> rfl
  | conspireRequest calm => exact .nothing (hwaits rfl) fun action haction ↦ starts_of_isCalm (calm action haction)
  | configureAnalyzer => exact .nothing (hwaits rfl) (List.forall_mem_singleton.2 rfl)
  | configureNodes | completedReset | allCrashed => exact .nothing (hwaits rfl) (starts_map fun _ ↦ rfl)
  | configureFirst => exact .nothing (hwaits rfl) (List.forall_mem_cons.2 ⟨rfl, starts_map fun _ ↦ rfl⟩)
  | configureNobody _ _ next =>
    exact .nothing (hwaits rfl) (List.forall_mem_append.2 ⟨next.starts, starts_map fun _ ↦ rfl⟩)
  | completedNext _ _ next | resetNext _ _ _ _ next | crashResetNext _ _ _ _ next =>
    exact .nothing (hwaits rfl) next.starts
  | joined peerId_eq => exact hstart (decide_eq_true peerId_eq)
  | notJoined peerId_ne => exact .nothing (hwaits (decide_eq_false peerId_ne)) (List.forall_mem_nil _)
  | admittedOther counted waits =>
    rw [← hsame counted] at waits
    exact .nothing (hwaits (decide_eq_false waits)) (List.forall_mem_nil _)
  | admittedLast counted complete =>
    rw [← hsame counted] at complete
    exact hstart (decide_eq_true complete)
  | conspired kind counted waits =>
    rw [← hsame counted] at waits
    exact .nothing (hwaits (by simp [startsTest, kind, waits])) (List.forall_mem_nil _)
  | conspiredLast kind counted complete =>
    rw [← hsame counted] at complete
    exact .feedback (hstarts (by simp [startsTest, kind, complete])) (List.forall_mem_singleton.2 rfl)
  | expected peerId_eq => exact hstart (by rw [startsTest_of_expectedPeer peerId_eq]; exact decide_eq_true rfl)
  | unexpected other_eq ne =>
    refine .nothing (hwaits ?_) (List.forall_mem_nil _)
    rw [startsTest_of_expectedPeer other_eq]
    exact decide_eq_false ne
  | unusedFeedback kind => exact .nothing (hwaits (startsTest_of_isUnusedFeedback c kind)) (List.forall_mem_nil _)
  | configureExhausted | analyzerInfo | unusedReport | phase | admitted | admittedFirst | reset | crashReset | dropped
  | discovered => exact .nothing (hwaits rfl) (List.forall_mem_nil _)

theorem countP_isStartTest_eq_zero {actions : List Action} (h : ∀ action ∈ actions, action.starts = false) :
    actions.countP isStartTest = 0 := by
  refine List.countP_eq_zero.2 fun action haction hstart ↦ ?_
  have hstarts := h action haction
  unfold isStartTest at hstart
  split at hstart
  · cases hstarts
  · cases hstart

theorem countP_isStartTest_protocolStart (c : Controller) (walk : Walk PeerId) :
    (c.protocolStart walk).countP isStartTest = 0 := by
  refine List.countP_eq_zero.2 fun action haction ↦ ?_
  obtain ⟨receiver, -, rfl⟩ := List.mem_map.1 haction
  exact Bool.false_ne_true

theorem countP_isStartTest_start (c : Controller) (walk : Walk PeerId) :
    (c.start walk).countP isStartTest = 1 := by
  rw [start, List.countP_append, countP_isStartTest_protocolStart]
  rfl

/-- A test is started at most once in a turn. -/
theorem Starts.countP_eq {c c' : Controller} {event : Event} {actions : List Action} (h : Starts c event c' actions) :
    actions.countP isStartTest = if c.startsTest (c.route event.input) then 1 else 0 := by
  cases h with
  | feedback starts isLater =>
    rw [starts, List.countP_append, countP_isStartTest_start, countP_isStartTest_eq_zero isLater]
    rfl
  | startTestCommand command =>
    rw [command]
    rfl
  | protocolStartCommand command =>
    rw [command, countP_isStartTest_protocolStart]
    rfl
  | nothing waits sent =>
    rw [waits, countP_isStartTest_eq_zero sent]
    rfl

/-- A turn that starts a test prepares nothing. -/
theorem unprepared_of_startsTest {c c' : Controller} {event : Event} {actions : List Action}
    (h : step X c event = some (c', actions)) (hstarts : c.startsTest (c.route event.input) = true) :
    Unprepared c (c.route event.input) c' actions := by
  have hturn := step_turn h
  cases hturn with
  | unprepared _ unprepared => exact unprepared
  | called call =>
    cases call with
    | completed route | reset route | crashReset route =>
      rw [route] at hstarts
      cases hstarts
  | planExhausted command | itemAnnounced command | nodesConfigured command | firstConfigured command
  | nobodyConfigured command =>
    rw [command] at hstarts
    cases hstarts

end BFTDiagnosis.Controller
