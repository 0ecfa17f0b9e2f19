import BFTDiagnosis.Controller.Crash

/-!
# Cluster sizes of scalability tests

A scalability item carries the number of nodes that its results are published under. The number grows by the
increment of the configuration while one node joins in each round, so the two agree when the increment is one
and the node that was asked to join has joined before a test is started.
-/

namespace BFTDiagnosis.Controller

open Components Word

variable {X : Externals} {walk : Walk PeerId}

/-! ## The node that is asked to take part -/

/-- The node that a message asks to take part in a test. -/
def askedPeer : Action → Option PeerId
  | .sendMessage peerId .joinConsensus => some peerId
  | .sendMessage peerId (.configureConsensusNode _) => some peerId
  | _ => none

/-- The node that a turn asks last. -/
def askedIn (t : Transition Controller Event (List Action)) : Option PeerId :=
  (t.out.filterMap askedPeer).getLast?

/-- The node that was asked last for the item that is announced. -/
def asked (run : Run) : Option PeerId :=
  run.foldl (fun asked t ↦ if announcedItems t.pre.analyzerId t.out = [] then (askedIn t).or asked else askedIn t) none

theorem asked_concat (run : Run) (t : Transition Controller Event (List Action)) :
    asked (run ++ [t]) =
      if announcedItems t.pre.analyzerId t.out = [] then (askedIn t).or (asked run) else askedIn t := by
  rw [asked, List.foldl_append]
  rfl

/-- The number of nodes that a scalability item is about. -/
def scalabilityCount : TestItem → Option UInt16
  | .scalability count _ _ => some count
  | _ => none

def scalabilityIncrement : TestItem → Option UInt16
  | .scalability _ _ increment => some increment
  | _ => none

/-- The middle item that `next_test` is called with. -/
def middleAtCall (t : Transition Controller Event (List Action)) : Option TestItem :=
  if callsNextTest t then
    match completedItem t with
    | some item => (t.pre.completeTest item).bind (·.nextMidTestItem)
    | none => t.pre.nextMidTestItem
  else none

theorem CallsNextTest.middleAtCall_eq {t : Transition Controller Event (List Action)} {c₁ : Controller}
    (h : CallsNextTest t.pre t.event c₁) : middleAtCall t = c₁.nextMidTestItem := by
  rw [middleAtCall, callsNextTest_iff.2 ⟨c₁, h⟩, if_pos rfl]
  cases h with
  | completed route completed =>
    rw [completedItem_eq_some_iff.2 route]
    dsimp only
    rw [completed]
    rfl
  | reset route | crashReset route =>
    rw [show completedItem t = none by rw [completedItem, route]]
    rfl

/-! ## The labels -/

/-- Whenever a test is started and the item that was announced last is a scalability item, as many nodes take
part as it says. -/
def LabelsRight (run : Run) : Prop :=
  ∀ before t after count max increment, run = before ++ t :: after → t.out.any isStartTest = true →
    (announcement before).item = some (.scalability count max increment) →
    t.post.consensusNodes.card = count.toNat

/-- The nodes that a turn adds to the test. -/
def addedPeers (t : Transition Controller Event (List Action)) : Finset PeerId :=
  (admittedPeer (t.pre.route t.event.input)).toFinset ∪ (t.pre.joinedPeer (t.pre.route t.event.input)).toFinset

/-- One node joins in each round of a scalability test: the increment is one, there is a candidate, the node
that was asked is the one that joins, and it has joined before the next round and when the test is started. -/
structure JoinsOneByOne (before : Run) (t : Transition Controller Event (List Action)) : Prop where
  inOrder : InOrder before t
  round : ∀ increment ∈ (middleAtCall t).bind scalabilityIncrement, increment = 1 ∧
    t.pre.optionalScalabilityConsensusNodes ≠ ∅ ∧ ∃ peerId ∈ asked before, peerId ∈ t.pre.consensusNodes
  joins : (announcement before).item.any isScalability = true →
    ∀ peerId ∈ addedPeers t, asked before = some peerId ∨ peerId ∈ t.pre.consensusNodes
  first : t.event.input = .command .configureConsensusNode →
    ∀ count ∈ (announcement before).item.bind scalabilityCount, count = 1
  started : t.pre.startsTest (t.pre.route t.event.input) = true →
    (announcement before).item.any isScalability = true →
    ∃ peerId ∈ asked before, peerId ∈ t.pre.consensusNodes ∪ addedPeers t

/-- The node that was asked is counted as soon as it has joined, and no candidate takes part. -/
structure Sized (node : Option PeerId) (c : Controller) (count : UInt16) : Prop where
  planned : ∀ item ∈ c.nextTestItem, isScalability item = true
  member : ∀ peerId ∈ node, peerId ∉ c.optionalScalabilityConsensusNodes ∧
    (peerId ∈ c.consensusNodes ∧ c.consensusNodes.card = count.toNat ∨
      peerId ∉ c.consensusNodes ∧ c.consensusNodes.card + 1 = count.toNat)
  candidates : node ≠ none → ∀ peerId ∈ c.optionalScalabilityConsensusNodes, peerId ∉ c.consensusNodes

/-- Nothing has been announced and the first item of the plan is still to come, or no performance item is. -/
structure PerformanceFirst (run : Run) (c : Controller) : Prop where
  plan : (announcement run = ⟨none, false⟩ ∧ c.nextMidTestItem = none ∧
      ∀ item ∈ c.testItems.dropLast, isPerformance item = false) ∨
    ∀ item ∈ c.testItems, isPerformance item = false
  announced : ∀ item ∈ (announcement run).item, isPerformance item = true → c.nextMidTestItem = none

/-! ## Items of the plan -/

/-- What is left of the plan after configuring was there before and was not its next item. -/
theorem Configured.mem_dropLast {c c' : Controller} {actions : List Action} {item : TestItem}
    (h : Configured walk c c' actions) (hitem : item ∈ c'.testItems) : item ∈ c.testItems.dropLast := by
  induction h with
  | @exhausted c plan =>
    rw [show ({ c with nextTestItem := none } : Controller).testItems = [] from plan] at hitem
    cases hitem
  | plain plan =>
    rw [plan, List.dropLast_concat]
    simpa using hitem
  | scalability plan =>
    rw [plan, List.dropLast_concat]
    simpa [configureFirstNode] using hitem
  | skipped plan _ _ ih =>
    rw [plan, List.dropLast_concat]
    exact List.mem_of_mem_dropLast (by simpa using ih hitem)

/-- Configuring announces items of the plan. -/
theorem Configured.mem_testItems {c c' : Controller} {actions : List Action} {item : TestItem}
    (h : Configured walk c c' actions) (hitem : item ∈ announcedItems c.analyzerId actions) : item ∈ c.testItems := by
  induction h with
  | exhausted => cases hitem
  | plain plan =>
    rw [announcedItems_cons_testItem, announcedItems_configureNodes, List.mem_singleton] at hitem
    rw [plan, hitem]
    exact List.mem_concat_self
  | scalability plan =>
    rw [announcedItems_cons_testItem, announcedItems_cons_of_none rfl, announcedItems_idleNodes,
      List.mem_singleton] at hitem
    rw [plan, hitem]
    exact List.mem_concat_self
  | skipped plan _ _ ih =>
    rw [announcedItems_cons_testItem, List.mem_cons] at hitem
    rw [plan]
    rcases hitem with rfl | hitem
    · exact List.mem_concat_self
    · exact List.mem_append_left _ (by simpa using ih hitem)

/-- Configuring is silent when the plan is exhausted. -/
theorem Configured.eq_of_silent {c c' : Controller} {actions : List Action} (h : Configured walk c c' actions)
    (hsilent : announcedItems c.analyzerId actions = []) : c' = { c with nextTestItem := none } ∧ actions = [] := by
  have hempty := h.announcedItems_eq_nil_iff.1 hsilent
  cases h with
  | exhausted => exact ⟨rfl, rfl⟩
  | plain plan | scalability plan | skipped plan =>
    exact absurd (plan.symm.trans hempty) (List.append_ne_nil_of_right_ne_nil _ (List.cons_ne_nil _ _))

theorem isPerformance_of_hasNoBranch {item : TestItem} (h : hasNoBranch item = false) :
    isPerformance item = false := by
  cases item <;> first | rfl | cases h

/-- What a turn announces and what it leaves of the plan. -/
structure PlanStep (c : Controller) (event : Event) (c' : Controller) (actions : List Action) : Prop where
  announced : ∀ item ∈ announcedItems c.analyzerId actions, item ∈ c.testItems ∨ isPerformance item = false
  silent : announcedItems c.analyzerId actions = [] → c'.testItems = c.testItems
  subset : ∀ item ∈ c'.testItems, item ∈ c.testItems
  taken : announcedItems c.analyzerId actions ≠ [] →
    (∀ item ∈ c'.testItems, item ∈ c.testItems.dropLast) ∨ ∃ c₁, CallsNextTest c event c₁

theorem PlanStep.of_same {c c' : Controller} {event : Event} {actions : List Action}
    (hsilent : announcedItems c.analyzerId actions = []) (hplan : c'.testItems = c.testItems) :
    PlanStep c event c' actions where
  announced := by rw [hsilent]; exact List.forall_mem_nil _
  silent _ := hplan
  subset := by rw [hplan]; exact fun _ h ↦ h
  taken hne := absurd hsilent hne

/-- Configuring, and possibly a middle item after it. -/
theorem PlanStep.of_configured {c c₀ c' c'' : Controller} {event : Event} {actions out : List Action}
    (h : Configured walk c₀ c' actions) (hanalyzer : c₀.analyzerId = c.analyzerId)
    (hplan : c₀.testItems = c.testItems) (hpost : c''.testItems = c'.testItems)
    (hout : ∀ item ∈ announcedItems c.analyzerId out,
      item ∈ announcedItems c.analyzerId actions ∨ isPerformance item = false)
    (hnil : announcedItems c.analyzerId out = [] → announcedItems c.analyzerId actions = []) :
    PlanStep c event c'' out where
  announced item hitem := by
    rcases hout item hitem with hmem | hkind
    · rw [← hplan]
      rw [← hanalyzer] at hmem
      exact .inl (h.mem_testItems hmem)
    · exact .inr hkind
  silent hsilent := by
    have hempty := h.announcedItems_eq_nil_iff.1 (by rw [hanalyzer]; exact hnil hsilent)
    rw [hpost, ← hplan, hempty, List.eq_nil_iff_forall_not_mem]
    intro item hitem
    have hmem := h.mem_dropLast hitem
    rw [hempty] at hmem
    cases hmem
  subset item hitem := by
    rw [hpost] at hitem
    rw [← hplan]
    exact List.mem_of_mem_dropLast (h.mem_dropLast hitem)
  taken _ := by
    rw [hpost, ← hplan]
    exact .inl fun item hitem ↦ h.mem_dropLast hitem

theorem Turn.planStep {c c' : Controller} {event : Event} {actions : List Action} (h : Turn c event c' actions) :
    PlanStep c event c' actions := by
  cases h with
  | unprepared _ unprepared => exact .of_same (announcedItems_of_prepares unprepared.sent) unprepared.testItems
  | planExhausted => exact .of_same rfl rfl
  | @itemAnnounced rest item _ plan =>
    have hannounced := announcedItems_cons_testItem c.analyzerId item []
    refine ⟨?_, ?_, ?_, ?_⟩
    · rw [hannounced, plan]
      exact List.forall_mem_singleton.2 (.inl List.mem_concat_self)
    · rw [hannounced]
      exact fun hnil ↦ absurd hnil (List.cons_ne_nil _ _)
    · rw [announce_testItems, plan]
      exact fun _ hmem ↦ List.mem_append_left _ hmem
    · rw [announce_testItems, plan, List.dropLast_concat]
      exact fun _ ↦ .inl fun _ hmem ↦ hmem
  | nodesConfigured => exact .of_same (announcedItems_configureNodes _ _ _) rfl
  | firstConfigured => exact .of_same ((announcedItems_cons_of_none rfl).trans (announcedItems_idleNodes _ _ _)) rfl
  | nobodyConfigured _ _ _ next =>
    refine .of_configured next rfl rfl rfl ?_ ?_
    · rw [announcedItems_append, announcedItems_idleNodes, List.append_nil]
      exact fun _ hmem ↦ .inl hmem
    · rw [announcedItems_append, announcedItems_idleNodes, List.append_nil]
      exact fun hnil ↦ hnil
  | called call next =>
    obtain ⟨middle, fields, crashNodes, rfl⟩ := call.exists_eq
    rcases next.announcedItems_cases with ⟨hplan, -, hannounced⟩ |
      ⟨c₂, configured, later, hconfigured, hplan, -, hannounced, hlater⟩
    · refine ⟨fun item hitem ↦ .inr (isPerformance_of_hasNoBranch (hannounced item hitem).2), fun _ ↦ hplan, ?_,
        fun _ ↦ .inr ⟨_, call⟩⟩
      rw [hplan]
      exact fun _ hmem ↦ hmem
    · refine .of_configured hconfigured rfl rfl hplan ?_ ?_
      · intro item hitem
        rw [show announcedItems c.analyzerId actions = _ from hannounced, List.mem_append] at hitem
        exact hitem.imp_right fun hlast ↦ isPerformance_of_hasNoBranch (hlater item hlast).2.1
      · rw [show announcedItems c.analyzerId actions = _ from hannounced]
        exact fun hnil ↦ (List.append_eq_nil_iff.1 hnil).1

theorem completeTest_performance {c c₁ : Controller} {item : TestItem} (h : c.completeTest item = some c₁)
    (hkind : isPerformance item = true) : c₁ = c := by
  cases item with
  | throughput | latency | throughputAndLatency => exact (Option.some.inj h).symm
  | scalability | crash | malicious => cases hkind

theorem PerformanceFirst.step {run : Run} {t : Transition Controller Event (List Action)}
    (h : PerformanceFirst run t.pre) (horder : InOrder run t)
    (htaken : Controller.step X t.pre t.event = some (t.post, t.out)) : PerformanceFirst (run ++ [t]) t.post := by
  have hplan := (step_turn htaken).planStep
  -- before anything is announced nothing is completed and `next_test` is not called
  have hearly (hnone : announcement run = ⟨none, false⟩) : completedItem t = none ∧ callsNextTest t ≠ true := by
    have hitem : completedItem t = none := by
      rw [Option.eq_none_iff_forall_ne_some]
      intro item hitem
      have := horder.completed item hitem
      rw [hnone] at this
      cases this
    refine ⟨hitem, fun hcall ↦ ?_⟩
    have := horder.called hcall
    rw [hnone, hitem] at this
    rcases this with hfalse | hfalse <;> cases hfalse
  have hmiddle (hnone : completedItem t = none) : t.post.nextMidTestItem = t.pre.nextMidTestItem := by
    rcases step_middle htaken with ⟨-, hsame⟩ | ⟨item, c₁, hitem, -⟩
    · exact hsame
    · cases hnone.symm.trans hitem
  constructor
  · rcases h.plan with ⟨hnone, hmid, hrest⟩ | hrest
    · obtain ⟨hitem, hcall⟩ := hearly hnone
      by_cases hsilent : announcedItems t.pre.analyzerId t.out = []
      · left
        rw [announcement_concat, Announcement.next_of_nil hsilent, hnone, hitem, hmiddle hitem, hplan.silent hsilent]
        exact ⟨rfl, hmid, hrest⟩
      · right
        have htaken := (hplan.taken hsilent).resolve_right fun hcalls ↦ hcall (callsNextTest_iff.2 hcalls)
        exact fun item hmem ↦ hrest item (htaken item hmem)
    · exact .inr fun item hmem ↦ hrest item (hplan.subset item hmem)
  · intro item hitem hkind
    rw [announcement_concat] at hitem
    cases hlast : (announcedItems t.pre.analyzerId t.out).getLast? with
    | none =>
      have hsilent := List.getLast?_eq_none_iff.1 hlast
      rw [Announcement.next_of_nil hsilent] at hitem
      have hpre := h.announced item hitem hkind
      rcases step_middle htaken with ⟨-, hsame⟩ | ⟨item', c₁, hitem', hcompleted, hsame⟩
      · exact hsame.trans hpre
      · obtain rfl := Option.some.inj ((horder.completed item' hitem').symm.trans hitem)
        rw [hsame, completeTest_performance hcompleted hkind]
        exact hpre
    | some last =>
      rw [Announcement.next_of_some hlast] at hitem
      obtain rfl := Option.some.inj hitem
      have hmem := (hplan.announced last (List.mem_of_getLast? hlast)).resolve_right
        fun hfalse ↦ Bool.false_ne_true (hfalse.symm.trans hkind)
      rcases h.plan with ⟨hnone, hmid, -⟩ | hrest
      · exact (hmiddle (hearly hnone).1).trans hmid
      · exact absurd (hrest last hmem) (by rw [hkind]; exact Bool.noConfusion)

/-! ## Middle items -/

/-- A middle scalability item follows the scalability item that is announced. -/
def FollowsAnnounced (run : Run) (count' increment : UInt16) : Prop :=
  ∃ count max, (announcement run).item = some (.scalability count max increment) ∧
    count'.toNat = count.toNat + increment.toNat

/-- As soon as a test is completed, a middle scalability item follows the announced one. -/
def PendingFollows (run : Run) (c : Controller) : Prop :=
  (announcement run).completed = true → ∀ count' max' increment,
    c.nextMidTestItem = some (.scalability count' max' increment) → FollowsAnnounced run count' increment

theorem completeTest_scalability {c c₁ : Controller} {item : TestItem} {count' max' increment : UInt16}
    (h : c.completeTest item = some c₁) (hkind : isPerformance item = false)
    (hmiddle : c₁.nextMidTestItem = some (.scalability count' max' increment)) :
    ∃ count max, item = .scalability count max increment ∧ count'.toNat = count.toNat + increment.toNat := by
  cases item with
  | throughput | latency | throughputAndLatency => cases hkind
  | scalability count max increment' =>
    obtain ⟨next, hadd, hresult⟩ := Option.bind_eq_some_iff.1 h
    rw [← Option.some.inj hresult, setNextMidTestItem] at hmiddle
    dsimp only at hmiddle
    split at hmiddle
    · obtain ⟨rfl, -, rfl⟩ := TestItem.scalability.inj (Option.some.inj hmiddle)
      exact ⟨count, max, rfl, checkedAdd16_eq_some_iff.1 hadd⟩
    · cases hmiddle
  | crash =>
    obtain ⟨next, -, hresult⟩ := Option.bind_eq_some_iff.1 h
    rw [← Option.some.inj hresult, setNextMidTestItem] at hmiddle
    dsimp only at hmiddle
    split at hmiddle <;> cases hmiddle
  | malicious behaviour =>
    obtain ⟨behaviour', hbehaviour⟩ := completeTest_malicious h _ hmiddle
    cases hbehaviour

theorem followsAnnounced_of_completed {run : Run} {t : Transition Controller Event (List Action)} {item : TestItem}
    {c₁ : Controller} {count' max' increment : UInt16} (hfirst : PerformanceFirst run t.pre)
    (horder : InOrder run t) (hitem : completedItem t = some item) (hcompleted : t.pre.completeTest item = some c₁)
    (hmiddle : c₁.nextMidTestItem = some (.scalability count' max' increment)) :
    FollowsAnnounced run count' increment := by
  have hannounced := horder.completed item hitem
  cases hkind : isPerformance item with
  | true =>
    -- a performance item is completed before there are middle items
    have hnone := hfirst.announced item hannounced hkind
    rw [completeTest_performance hcompleted hkind, hnone] at hmiddle
    cases hmiddle
  | false =>
    obtain ⟨count, max, rfl, hcount⟩ := completeTest_scalability hcompleted hkind hmiddle
    exact ⟨count, max, hannounced, hcount⟩

theorem PendingFollows.step {run : Run} {t : Transition Controller Event (List Action)}
    (h : PendingFollows run t.pre) (hfirst : PerformanceFirst run t.pre) (horder : InOrder run t)
    (htaken : Controller.step X t.pre t.event = some (t.post, t.out)) : PendingFollows (run ++ [t]) t.post := by
  intro hdone count' max' increment hmiddle
  rw [announcement_concat] at hdone
  cases hlast : (announcedItems t.pre.analyzerId t.out).getLast? with
  | some last =>
    rw [Announcement.next_of_some hlast] at hdone
    cases hdone
  | none =>
    have hsilent := List.getLast?_eq_none_iff.1 hlast
    have hsame : (announcement (run ++ [t])).item = (announcement run).item := by
      rw [announcement_concat, Announcement.next_of_nil hsilent]
    rw [Announcement.next_of_nil hsilent, Bool.or_eq_true_iff] at hdone
    rw [FollowsAnnounced, hsame]
    rcases step_middle htaken with ⟨hnone, hkept⟩ | ⟨item, c₁, hitem, hcompleted, hnext⟩
    · rw [hnone] at hdone
      exact h (hdone.resolve_right Bool.false_ne_true) count' max' increment (hkept.symm.trans hmiddle)
    · exact followsAnnounced_of_completed hfirst horder hitem hcompleted (hnext.symm.trans hmiddle)

/-- A call of `next_test` with a scalability item follows the announced one. -/
theorem PendingFollows.of_call {run : Run} {t : Transition Controller Event (List Action)} {c₁ : Controller}
    {count' max' increment : UInt16} (h : PendingFollows run t.pre) (hfirst : PerformanceFirst run t.pre)
    (horder : InOrder run t) (hcall : CallsNextTest t.pre t.event c₁)
    (hmiddle : c₁.nextMidTestItem = some (.scalability count' max' increment)) :
    FollowsAnnounced run count' increment := by
  have hdone := horder.called (callsNextTest_iff.2 ⟨c₁, hcall⟩)
  cases hcall with
  | completed route completed =>
    exact followsAnnounced_of_completed hfirst horder (completedItem_eq_some_iff.2 route) completed hmiddle
  | reset route | crashReset route =>
    rw [completedItem, route] at hdone
    exact h (hdone.resolve_right Bool.false_ne_true) count' max' increment hmiddle

/-! ## The nodes of a round -/

/-- Before the first node is asked. -/
theorem Sized.of_none {c : Controller} {count : UInt16} (h : ∀ item ∈ c.nextTestItem, isScalability item = true) :
    Sized none c count :=
  ⟨h, fun _ hnone ↦ (by cases hnone), fun hne ↦ absurd rfl hne⟩

/-- The first node is asked. -/
theorem Sized.of_first {c : Controller} {peerId : PeerId} (hitem : ∀ item ∈ c.nextTestItem, isScalability item = true)
    (hnodes : c.consensusNodes = ∅) (hasked : peerId ∉ c.optionalScalabilityConsensusNodes) :
    Sized (some peerId) c 1 := by
  refine ⟨hitem, ?_, ?_⟩
  · intro peerId' hmem
    obtain rfl := Option.some.inj hmem
    rw [hnodes]
    exact ⟨hasked, .inr ⟨Finset.notMem_empty _, rfl⟩⟩
  · rw [hnodes]
    exact fun _ _ _ ↦ Finset.notMem_empty _

/-- The next node is asked after the one before has joined. -/
theorem Sized.next {c c' : Controller} {peerId peerId' : PeerId} {count count' : UInt16}
    (h : Sized (some peerId) c count) (hjoined : peerId ∈ c.consensusNodes) (hcount : count'.toNat = count.toNat + 1)
    (hmem : peerId' ∈ c.optionalScalabilityConsensusNodes) (hitem : c'.nextTestItem = c.nextTestItem)
    (hnodes : c'.consensusNodes = c.consensusNodes)
    (hcandidates : c'.optionalScalabilityConsensusNodes = c.optionalScalabilityConsensusNodes.erase peerId') :
    Sized (some peerId') c' count' := by
  have hothers := h.candidates (Option.some_ne_none _)
  refine ⟨hitem ▸ h.planned, ?_, ?_⟩
  · intro q hq
    obtain rfl := Option.some.inj hq
    rw [hcandidates, hnodes]
    rcases (h.member peerId rfl).2 with ⟨-, hcard⟩ | ⟨habsent, -⟩
    · exact ⟨Finset.notMem_erase _ _, .inr ⟨hothers _ hmem, by rw [hcount, ← hcard]⟩⟩
    · exact absurd hjoined habsent
  · intro _ q hq
    rw [hcandidates] at hq
    rw [hnodes]
    exact hothers q (Finset.mem_of_mem_erase hq)

theorem Sized.of_frame {c c' : Controller} {node : Option PeerId} {count : UInt16} (h : Sized node c count)
    (hnodes : c'.consensusNodes = c.consensusNodes)
    (hplanned : ∀ item ∈ c'.nextTestItem, isScalability item = true)
    (hcandidates : c'.optionalScalabilityConsensusNodes = c.optionalScalabilityConsensusNodes) :
    Sized node c' count := by
  obtain ⟨-, member, candidates⟩ := h
  rw [← hnodes, ← hcandidates] at member candidates
  exact ⟨hplanned, member, candidates⟩

/-- Nodes are added that were asked or take part already. -/
theorem Sized.add {c c' : Controller} {node : Option PeerId} {count : UInt16} {added : Finset PeerId}
    (h : Sized node c count) (hadded : ∀ peerId ∈ added, node = some peerId ∨ peerId ∈ c.consensusNodes)
    (hnodes : c'.consensusNodes = c.consensusNodes ∪ added)
    (hplanned : ∀ item ∈ c'.nextTestItem, isScalability item = true)
    (hcandidates : c'.optionalScalabilityConsensusNodes = c.optionalScalabilityConsensusNodes) :
    Sized node c' count := by
  by_cases hsub : added ⊆ c.consensusNodes
  · rw [Finset.union_eq_left.2 hsub] at hnodes
    exact h.of_frame hnodes hplanned hcandidates
  · obtain ⟨peerId, hmem, habsent⟩ := Finset.not_subset.1 hsub
    obtain rfl := (hadded peerId hmem).resolve_right habsent
    have hinsert : c'.consensusNodes = insert peerId c.consensusNodes := by
      rw [hnodes]
      ext q
      rw [Finset.mem_union, Finset.mem_insert]
      constructor
      · rintro (hq | hq)
        · exact .inr hq
        · exact (hadded q hq).imp_left fun heq ↦ (Option.some.inj heq).symm
      · rintro (rfl | hq)
        · exact .inr hmem
        · exact .inl hq
    obtain ⟨hoptional, hcard⟩ := h.member peerId rfl
    refine ⟨hplanned, ?_, ?_⟩
    · intro q hq
      obtain rfl := Option.some.inj hq
      refine ⟨hcandidates ▸ hoptional, .inl ⟨hinsert ▸ Finset.mem_insert_self _ _, ?_⟩⟩
      rw [hinsert, Finset.card_insert_of_notMem habsent]
      exact (hcard.resolve_left fun hjoined ↦ habsent hjoined.1).2
    · intro hne q hq
      rw [hcandidates] at hq
      rw [hinsert, Finset.mem_insert, not_or]
      exact ⟨fun heq ↦ hoptional (heq ▸ hq), h.candidates hne q hq⟩

/-- The scalability items of the plan begin with one node. -/
def PlanFresh (c : Controller) : Prop := ∀ item ∈ c.testItems, ∀ count ∈ scalabilityCount item, count = 1

theorem performanceItems_cases (config : BFTDiagnosisConfig) :
    performanceItems config = [] ∨ ∃ item, performanceItems config = [item] ∧ isPerformance item = true := by
  unfold performanceItems
  dsimp only
  split_ifs
  · exact .inr ⟨_, rfl, rfl⟩
  · exact .inr ⟨_, rfl, rfl⟩
  · exact .inr ⟨_, rfl, rfl⟩
  · exact .inl rfl

/-- A performance item of an accepted configuration comes first. -/
theorem Configuration.testItems_cases {config : BFTDiagnosisConfig} {c : Controller} (h : Configuration config c) :
    ∃ rest, (c.testItems = rest ∨ ∃ item, isPerformance item = true ∧ c.testItems = rest ++ [item]) ∧
      ∀ item ∈ rest, isPerformance item = false ∧ ∀ count ∈ scalabilityCount item, count = 1 := by
  obtain ⟨malicious, hmalicious, hplan⟩ := h.testItems_eq
  rw [List.append_assoc, List.append_assoc, List.reverse_append] at hplan
  refine ⟨(scalabilityItems config ++ (crashItems config ++ malicious)).reverse, ?_, ?_⟩
  · rcases performanceItems_cases config with hnil | ⟨item, hitem, hkind⟩
    · rw [hnil, List.reverse_nil, List.append_nil] at hplan
      exact .inl hplan
    · rw [hitem, List.reverse_singleton] at hplan
      exact .inr ⟨item, hkind, hplan⟩
  · intro item hitem
    rw [List.mem_reverse, List.mem_append, List.mem_append] at hitem
    rcases hitem with hitem | hitem | hitem
    · obtain ⟨scalability, -, -, rfl⟩ := mem_scalabilityItems.1 hitem
      exact ⟨rfl, fun count hcount ↦ (Option.some.inj hcount).symm⟩
    · obtain ⟨crash, -, -, rfl⟩ := mem_crashItems.1 hitem
      exact ⟨rfl, fun count hcount ↦ by cases hcount⟩
    · obtain ⟨numberOfPhase, name, behaviour, -, rfl⟩ := mem_maliciousItems hmalicious hitem
      exact ⟨rfl, fun count hcount ↦ by cases hcount⟩

theorem Configuration.planFresh {config : BFTDiagnosisConfig} {c : Controller} (h : Configuration config c) :
    c.PlanFresh := by
  obtain ⟨rest, hplan, hrest⟩ := h.testItems_cases
  intro item hitem
  rcases hplan with hplan | ⟨performance, hkind, hplan⟩
  · exact (hrest item (hplan ▸ hitem)).2
  · rw [hplan, List.mem_append, List.mem_singleton] at hitem
    rcases hitem with hitem | rfl
    · exact (hrest item hitem).2
    · intro count hcount
      cases item with
      | scalability => cases hkind
      | throughput | latency | throughputAndLatency | crash | malicious => cases hcount

theorem Configuration.performanceFirst {config : BFTDiagnosisConfig} {c : Controller} (h : Configuration config c) :
    PerformanceFirst [] c := by
  obtain ⟨rest, hplan, hrest⟩ := h.testItems_cases
  refine ⟨.inl ⟨rfl, h.middle_eq_none, ?_⟩, fun _ hnone ↦ by cases hnone⟩
  intro item hitem
  rcases hplan with hplan | ⟨performance, -, hplan⟩
  · exact (hrest item (hplan ▸ List.mem_of_mem_dropLast hitem)).1
  · rw [hplan, List.dropLast_concat] at hitem
    exact (hrest item hitem).1

theorem askedPeer_of_prepares {actions : List Action} (h : ∀ action ∈ actions, action.prepares = false) :
    actions.filterMap askedPeer = [] := by
  apply List.filterMap_eq_nil_iff.2
  intro action haction
  have hprepares := h action haction
  cases action with
  | sendMessage receiver message => cases message <;> first | rfl | cases hprepares
  | publish => rfl
  | conspireRequestSendTimerStart => rfl

theorem filterMap_askedPeer_idleNodes (walk : Walk PeerId) (c : Controller) :
    (c.idleNodes walk).filterMap askedPeer = [] := by
  apply List.filterMap_eq_nil_iff.2
  intro action haction
  obtain ⟨receiver, -, rfl⟩ := List.mem_map.1 haction
  rfl

/-- A scalability item that configuring announces last has been left without a node, or its first node is
asked. -/
theorem Configured.sized {c c' : Controller} {actions : List Action} {count max increment : UInt16}
    (h : Configured walk c c' actions) (hfresh : c.PlanFresh)
    (hlast : (announcedItems c.analyzerId actions).getLast? = some (.scalability count max increment)) :
    Sized (actions.filterMap askedPeer).getLast? c' count := by
  induction h with
  | exhausted => cases hlast
  | @plain c rest item plan kind =>
    rw [announcedItems_cons_testItem, announcedItems_configureNodes] at hlast
    obtain rfl : item = .scalability count max increment := Option.some.inj hlast
    cases kind
  | @scalability c rest count' max' increment' peerId plan chosen =>
    rw [announcedItems_cons_testItem, announcedItems_cons_of_none rfl, announcedItems_idleNodes] at hlast
    obtain ⟨rfl, -, -⟩ := TestItem.scalability.inj (Option.some.inj hlast)
    obtain rfl := hfresh _ (by rw [plan]; exact List.mem_concat_self) _ rfl
    have hasked : askedPeer (.sendMessage peerId (.configureConsensusNode .other)) = some peerId := rfl
    rw [List.filterMap_cons_none rfl, List.filterMap_cons_some hasked, filterMap_askedPeer_idleNodes]
    refine Sized.of_first ?_ rfl (Finset.notMem_erase _ _)
    intro item hitem
    obtain rfl := Option.some.inj hitem
    rfl
  | @skipped c c' rest count' max' increment' actions plan nobody next ih =>
    rw [announcedItems_cons_testItem] at hlast
    rw [List.filterMap_cons_none rfl]
    by_cases hsilent : announcedItems c.analyzerId actions = []
    · -- the plan is exhausted and nobody is asked
      obtain ⟨rfl, rfl⟩ := next.eq_of_silent hsilent
      exact .of_none fun _ hnone ↦ by cases hnone
    · refine ih ?_ ?_
      · intro item hitem
        exact hfresh item (by rw [plan]; exact List.mem_append_left _ (by simpa using hitem))
      · rw [List.getLast?_cons_of_ne_nil hsilent] at hlast
        exact hlast

theorem asked_of_silent {run : Run} {t : Transition Controller Event (List Action)}
    (hsilent : announcedItems t.pre.analyzerId t.out = []) :
    asked (run ++ [t]) = ((t.out.filterMap askedPeer).getLast?).or (asked run) := by
  rw [asked_concat, if_pos hsilent]
  rfl

theorem asked_of_announced {run : Run} {t : Transition Controller Event (List Action)} {item : TestItem}
    (hlast : (announcedItems t.pre.analyzerId t.out).getLast? = some item) :
    asked (run ++ [t]) = (t.out.filterMap askedPeer).getLast? := by
  have hne : announcedItems t.pre.analyzerId t.out ≠ [] := by
    intro hnil
    rw [hnil] at hlast
    cases hlast
  rw [asked_concat, if_neg hne]
  rfl

/-- Whatever scalability item is announced, as many nodes take part as it says. -/
def RoundSized (run : Run) (c : Controller) : Prop :=
  ∀ count max increment, (announcement run).item = some (.scalability count max increment) → Sized (asked run) c count

/-- A turn that announces nothing. -/
theorem RoundSized.of_silent {run : Run} {t : Transition Controller Event (List Action)} (h : RoundSized run t.pre)
    (hsilent : announcedItems t.pre.analyzerId t.out = [])
    (hstep : ∀ count max increment, (announcement run).item = some (.scalability count max increment) →
      Sized (asked run) t.pre count → Sized (((t.out.filterMap askedPeer).getLast?).or (asked run)) t.post count) :
    RoundSized (run ++ [t]) t.post := by
  intro count max increment hitem
  rw [announcement_concat, Announcement.next_of_nil hsilent] at hitem
  rw [asked_of_silent hsilent]
  exact hstep count max increment hitem (h count max increment hitem)

/-- A turn that announces an item. -/
theorem RoundSized.of_announced {run : Run} {t : Transition Controller Event (List Action)} (item : TestItem)
    (hlast : (announcedItems t.pre.analyzerId t.out).getLast? = some item)
    (hstep : ∀ count max increment, item = .scalability count max increment →
      Sized (t.out.filterMap askedPeer).getLast? t.post count) : RoundSized (run ++ [t]) t.post := by
  intro count max increment hitem
  rw [announcement_concat, Announcement.next_of_some hlast] at hitem
  rw [asked_of_announced hlast]
  exact hstep count max increment (Option.some.inj hitem)

theorem RoundSized.step_unprepared {run : Run} {t : Transition Controller Event (List Action)}
    (h : RoundSized run t.pre) (hmet : JoinsOneByOne run t)
    (hunprepared : Unprepared t.pre (t.pre.route t.event.input) t.post t.out) : RoundSized (run ++ [t]) t.post := by
  refine h.of_silent (announcedItems_of_prepares hunprepared.sent) ?_
  intro count max increment hitem hsized
  rw [askedPeer_of_prepares hunprepared.sent]
  refine hsized.add (hmet.joins (by rw [hitem]; rfl)) ?_ ?_ hunprepared.scalabilityCandidates
  · rw [hunprepared.nodes, Finset.union_assoc]
    rfl
  · rw [hunprepared.nextTestItem]
    exact hsized.planned

theorem RoundSized.step_called {run : Run} {t : Transition Controller Event (List Action)} {c₁ : Controller}
    (h : RoundSized run t.pre) (hfirst : PerformanceFirst run t.pre) (hpending : PendingFollows run t.pre)
    (hfresh : t.pre.PlanFresh) (hmet : JoinsOneByOne run t) (hcall : CallsNextTest t.pre t.event c₁)
    (hnext : NextTest t.event.walk c₁ t.post t.out) : RoundSized (run ++ [t]) t.post := by
  have hround (increment : UInt16) (hincrement : c₁.nextMidTestItem.bind scalabilityIncrement = some increment) :
      increment = 1 ∧ t.pre.optionalScalabilityConsensusNodes ≠ ∅ ∧
        ∃ peerId ∈ asked run, peerId ∈ t.pre.consensusNodes :=
    hmet.round increment (by rw [hcall.middleAtCall_eq]; exact hincrement)
  have hfollows {count' max' increment : UInt16}
      (hmiddle : c₁.nextMidTestItem = some (.scalability count' max' increment)) :
      FollowsAnnounced run count' increment :=
    hpending.of_call hfirst hmet.inOrder hcall hmiddle
  obtain ⟨c, event, actions, c'⟩ := t
  dsimp only at hcall hnext hfresh
  obtain ⟨middle, fields, crashNodes, rfl⟩ := hcall.exists_eq
  have hsame (hsilent : announcedItems c.analyzerId actions = []) (hasked : actions.filterMap askedPeer = [])
      (hnodes : c'.consensusNodes = c.consensusNodes)
      (hcandidates : c'.optionalScalabilityConsensusNodes = c.optionalScalabilityConsensusNodes)
      (hitem : ∀ item ∈ c'.nextTestItem, item ∈ c.nextTestItem) :
      RoundSized (run ++ [⟨c, event, actions, c'⟩]) c' := by
    refine h.of_silent hsilent ?_
    intro count max increment _ hsized
    rw [hasked]
    exact hsized.of_frame hnodes (fun item hmem ↦ hsized.planned item (hitem item hmem)) hcandidates
  cases hnext with
  | configured _ next =>
    cases hlast : (announcedItems c.analyzerId actions).getLast? with
    | some item =>
      refine .of_announced item hlast ?_
      rintro count max increment rfl
      exact next.sized hfresh hlast
    | none =>
      obtain ⟨rfl, rfl⟩ := next.eq_of_silent (List.getLast?_eq_none_iff.1 hlast)
      exact hsame rfl rfl rfl rfl fun _ hnone ↦ by cases hnone
  | nobodyJoined middle_eq nobody => exact absurd nobody (hround _ (by rw [middle_eq]; rfl)).2.1
  | notEnoughConspire =>
    exact .of_announced _ (getLast?_announcedItems_concat _ _ _) fun _ _ _ heq ↦ by cases heq
  | @joined count max increment peerId middle_eq chosen =>
    refine .of_announced _ (getLast?_announcedItems_concat _ [_] _) ?_
    intro count' max' increment' heq
    obtain ⟨rfl, rfl, rfl⟩ := TestItem.scalability.inj heq
    obtain ⟨rfl, -, peerId', hasked, hjoined⟩ := hround _ (by rw [middle_eq]; rfl)
    obtain ⟨count₀, max₀, hannounced, hcount⟩ := hfollows middle_eq
    have hsized := h count₀ max₀ 1 hannounced
    rw [Option.mem_def.1 hasked] at hsized
    exact hsized.next hjoined hcount (Walk.mem_of_last chosen) rfl rfl rfl
  | @dishonest item mode id middle_eq kind chosen =>
    refine .of_announced item ?_ ?_
    · rw [announcedItems_cons_of_none rfl]
      exact congrArg List.getLast? (announcedItems_cons_testItem c.analyzerId item _)
    · rintro count max increment rfl
      cases kind
  | conspire =>
    exact .of_announced _ (getLast?_announcedItems_concat _ _ _) fun _ _ _ heq ↦ by cases heq
  | @noCrash max =>
    refine .of_announced (.crash 0 max) ?_ fun _ _ _ heq ↦ by cases heq
    exact congrArg List.getLast? (announcedItems_cons_testItem c.analyzerId _ _)
  | @crash count max peerId middle_eq =>
    refine .of_announced (.crash count max) ?_ fun _ _ _ heq ↦ by cases heq
    rw [announcedItems_cons_of_none rfl]
    exact congrArg List.getLast? (announcedItems_cons_testItem c.analyzerId _ _)
  | nobodyDishonest | ignored => exact hsame rfl rfl rfl rfl fun _ hmem ↦ hmem

theorem RoundSized.step {run : Run} {t : Transition Controller Event (List Action)} (h : RoundSized run t.pre)
    (hfirst : PerformanceFirst run t.pre) (hpending : PendingFollows run t.pre) (hfresh : t.pre.PlanFresh)
    (hmet : JoinsOneByOne run t) (htaken : Controller.step X t.pre t.event = some (t.post, t.out)) :
    RoundSized (run ++ [t]) t.post := by
  have hone (hcommand : t.event.input = .command .configureConsensusNode) {count max increment : UInt16}
      (hitem : (announcement run).item = some (.scalability count max increment)) : count = 1 :=
    hmet.first hcommand count (by rw [hitem]; rfl)
  have hturn := step_turn htaken
  obtain ⟨c, event, actions, c'⟩ := t
  dsimp only at hturn hfresh hone
  cases hturn with
  | unprepared _ unprepared => exact h.step_unprepared hmet unprepared
  | called call next => exact h.step_called hfirst hpending hfresh hmet call next
  | planExhausted =>
    refine h.of_silent rfl ?_
    intro count max increment _ hsized
    exact hsized.of_frame rfl (fun _ hnone ↦ by cases hnone) rfl
  | @itemAnnounced rest item =>
    refine .of_announced item (congrArg List.getLast? (announcedItems_cons_testItem c.analyzerId item [])) ?_
    rintro count max increment rfl
    exact .of_none fun _ hitem ↦ by rw [← Option.some.inj hitem]; rfl
  | nodesConfigured _ item_eq kind =>
    refine h.of_silent (announcedItems_configureNodes _ _ _) ?_
    intro count max increment _ hsized
    cases kind.symm.trans (hsized.planned _ item_eq)
  | @firstConfigured count max increment peerId command item_eq chosen =>
    refine h.of_silent ((announcedItems_cons_of_none rfl).trans (announcedItems_idleNodes _ _ _)) ?_
    intro count' max' increment' hitem hsized
    obtain rfl := hone command hitem
    have hasked : askedPeer (.sendMessage peerId (.configureConsensusNode .first)) = some peerId := rfl
    rw [List.filterMap_cons_some hasked, filterMap_askedPeer_idleNodes]
    exact .of_first hsized.planned rfl (Finset.notMem_erase _ _)
  | @nobodyConfigured count max increment c' configured command item_eq nobody next =>
    have hannounced : announcedItems c.analyzerId (configured ++ c'.idleNodes event.walk) =
        announcedItems c.analyzerId configured := by
      rw [announcedItems_append, announcedItems_idleNodes, List.append_nil]
    have hasked : (configured ++ c'.idleNodes event.walk).filterMap askedPeer = configured.filterMap askedPeer := by
      rw [List.filterMap_append, filterMap_askedPeer_idleNodes, List.append_nil]
    cases hlast : (announcedItems c.analyzerId configured).getLast? with
    | some item =>
      refine .of_announced item (by rw [hannounced]; exact hlast) ?_
      rintro count max increment rfl
      rw [hasked]
      exact next.sized hfresh hlast
    | none =>
      have hsilent := List.getLast?_eq_none_iff.1 hlast
      refine h.of_silent (by rw [hannounced]; exact hsilent) ?_
      intro count' max' increment' hitem hsized
      obtain rfl := hone command hitem
      obtain ⟨rfl, rfl⟩ := next.eq_of_silent hsilent
      refine ⟨fun _ hnone ↦ (by cases hnone), ?_, fun _ _ _ ↦ Finset.notMem_empty _⟩
      intro peerId _
      have habsent : peerId ∉ c.optionalScalabilityConsensusNodes := by
        rw [nobody]
        exact Finset.notMem_empty _
      exact ⟨habsent, .inr ⟨Finset.notMem_empty _, rfl⟩⟩

/-! ## Labels of a run -/

/-- What holds after a run of orderly rounds. -/
structure Orderly (run : Run) (c : Controller) : Prop where
  performance : PerformanceFirst run c
  pending : PendingFollows run c
  fresh : c.PlanFresh
  sized : RoundSized run c

theorem Orderly.step {run : Run} {t : Transition Controller Event (List Action)} (h : Orderly run t.pre)
    (hmet : JoinsOneByOne run t) (htaken : Controller.step X t.pre t.event = some (t.post, t.out)) :
    Orderly (run ++ [t]) t.post where
  performance := h.performance.step hmet.inOrder htaken
  pending := h.pending.step h.performance hmet.inOrder htaken
  fresh item hitem := h.fresh item ((step_turn htaken).planStep.subset item hitem)
  sized := h.sized.step h.performance h.pending h.fresh hmet htaken

theorem orderly_of_isRun {config : BFTDiagnosisConfig} {c₀ c : Controller} {run : Run} (h : Configuration config c₀)
    (hrun : IsRun (step X) c₀ run c)
    (hcondition : ∀ before t after, run = before ++ t :: after → JoinsOneByOne before t) : Orderly run c := by
  refine IsRun.induction_of_split (motive := Orderly) ?_ ?_ hrun hcondition
  · exact ⟨h.performanceFirst, fun hfalse ↦ (by cases hfalse), h.planFresh, fun _ _ _ hnone ↦ by cases hnone⟩
  · intro run s event out s' horderly hmet htaken
    exact horderly.step hmet htaken

/-- In every run from an accepted configuration in which one node joins in each round, the scalability item that
was announced last says how many nodes take part when a test is started. -/
theorem labelsRight_of_joinsOneByOne {config : BFTDiagnosisConfig} {c₀ c : Controller} {run : Run}
    (h : Configuration config c₀) (hrun : IsRun (step X) c₀ run c)
    (hcondition : ∀ before t after, run = before ++ t :: after → JoinsOneByOne before t) : LabelsRight run := by
  intro before t after count max increment hsplit hstart hitem
  obtain ⟨hbefore, htaken⟩ := hrun.before hsplit
  have hmet := hcondition before t after hsplit
  have hstarts : t.pre.startsTest (t.pre.route t.event.input) = true := by
    have hcount := (step_starts htaken).countP_eq
    by_contra hfalse
    rw [if_neg hfalse, List.countP_eq_zero] at hcount
    obtain ⟨action, haction, hkind⟩ := List.any_eq_true.1 hstart
    exact hcount action haction hkind
  have hunprepared := unprepared_of_startsTest htaken hstarts
  have horderly := orderly_of_isRun h hbefore (forall_split_of_append hcondition hsplit)
  have hsized := (horderly.step hmet htaken).sized count max increment
  rw [announcement_concat, Announcement.next_of_nil (announcedItems_of_prepares hunprepared.sent),
    asked_of_silent (announcedItems_of_prepares hunprepared.sent), askedPeer_of_prepares hunprepared.sent] at hsized
  obtain ⟨peerId, hasked, hmem⟩ := hmet.started hstarts (by rw [hitem]; rfl)
  rcases ((hsized hitem).member peerId hasked).2 with ⟨-, hcard⟩ | ⟨habsent, -⟩
  · exact hcard
  · refine absurd ?_ habsent
    rw [hunprepared.nodes, Finset.union_assoc]
    exact hmem

-- Only the value that is there is looked at, and not every number of the type.
instance decidableForallMemUInt16 {o : Option UInt16} {P : UInt16 → Prop} [DecidablePred P] :
    Decidable (∀ n ∈ o, P n) :=
  Option.decidableForallMem o

instance JoinsOneByOne.decidable (before : Run) (t : Transition Controller Event (List Action)) :
    Decidable (JoinsOneByOne before t) :=
  decidable_of_iff (InOrder before t ∧
    (∀ increment ∈ (middleAtCall t).bind scalabilityIncrement, increment = 1 ∧
      t.pre.optionalScalabilityConsensusNodes ≠ ∅ ∧ ∃ peerId ∈ asked before, peerId ∈ t.pre.consensusNodes) ∧
    ((announcement before).item.any isScalability = true →
      ∀ peerId ∈ addedPeers t, asked before = some peerId ∨ peerId ∈ t.pre.consensusNodes) ∧
    (t.event.input = .command .configureConsensusNode →
      ∀ count ∈ (announcement before).item.bind scalabilityCount, count = 1) ∧
    (t.pre.startsTest (t.pre.route t.event.input) = true →
      (announcement before).item.any isScalability = true →
      ∃ peerId ∈ asked before, peerId ∈ t.pre.consensusNodes ∪ addedPeers t))
    ⟨fun h ↦ ⟨h.1, h.2.1, h.2.2.1, h.2.2.2.1, h.2.2.2.2⟩,
      fun h ↦ ⟨h.inOrder, h.round, h.joins, h.first, h.started⟩⟩

/-- A scalability test with up to three nodes. -/
def scalabilityConfig (increment : UInt16) : BFTDiagnosisConfig where
  throughput := none
  latency := none
  scalability := some ⟨some true, some 3, some increment⟩
  crash := none
  malicious := none

/-- The first node answers, the test is started and completed, and a second node joins. -/
def twoRoundsEvents (increment : UInt16) : List Event :=
  [(Input.discovered [[1], [2], [3]]).sorted, (Input.command .configureAnalyzer).sorted,
    (Input.command .configureConsensusNode).sorted,
    (Input.unicast [3] (.consensusNodeModeSuccess (.honest .first))).sorted,
    (Input.command .protocolStart).sorted, (Input.command .startTest).sorted,
    (Input.gossip (.completedTest (.scalability 1 3 increment))).sorted,
    (Input.unicast [3] (.resetSuccess (.honest .first))).sorted,
    (Input.unicast [2] .joinConsensusSuccess).sorted]

def scalabilityRun (increment : UInt16) : Run :=
  transitions (step Externals.transparent) (freshWith (scalabilityConfig increment)) (twoRoundsEvents increment)

/-- The sizes of the tests of a run with the items that they are published under. -/
def labels (run : Run) : List (Option TestItem × ℕ) :=
  (List.range run.length).filterMap fun i ↦ do
    let t ← run[i]?
    if t.out.any isStartTest then some ((announcement (run.take i)).item, t.post.consensusNodes.card) else none

theorem labelsRight_of_joinsOneByOne_twoRounds :
    labels (scalabilityRun 1) = [(some (.scalability 1 3 1), 1), (some (.scalability 2 3 1), 2)] ∧
      LabelsRight (scalabilityRun 1) := by
  have hrun : IsRun (step Externals.transparent) (freshWith (scalabilityConfig 1)) (scalabilityRun 1)
      (final (step Externals.transparent) (freshWith (scalabilityConfig 1)) (twoRoundsEvents 1)) :=
    IsRun.of_isSome (by decide +kernel)
  have hcondition : ∀ before t after, scalabilityRun 1 = before ++ t :: after → JoinsOneByOne before t :=
    forall_split_of_forall (by decide +kernel)
  exact ⟨by decide +kernel, labelsRight_of_joinsOneByOne (configuration_freshWith (by decide)) hrun hcondition⟩

/-- With the increment two, a test of two nodes is published under three. -/
theorem not_labelsRight_of_increment_two :
    Configuration (scalabilityConfig 2) (freshWith (scalabilityConfig 2)) ∧
      IsRun (step Externals.transparent) (freshWith (scalabilityConfig 2)) (scalabilityRun 2)
        (final (step Externals.transparent) (freshWith (scalabilityConfig 2)) (twoRoundsEvents 2)) ∧
      labels (scalabilityRun 2) = [(some (.scalability 1 3 2), 1), (some (.scalability 3 3 2), 2)] ∧
      ¬ LabelsRight (scalabilityRun 2) := by
  refine ⟨configuration_freshWith (by decide), IsRun.of_isSome (by decide +kernel), by decide +kernel, ?_⟩
  intro hlabels
  have hcard := hlabels _ _ _ 3 3 2 (eq_take_append_cons_drop (scalabilityRun 2) 8 (by decide +kernel))
    (by decide +kernel) (by decide +kernel)
  exact absurd hcard (by decide +kernel)

end BFTDiagnosis.Controller
