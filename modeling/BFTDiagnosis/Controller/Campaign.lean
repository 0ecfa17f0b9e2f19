import BFTDiagnosis.Controller.Crash

/-!
# The campaign of a configuration

The controller works off a plan. It announces the items of the plan in their order and, after an item, the middle
items that follow from it, each from the one before: a larger cluster, one more crashed node, the next phase, the
next field. `WorksOff` says this of the items that have been announced and of the rest of the plan. The handlers do
no more as long as the analyzer completes the item that it was told last, and as long as there are nodes for the
two kinds of middle items that are announced without them after the next item of the plan.
-/

namespace BFTDiagnosis.Controller

open Components Word

variable {X : Externals} {walk : Walk PeerId}

/-! ## Working off a plan -/

inductive NextRound (maxPhase : UInt8) : Round → Round → Prop
  | first (positive : 0 < maxPhase) : NextRound maxPhase .firstRound (.otherRound 1)
  | other {phase next : UInt8} (more : phase < maxPhase) (next_eq : next.toNat = phase.toNat + 1) :
      NextRound maxPhase (.otherRound phase) (.otherRound next)

/-- Where a behaviour goes on that is tested with fields and numbers of nodes: to one more node, and from the last
number to another field of the phase or to the next phase. -/
inductive NextField (maxPhase : UInt8) : Round → UInt16 → List String → Round → UInt16 → List String → Prop
  | first {count : UInt16} {field next : List String} (positive : 0 < maxPhase) :
      NextField maxPhase .firstRound count field (.otherRound 1) 1 next
  | node {phase : UInt8} {count next : UInt16} {field : List String} (next_eq : next.toNat = count.toNat + 1) :
      NextField maxPhase (.otherRound phase) count field (.otherRound phase) next field
  | field {phase : UInt8} {count : UInt16} {field next : List String} (more : next ≠ []) :
      NextField maxPhase (.otherRound phase) count field (.otherRound phase) 1 next
  | phase {phase nextPhase : UInt8} {count : UInt16} {field next : List String} (more : phase ≠ maxPhase)
      (next_eq : nextPhase.toNat = phase.toNat + 1) :
      NextField maxPhase (.otherRound phase) count field (.otherRound nextPhase) 1 next

/-- The middle items that follow an item. -/
inductive Succeeds : TestItem → TestItem → Prop
  | scalability {count next max increment : UInt16} (next_eq : next.toNat = count.toNat + increment.toNat)
      (le : next ≤ max) : Succeeds (.scalability count max increment) (.scalability next max increment)
  | crash {count next max : UInt16} (next_eq : next.toNat = count.toNat + 1) (le : next ≤ max) :
      Succeeds (.crash count max) (.crash next max)
  | feignDeath {round next : Round} {maxPhase : UInt8} (later : NextRound maxPhase round next) :
      Succeeds (.malicious (.leaderFeignDeath round maxPhase)) (.malicious (.leaderFeignDeath next maxPhase))
  | delay {round next : Round} {maxPhase : UInt8} (later : NextRound maxPhase round next) :
      Succeeds (.malicious (.leaderDelaySendMessage round maxPhase))
        (.malicious (.leaderDelaySendMessage next maxPhase))
  | duplicate {round next : Round} {maxPhase : UInt8} (later : NextRound maxPhase round next) :
      Succeeds (.malicious (.leaderSendDuplicateMessage round maxPhase))
        (.malicious (.leaderSendDuplicateMessage next maxPhase))
  | ambiguous {round next : Round} {maxPhase : UInt8} {field field' : List String} {count count' : UInt16}
      (later : NextField maxPhase round count field next count' field') :
      Succeeds (.malicious (.leaderSendAmbiguousMessage round maxPhase field count))
        (.malicious (.leaderSendAmbiguousMessage next maxPhase field' count'))
  | conspire {round next : Round} {maxPhase : UInt8} {field field' : List String} {count count' : UInt16}
      (later : NextField maxPhase round count field next count' field') :
      Succeeds (.malicious (.replicaNodeConspireForgeMessages round maxPhase field count))
        (.malicious (.replicaNodeConspireForgeMessages next maxPhase field' count'))

/-- The items that have been announced and the rest of the plan. -/
inductive WorksOff (plan : List TestItem) : List TestItem → List TestItem → Prop
  | start : WorksOff plan [] plan
  | item {announced rest : List TestItem} {item : TestItem} (previous : WorksOff plan announced (item :: rest)) :
      WorksOff plan (announced ++ [item]) rest
  | middle {announced rest : List TestItem} {last next : TestItem} (previous : WorksOff plan announced rest)
      (last_eq : announced.getLast? = some last) (succeeds : Succeeds last next) :
      WorksOff plan (announced ++ [next]) rest

theorem WorksOff.items {plan announced items rest : List TestItem} (h : WorksOff plan announced (items ++ rest)) :
    WorksOff plan (announced ++ items) rest := by
  induction items generalizing announced with
  | nil => rwa [List.append_nil]
  | cons item items ih =>
    have hrest := ih h.item
    rwa [List.append_assoc] at hrest

theorem WorksOff.eq_of_nil {plan announced rest : List TestItem} (h : WorksOff plan announced rest)
    (hnil : announced = []) : rest = plan := by
  cases h with
  | start => rfl
  | item previous => simp at hnil
  | middle previous => simp at hnil

/-- What is announced first is the first item of the plan. -/
theorem WorksOff.suffix_tail {plan announced rest : List TestItem} (h : WorksOff plan announced rest)
    (hsome : announced ≠ []) : rest <:+ plan.tail := by
  induction h with
  | start => exact absurd rfl hsome
  | @item announced rest item previous ih =>
    by_cases hnil : announced = []
    · rw [← previous.eq_of_nil hnil]
      exact List.suffix_refl _
    · exact (List.suffix_cons item rest).trans (ih hnil)
  | middle previous hlast hsucceeds ih =>
    refine ih fun hnil ↦ ?_
    rw [hnil] at hlast
    cases hlast

/-! ## The middle item after a completed test -/

theorem nextRound_of_completePhase {c c₁ : Controller} {behaviour : Round → UInt8 → MaliciousBehaviour} {round : Round}
    {maxPhase : UInt8} {next : TestItem} (h : c.completePhase behaviour round maxPhase = some c₁)
    (hnext : c₁.nextMidTestItem = some next) :
    ∃ later, NextRound maxPhase round later ∧ next = .malicious (behaviour later maxPhase) := by
  unfold completePhase at h
  cases round with
  | firstRound =>
    dsimp only at h
    split at h
    case isTrue hpositive =>
      rw [← Option.some.inj h] at hnext
      exact ⟨_, .first hpositive, (Option.some.inj hnext).symm⟩
    case isFalse =>
      rw [← Option.some.inj h] at hnext
      cases hnext
  | otherRound phase =>
    dsimp only at h
    split at h
    case isTrue hmore =>
      obtain ⟨nextPhase, hadd, hresult⟩ := Option.bind_eq_some_iff.1 h
      rw [← Option.some.inj hresult] at hnext
      exact ⟨_, .other hmore (checkedAdd8_eq_some_iff.1 hadd), (Option.some.inj hnext).symm⟩
    case isFalse =>
      rw [← Option.some.inj h] at hnext
      cases hnext

theorem nextField_of_completeField {c c₁ : Controller}
    {behaviour : Round → UInt8 → List String → UInt16 → MaliciousBehaviour} {round : Round} {maxPhase : UInt8}
    {field : List String} {count : UInt16} {next : TestItem}
    (h : c.completeField behaviour round maxPhase field count = some c₁) (hnext : c₁.nextMidTestItem = some next) :
    ∃ later count' field', NextField maxPhase round count field later count' field' ∧
      next = .malicious (behaviour later maxPhase field' count') := by
  unfold completeField at h
  cases round with
  | firstRound =>
    dsimp only at h
    split at h
    case isTrue hpositive =>
      obtain ⟨⟨c₂, nextField⟩, -, hresult⟩ := Option.bind_eq_some_iff.1 h
      rw [← Option.some.inj hresult] at hnext
      exact ⟨_, _, _, .first hpositive, (Option.some.inj hnext).symm⟩
    case isFalse =>
      rw [← Option.some.inj h] at hnext
      cases hnext
  | otherRound phase =>
    dsimp only at h
    split at h
    case isTrue =>
      obtain ⟨⟨c₂, nextField⟩, -, hrest⟩ := Option.bind_eq_some_iff.1 h
      dsimp only at hrest
      split at hrest
      case isTrue =>
        split at hrest
        case isTrue =>
          rw [← Option.some.inj hrest] at hnext
          cases hnext
        case isFalse hmore =>
          obtain ⟨nextPhase, hadd, hrest⟩ := Option.bind_eq_some_iff.1 hrest
          obtain ⟨⟨c₃, nextField'⟩, -, hresult⟩ := Option.bind_eq_some_iff.1 hrest
          rw [← Option.some.inj hresult] at hnext
          exact ⟨_, _, _, .phase hmore (checkedAdd8_eq_some_iff.1 hadd), (Option.some.inj hnext).symm⟩
      case isFalse hfield =>
        rw [← Option.some.inj hrest] at hnext
        exact ⟨_, _, _, .field fun hnil ↦ hfield (congrArg List.length hnil), (Option.some.inj hnext).symm⟩
    case isFalse =>
      obtain ⟨nextCount, hadd, hresult⟩ := Option.bind_eq_some_iff.1 h
      rw [← Option.some.inj hresult] at hnext
      exact ⟨_, _, _, .node (checkedAdd16_eq_some_iff.1 hadd), (Option.some.inj hnext).symm⟩

/-- The handler of `CompletedTest` goes on to an item that succeeds, unless a performance test is completed. -/
theorem succeeds_of_completeTest {c c₁ : Controller} {item next : TestItem} (h : c.completeTest item = some c₁)
    (hkind : isPerformance item = false) (hnext : c₁.nextMidTestItem = some next) : Succeeds item next := by
  cases item with
  | throughput | latency | throughputAndLatency => cases hkind
  | scalability count max increment =>
    obtain ⟨nextCount, hadd, hresult⟩ := Option.bind_eq_some_iff.1 h
    rw [← Option.some.inj hresult, setNextMidTestItem] at hnext
    dsimp only at hnext
    split at hnext
    case isTrue hle => exact Option.some.inj hnext ▸ .scalability (checkedAdd16_eq_some_iff.1 hadd) hle
    case isFalse => cases hnext
  | crash count max =>
    obtain ⟨nextCount, hadd, hresult⟩ := Option.bind_eq_some_iff.1 h
    rw [← Option.some.inj hresult, setNextMidTestItem] at hnext
    dsimp only at hnext
    split at hnext
    case isTrue hle => exact Option.some.inj hnext ▸ .crash (checkedAdd16_eq_some_iff.1 hadd) hle
    case isFalse => cases hnext
  | malicious behaviour =>
    cases behaviour with
    | leaderFeignDeath round maxPhase =>
      obtain ⟨later, hlater, rfl⟩ := nextRound_of_completePhase h hnext
      exact .feignDeath hlater
    | leaderDelaySendMessage round maxPhase =>
      obtain ⟨later, hlater, rfl⟩ := nextRound_of_completePhase h hnext
      exact .delay hlater
    | leaderSendDuplicateMessage round maxPhase =>
      obtain ⟨later, hlater, rfl⟩ := nextRound_of_completePhase h hnext
      exact .duplicate hlater
    | leaderSendAmbiguousMessage round maxPhase field count =>
      obtain ⟨later, count', field', hlater, rfl⟩ := nextField_of_completeField h hnext
      exact .ambiguous hlater
    | replicaNodeConspireForgeMessages round maxPhase field count =>
      obtain ⟨later, count', field', hlater, rfl⟩ := nextField_of_completeField h hnext
      exact .conspire hlater

/-! ## What a turn announces -/

/-- The number of nodes is enough for a middle item that is announced without them after the next item of the plan. -/
def suppliesItem (c : Controller) : TestItem → Bool
  | .scalability .. => decide (c.optionalScalabilityConsensusNodes ≠ ∅)
  | .malicious (.replicaNodeConspireForgeMessages _ _ _ count) =>
    decide (count.toNat ≤ c.optionalDishonestConsensusNodes.length)
  | _ => true

/-- The turn goes on with the plan, or with the middle item that is pending after a completed test. -/
inductive Announces (c : Controller) (event : Event) (c' : Controller) : List TestItem → Prop
  | plan {items : List TestItem} (taken : c.testItems.reverse = items ++ c'.testItems.reverse) :
      Announces c event c' items
  | middle {item : TestItem} {c₁ : Controller} (call : CallsNextTest c event c₁)
      (pending : c'.nextMidTestItem = some item) (kept : c'.testItems = c.testItems) : Announces c event c' [item]

theorem Announces.of_same {c c' : Controller} {event : Event} (h : c'.testItems = c.testItems) :
    Announces c event c' [] := .plan (by rw [h, List.nil_append])

/-- Configuring announces what it takes from the plan. -/
theorem Configured.testItems_eq {c c' : Controller} {actions : List Action} (h : Configured walk c c' actions) :
    c.testItems.reverse = announcedItems c.analyzerId actions ++ c'.testItems.reverse := by
  induction h with
  | exhausted => rfl
  | @plain c rest item plan kind =>
    rw [announcedItems_cons_testItem, announcedItems_configureNodes, plan, List.reverse_concat, announce_testItems]
    rfl
  | @scalability c rest count max increment peerId plan chosen =>
    rw [announcedItems_cons_testItem, announcedItems_cons_of_none rfl, announcedItems_idleNodes, plan,
      List.reverse_concat]
    rfl
  | @skipped c c' rest count max increment actions plan nobody next ih =>
    have hrest : rest.reverse = announcedItems c.analyzerId actions ++ c'.testItems.reverse := ih
    rw [announcedItems_cons_testItem, plan, List.reverse_concat, hrest, List.cons_append]

/-- With enough nodes the next test is the middle item or goes on with the plan. -/
theorem NextTest.announces {c c₁ c' : Controller} {event : Event} {actions : List Action}
    (hcall : CallsNextTest c event c₁) (h : NextTest walk c₁ c' actions)
    (hsupplied : ∀ item ∈ c'.nextMidTestItem, c.suppliesItem item = true) :
    Announces c event c' (announcedItems c.analyzerId actions) := by
  obtain ⟨middle, fields, crashNodes, rfl⟩ := hcall.exists_eq
  have hpending := h.sameCursor.middle
  have hmiddle {item : TestItem} {actions : List Action} (hannounced : announcedItems c.analyzerId actions = [item])
      (hmid : middle = some item) (hkept : c'.testItems = c.testItems) :
      Announces c event c' (announcedItems c.analyzerId actions) := by
    rw [hannounced]
    exact .middle hcall (hpending.trans hmid) hkept
  cases h with
  | configured _ next => exact .plan next.testItems_eq
  | nobodyJoined hmid nobody next =>
    have hsome := hsupplied _ (hpending.trans hmid)
    rw [suppliesItem, decide_eq_true_eq] at hsome
    exact absurd nobody hsome
  | notEnoughConspire hmid short next =>
    have henough := hsupplied _ (hpending.trans hmid)
    rw [suppliesItem, decide_eq_true_eq] at henough
    exact absurd short (Nat.not_lt.2 henough)
  | joined hmid =>
    exact hmiddle ((announcedItems_cons_of_none rfl).trans (announcedItems_cons_testItem c.analyzerId _ _)) hmid rfl
  | dishonest hmid =>
    exact hmiddle ((announcedItems_cons_of_none rfl).trans (announcedItems_cons_testItem c.analyzerId _ _)) hmid rfl
  | conspire hmid =>
    refine hmiddle ?_ hmid rfl
    rw [announcedItems_append, announcedItems_map_eq_nil fun _ ↦ rfl, List.nil_append]
    exact announcedItems_cons_testItem c.analyzerId _ _
  | noCrash hmid => exact hmiddle (announcedItems_cons_testItem c.analyzerId _ _) hmid rfl
  | crash hmid =>
    exact hmiddle ((announcedItems_cons_of_none rfl).trans (announcedItems_cons_testItem c.analyzerId _ _)) hmid rfl
  | nobodyDishonest | ignored => exact .of_same rfl

/-- Enough nodes are left whenever `next_test` is called. -/
def Supplied (t : Transition Controller Event (List Action)) : Prop :=
  callsNextTest t = true → ∀ item ∈ t.post.nextMidTestItem, t.pre.suppliesItem item = true

theorem step_announces {t : Transition Controller Event (List Action)}
    (htaken : step X t.pre t.event = some (t.post, t.out)) (hsupplied : Supplied t) :
    Announces t.pre t.event t.post (announcedItems t.pre.analyzerId t.out) := by
  have hsupplied' := fun c₁ hcall ↦ hsupplied (callsNextTest_iff.2 ⟨c₁, hcall⟩)
  have hturn := step_turn htaken
  generalize t.post = c', t.out = actions at hturn hsupplied'
  cases hturn with
  | unprepared noCall unprepared =>
    rw [announcedItems_of_prepares unprepared.sent]
    exact .of_same unprepared.testItems
  | called call next => exact next.announces call (hsupplied' _ call)
  | planExhausted => exact .of_same rfl
  | @itemAnnounced rest item command plan =>
    rw [announcedItems_cons_testItem, announcedItems_nil]
    refine .plan ?_
    rw [plan, List.reverse_concat, announce_testItems]
    rfl
  | nodesConfigured =>
    rw [announcedItems_configureNodes]
    exact .of_same rfl
  | firstConfigured =>
    rw [announcedItems_cons_of_none rfl, announcedItems_idleNodes]
    exact .of_same rfl
  | nobodyConfigured command item_eq nobody next =>
    rw [announcedItems_append, announcedItems_idleNodes, List.append_nil]
    exact .plan next.testItems_eq

/-! ## The campaign -/

/-- The items that the analyzer is told in a run. -/
def announcedBy (run : Run) : List TestItem := run.flatMap fun t ↦ announcedItems t.pre.analyzerId t.out

theorem announcedBy_concat (run : Run) (t : Transition Controller Event (List Action)) :
    announcedBy (run ++ [t]) = announcedBy run ++ announcedItems t.pre.analyzerId t.out := by
  simp [announcedBy]

theorem getLast?_announcedBy (run : Run) : (announcedBy run).getLast? = (announcement run).item := by
  induction run using List.reverseRecOn with
  | nil => rfl
  | append_singleton run t ih =>
    rw [announcedBy_concat, announcement_concat, List.getLast?_append, ih]
    cases hlast : (announcedItems t.pre.analyzerId t.out).getLast? with
    | some item => rw [Announcement.next_of_some hlast, Option.some_or]
    | none => rw [Announcement.next_of_nil (List.getLast?_eq_none_iff.1 hlast), Option.none_or]

/-- How far the plan has been worked off, and what the pending middle item has to do with the announcements: it
succeeds the item whose completion has been reported, and there is none before the first item and after an item of
the performance tests. -/
structure Campaign (plan : List TestItem) (run : Run) (c : Controller) : Prop where
  worksOff : WorksOff plan (announcedBy run) c.testItems.reverse
  idle : (∀ item ∈ (announcement run).item, isPerformance item = true) → c.nextMidTestItem = none
  pending : (announcement run).completed = true → ∀ next, c.nextMidTestItem = some next →
    ∃ item, (announcement run).item = some item ∧ Succeeds item next

section Step

variable {plan : List TestItem} {run : Run} {t : Transition Controller Event (List Action)}

/-- The middle item after a turn, for what was announced before it. -/
theorem Campaign.middle (h : Campaign plan run t.pre) (horder : InOrder run t)
    (htaken : step X t.pre t.event = some (t.post, t.out)) :
    ((∀ item ∈ (announcement run).item, isPerformance item = true) → t.post.nextMidTestItem = none) ∧
      ((announcement run).completed = true ∨ (completedItem t).isSome = true →
        ∀ next, t.post.nextMidTestItem = some next →
          ∃ item, (announcement run).item = some item ∧ Succeeds item next) := by
  rcases step_middle htaken with ⟨hnone, hsame⟩ | ⟨item, c₁, hitem, hcompleted, hnext⟩
  · rw [hsame, hnone]
    exact ⟨h.idle, fun hcompleted ↦ h.pending (hcompleted.resolve_right Bool.false_ne_true)⟩
  · have hlast := horder.completed item hitem
    rw [hnext]
    cases hkind : isPerformance item with
    | true =>
      have hall : ∀ item' ∈ (announcement run).item, isPerformance item' = true := by
        intro item' hitem'
        obtain rfl := Option.some.inj (hlast.symm.trans hitem')
        exact hkind
      have hkept : c₁.nextMidTestItem = none := by
        have hidle := h.idle hall
        cases item with
        | throughput | latency | throughputAndLatency => rwa [← Option.some.inj hcompleted]
        | scalability | crash | malicious => cases hkind
      exact ⟨fun _ ↦ hkept, fun _ next hsome ↦ absurd (hkept.symm.trans hsome) (Option.some_ne_none _).symm⟩
    | false =>
      refine ⟨fun hall ↦ ?_, fun _ next hsome ↦ ⟨item, hlast, succeeds_of_completeTest hcompleted hkind hsome⟩⟩
      have hperformance := hall item hlast
      rw [hkind] at hperformance
      cases hperformance

theorem Succeeds.isPerformance_eq {item next : TestItem} (h : Succeeds item next) : isPerformance next = false := by
  cases h <;> rfl

/-- One turn of the event loop. -/
theorem Campaign.step (h : Campaign plan run t.pre) (hplan : ∀ item ∈ plan.tail, isPerformance item = false)
    (horder : InOrder run t) (hsupplied : Supplied t)
    (htaken : Controller.step X t.pre t.event = some (t.post, t.out)) :
    Campaign plan (run ++ [t]) t.post := by
  obtain ⟨hidle, hpending⟩ := h.middle horder htaken
  have hannounces := step_announces htaken hsupplied
  -- What is announced last settles what may be pending; with nothing announced it is as before the turn.
  cases hlast : (announcedItems t.pre.analyzerId t.out).getLast? with
  | none =>
    have hnil := List.getLast?_eq_none_iff.1 hlast
    have hkept : t.post.testItems = t.pre.testItems := by
      rw [hnil] at hannounces
      cases hannounces with
      | plan taken => exact (List.reverse_injective taken).symm
    constructor
    · rw [announcedBy_concat, hnil, List.append_nil, hkept]
      exact h.worksOff
    · rw [announcement_concat, Announcement.next_of_nil hnil]
      exact hidle
    · rw [announcement_concat, Announcement.next_of_nil hnil]
      intro hcompleted
      exact hpending ((Bool.or_eq_true _ _).mp hcompleted)
  | some item =>
    rw [← getLast?_announcedBy] at hidle
    have hworks : WorksOff plan (announcedBy (run ++ [t])) t.post.testItems.reverse ∧
        (isPerformance item = true → t.post.nextMidTestItem = none) := by
      rw [announcedBy_concat]
      generalize hitems : announcedItems t.pre.analyzerId t.out = items at hannounces hlast
      cases hannounces with
      | plan taken =>
        have hworks := h.worksOff
        rw [taken] at hworks
        refine ⟨hworks.items, fun hkind ↦ hidle ?_⟩
        by_cases hnone : announcedBy run = []
        · rw [hnone]
          exact fun item hitem ↦ absurd hitem (Option.not_mem_none item)
        · have hmem : item ∈ items ++ t.post.testItems.reverse :=
            List.mem_append_left _ (List.mem_of_getLast? hlast)
          have hother := hplan item ((hworks.suffix_tail hnone).subset hmem)
          rw [hkind] at hother
          cases hother
      | @middle next c₁ call pending kept =>
        obtain rfl : next = item := Option.some.inj hlast
        have hcompleted := horder.called (callsNextTest_iff.2 ⟨_, call⟩)
        obtain ⟨item', hitem', hsucceeds⟩ := hpending hcompleted _ pending
        rw [kept]
        refine ⟨.middle h.worksOff ((getLast?_announcedBy run).trans hitem') hsucceeds, fun hkind ↦ ?_⟩
        rw [hsucceeds.isPerformance_eq] at hkind
        cases hkind
    have hannounced : (announcement run).next t = ⟨some item, false⟩ := Announcement.next_of_some hlast
    constructor
    · exact hworks.1
    · rw [announcement_concat, hannounced]
      exact fun hall ↦ hworks.2 (hall item rfl)
    · rw [announcement_concat, hannounced]
      exact fun hcompleted ↦ absurd hcompleted Bool.false_ne_true

end Step

instance Supplied.decidable (t : Transition Controller Event (List Action)) : Decidable (Supplied t) :=
  inferInstanceAs (Decidable (_ → ∀ item ∈ t.post.nextMidTestItem, _ = true))

end BFTDiagnosis.Controller
