import BFTDiagnosis.Controller.Plans

/-!
# What `next_test` announces

A call of `next_test` is meant to announce one test item to the analyzer: the middle item, or the next item of
the plan when there is no middle item or too few nodes for it. It announces exactly this one when the nodes
suffice, and otherwise for the middle items whose branch goes on with the plan and nothing else.
-/

namespace BFTDiagnosis.Controller

open Components Word

variable {X : Externals} {walk : Walk PeerId}

/-! ## Calls of `next_test` -/

/-- A turn of the event loop calls `next_test`, in the state on the right: a test is completed and no node has
to be reset, or the last node has been. -/
inductive CallsNextTest (c : Controller) (event : Event) : Controller → Prop
  | completed {item : TestItem} {c₁ : Controller} (route : c.route event.input = .analyzer (.completedTest item))
      (completed : c.completeTest item = some c₁) (reset : c₁.needReset = false) :
      CallsNextTest c event c₁.clearResetCounts
  | reset {peerId : PeerId} {mode : ConsensusNodeMode} {count sum : UInt16}
      (route : c.route event.input = .node peerId (.resetSuccess mode)) (kind : isHonestOrDishonest mode = true)
      (counted : checkedAdd16 c.resetSuccessCount 1 = some count)
      (summed : checkedAdd16 count c.crashResetSuccessCount = some sum)
      (complete : UInt16.ofNat c.consensusNodes.card = sum) : CallsNextTest c event c.clearResetCounts
  | crashReset {peerId : PeerId} {interval : UInt64} {count sum : UInt16}
      (route : c.route event.input = .node peerId (.resetSuccess (.crash interval)))
      (counted : checkedAdd16 c.crashResetSuccessCount 1 = some count)
      (summed : checkedAdd16 c.resetSuccessCount count = some sum)
      (notAll : c.consensusNodes.card ≠ count.toNat) (complete : UInt16.ofNat c.consensusNodes.card = sum) :
      CallsNextTest c event
        { c with crashConsensusNodes := insert peerId c.crashConsensusNodes }.clearResetCounts

theorem step_of_route_analyzer {c : Controller} {event : Event} {message : InteractiveMessage}
    (h : c.route event.input = .analyzer message) :
    step X c event = c.analyzerMessageHandler X event.walk message := by
  obtain ⟨input, walk⟩ := event
  rcases input_of_route_analyzer h with ⟨source, rfl⟩ | rfl
  · have hanalyzer : c.analyzerId = source := by
      by_contra hne
      simp only [route, if_neg hne] at h
      split at h <;> cases h
    exact if_pos hanalyzer
  · rfl

theorem step_of_route_node {c : Controller} {event : Event} {peerId : PeerId} {message : InteractiveMessage}
    (h : c.route event.input = .node peerId message) :
    step X c event = c.consensusNodeMessageHandler X event.walk peerId message := by
  obtain ⟨input, walk⟩ := event
  obtain rfl := input_of_route_node h
  simp only [route] at h
  split at h
  case isTrue => cases h
  case isFalse hanalyzer =>
    split at h
    case isTrue hknown => exact (if_neg hanalyzer).trans (if_pos hknown)
    case isFalse => cases h

/-- Such a turn does what `next_test` does. -/
theorem CallsNextTest.step_eq {c c₁ : Controller} {event : Event} (h : CallsNextTest c event c₁) :
    step X c event = c₁.nextTest event.walk := by
  cases h with
  | completed route completed reset =>
    rw [step_of_route_analyzer route]
    simp [analyzerMessageHandler, completed, resetConsensusNode, reset]
  | @reset peerId mode count sum route kind counted summed complete =>
    rw [step_of_route_node route]
    cases mode with
    | honest | dishonest =>
      simp only [consensusNodeMessageHandler, resetSuccess, checkResetAllSuccess, counted, summed, complete, bind,
        Option.bind_some, if_true]
      rfl
    | uninitialized | crash => cases kind
  | crashReset route counted summed notAll complete =>
    rw [step_of_route_node route]
    simp only [consensusNodeMessageHandler, resetSuccess, checkResetAllSuccess, counted, summed, complete, notAll,
      bind, Option.bind_some, if_true, if_false]
    rfl

/-! ## Announced items -/

/-- The item that a message announces to the analyzer. -/
def announcedItem (analyzerId : PeerId) : Action → Option TestItem
  | .sendMessage receiver (.testItem item) => if receiver = analyzerId then some item else none
  | _ => none

/-- The test items that the analyzer is told. -/
def announcedItems (analyzerId : PeerId) (actions : List Action) : List TestItem :=
  actions.filterMap (announcedItem analyzerId)

@[simp] theorem announcedItems_nil (analyzerId : PeerId) : announcedItems analyzerId [] = [] := rfl

@[simp] theorem announcedItems_append (analyzerId : PeerId) (actions actions' : List Action) :
    announcedItems analyzerId (actions ++ actions') =
      announcedItems analyzerId actions ++ announcedItems analyzerId actions' :=
  List.filterMap_append

@[simp] theorem announcedItems_cons_testItem (analyzerId : PeerId) (item : TestItem) (actions : List Action) :
    announcedItems analyzerId (.sendMessage analyzerId (.testItem item) :: actions) =
      item :: announcedItems analyzerId actions := by
  simp [announcedItems, announcedItem]

theorem announcedItems_cons_of_none {analyzerId : PeerId} {action : Action} {actions : List Action}
    (h : announcedItem analyzerId action = none) :
    announcedItems analyzerId (action :: actions) = announcedItems analyzerId actions :=
  List.filterMap_cons_none h

theorem announcedItems_map_eq_nil {analyzerId : PeerId} {receivers : List PeerId} {action : PeerId → Action}
    (h : ∀ receiver, announcedItem analyzerId (action receiver) = none) :
    announcedItems analyzerId (receivers.map action) = [] := by
  apply List.filterMap_eq_nil_iff.2
  intro act hact
  obtain ⟨receiver, -, rfl⟩ := List.mem_map.1 hact
  exact h receiver

@[simp] theorem announcedItems_configureNodes (analyzerId : PeerId) (receivers : List PeerId)
    (state : ConfigureState) :
    announcedItems analyzerId (sendMessages receivers (.configureConsensusNode state)) = [] :=
  announcedItems_map_eq_nil fun _ ↦ rfl

@[simp] theorem announcedItems_idleNodes (analyzerId : PeerId) (walk : Walk PeerId) (c : Controller) :
    announcedItems analyzerId (c.idleNodes walk) = [] :=
  announcedItems_map_eq_nil fun _ ↦ rfl

theorem getLast?_announcedItems_concat (analyzerId : PeerId) (actions : List Action) (item : TestItem) :
    (announcedItems analyzerId (actions ++ [.sendMessage analyzerId (.testItem item)])).getLast? = some item := by
  rw [announcedItems_append, announcedItems_cons_testItem, announcedItems_nil, List.getLast?_concat]

/-- Configuring announces something unless the plan is exhausted. -/
theorem Configured.announcedItems_eq_nil_iff {c c' : Controller} {actions : List Action}
    (h : Configured walk c c' actions) : announcedItems c.analyzerId actions = [] ↔ c.testItems = [] := by
  cases h with
  | exhausted plan => exact iff_of_true rfl plan
  | plain plan | scalability plan | skipped plan =>
    rw [announcedItems_cons_testItem, plan]
    exact iff_of_false (List.cons_ne_nil _ _) (List.append_ne_nil_of_right_ne_nil _ (List.cons_ne_nil _ _))

/-- A scalability item that nobody is there for is announced and skipped, so it has to be the last one. -/
def HeadSuffices (c : Controller) : Prop :=
  ∀ item ∈ c.testItems.getLast?, isScalability item = true → c.waitingConsensusNodes = ∅ → c.testItems.length = 1

theorem Configured.announcedItems_eq_iff {c c' : Controller} {actions : List Action}
    (h : Configured walk c c' actions) :
    announcedItems c.analyzerId actions = c.testItems.getLast?.toList ↔ c.HeadSuffices := by
  cases h with
  | exhausted plan =>
    rw [HeadSuffices, plan]
    exact iff_of_true rfl fun _ hitem ↦ by cases hitem
  | @plain c rest item plan kind =>
    rw [announcedItems_cons_testItem, announcedItems_configureNodes, HeadSuffices, plan, List.getLast?_concat]
    refine iff_of_true rfl ?_
    rintro item' ⟨⟩ hkind
    rw [kind] at hkind
    cases hkind
  | @scalability c rest count max increment peerId plan chosen =>
    rw [announcedItems_cons_testItem, announcedItems_cons_of_none rfl, announcedItems_idleNodes, HeadSuffices, plan,
      List.getLast?_concat]
    refine iff_of_true rfl ?_
    intro item' _ _ hnobody
    exact absurd hnobody (Finset.ne_empty_of_mem (Walk.mem_of_last chosen))
  | @skipped c c' rest count max increment actions plan nobody next =>
    have hrest := next.announcedItems_eq_nil_iff
    rw [announcedItems_cons_testItem, HeadSuffices, plan, List.getLast?_concat]
    constructor
    · intro heq item' _ _ _
      have hnil : rest = [] := by simpa using hrest.1 (List.cons.inj heq).2
      rw [hnil]
      rfl
    · intro hlast
      have hlength := hlast _ rfl rfl nobody
      have hnil : rest = [] := by simpa using hlength
      have hannounced := hrest.2 (by simpa using hnil)
      exact congrArg (_ :: ·) hannounced

/-! ## The item that is to be announced -/

/-- There are enough nodes for a middle item. -/
def CanRun (c : Controller) : TestItem → Prop
  | .scalability .. => c.optionalScalabilityConsensusNodes ≠ ∅
  | .crash count _ => count = 0 ∨ c.optionalCrashConsensusNodes ≠ ∅
  | .malicious (.replicaNodeConspireForgeMessages _ _ _ count) =>
    count.toNat ≤ c.optionalDishonestConsensusNodes.length
  | .malicious _ => c.optionalDishonestConsensusNodes ≠ []
  | _ => True

/-- `next_test` announces the middle item if there are enough nodes for it, else the next item of the plan,
and nothing only when there is no middle item and the plan is exhausted. -/
def AnnouncesOne (walk : Walk PeerId) (c : Controller) : Prop :=
  ∃ c' actions, c.nextTest walk = some (c', actions) ∧
    match c.nextMidTestItem with
    | none => announcedItems c.analyzerId actions = c.testItems.getLast?.toList
    | some item =>
      (c.CanRun item → announcedItems c.analyzerId actions = [item]) ∧
        (¬ c.CanRun item → ∃ next ∈ c.testItems.getLast?, announcedItems c.analyzerId actions = [next])

/-- The middle items that `next_test` goes on from, without nodes, to the next item of the plan and nothing
else. -/
def goesOn : TestItem → Bool
  | .crash .. => true
  | .malicious (.leaderSendAmbiguousMessage ..) => true
  | _ => false

/-- The branch of the middle item announces one item. -/
def BranchSuffices (c : Controller) : Prop :=
  match c.nextMidTestItem with
  | none => c.HeadSuffices
  | some item => if hasNoBranch item then False else c.CanRun item ∨
      goesOn item = true ∧ c.testItems ≠ [] ∧ c.HeadSuffices

/-- The middle items that `CompletedTest` makes pending. -/
def isMiddle : TestItem → Bool
  | .malicious (.replicaNodeConspireForgeMessages (.otherRound _) _ _ count) => count != 0
  | item => hasPhase item

/-- Both when nobody is left for a scalability test and when too few are left for a conspiracy, the middle item
is announced after the next items of the plan. -/
theorem announcedItems_concat_ne {c c' : Controller} {actions : List Action} {item : TestItem}
    (h : Configured walk c c' actions) : ¬ ∃ next ∈ c.testItems.getLast?,
      announcedItems c.analyzerId (actions ++ [.sendMessage c.analyzerId (.testItem item)]) = [next] := by
  rintro ⟨next, hnext, heq⟩
  rw [announcedItems_append, announcedItems_cons_testItem] at heq
  have hnil : announcedItems c.analyzerId actions = [] := by
    cases hcase : announcedItems c.analyzerId actions with
    | nil => rfl
    | cons first rest =>
      rw [hcase] at heq
      simp at heq
  rw [h.announcedItems_eq_nil_iff.1 hnil] at hnext
  cases hnext

theorem hasPhase_of_isMiddle {item : TestItem} (h : isMiddle item = true) : hasPhase item = true := by
  unfold isMiddle at h
  split at h
  · rfl
  · exact h

/-- `next_test` has one outcome. -/
theorem announcesOne_iff_of_nextTest {c c' : Controller} {actions : List Action} {item : TestItem}
    (h : c.nextTest walk = some (c', actions)) (hmiddle : c.nextMidTestItem = some item) :
    AnnouncesOne walk c ↔ (c.CanRun item → announcedItems c.analyzerId actions = [item]) ∧
      (¬ c.CanRun item → ∃ next ∈ c.testItems.getLast?, announcedItems c.analyzerId actions = [next]) := by
  unfold AnnouncesOne
  rw [hmiddle]
  constructor
  · rintro ⟨c₁, actions₁, htaken, hannounces⟩
    obtain ⟨-, rfl⟩ := Prod.mk.inj (Option.some.inj (h.symm.trans htaken))
    exact hannounces
  · exact fun hannounces ↦ ⟨c', actions, h, hannounces⟩

theorem announcesOne_iff_of_canRun {c c' : Controller} {actions : List Action} {item : TestItem}
    (h : c.nextTest walk = some (c', actions)) (hmiddle : c.nextMidTestItem = some item)
    (hcan : c.CanRun item) (hbranch : hasNoBranch item = false)
    (hannounced : announcedItems c.analyzerId actions = [item]) : AnnouncesOne walk c ↔ c.BranchSuffices := by
  rw [announcesOne_iff_of_nextTest h hmiddle, BranchSuffices, hmiddle]
  simp only [hbranch, Bool.false_eq_true, if_false]
  exact iff_of_true ⟨fun _ ↦ hannounced, fun hcannot ↦ absurd hcan hcannot⟩ (.inl hcan)

theorem not_announcesOne_of_not_goesOn {c c' : Controller} {actions : List Action} {item : TestItem}
    (h : c.nextTest walk = some (c', actions)) (hmiddle : c.nextMidTestItem = some item)
    (hcannot : ¬ c.CanRun item) (hgoes : goesOn item = false)
    (hannounced : ¬ ∃ next ∈ c.testItems.getLast?, announcedItems c.analyzerId actions = [next]) :
    AnnouncesOne walk c ↔ c.BranchSuffices := by
  rw [announcesOne_iff_of_nextTest h hmiddle, BranchSuffices, hmiddle]
  refine iff_of_false (fun hannounces ↦ hannounced (hannounces.2 hcannot)) ?_
  dsimp only
  split
  case isTrue => exact not_false
  case isFalse =>
    rintro (hcan | ⟨hgoes', -⟩)
    · exact hcannot hcan
    · rw [hgoes] at hgoes'
      cases hgoes'

theorem announcesOne_iff_of_goesOn {c c' : Controller} {actions : List Action} {item : TestItem}
    (h : c.nextTest walk = some (c', actions)) (hmiddle : c.nextMidTestItem = some item)
    (hcannot : ¬ c.CanRun item) (hgoes : goesOn item = true) (hbranch : hasNoBranch item = false)
    (hconfigured : Configured walk c c' actions) : AnnouncesOne walk c ↔ c.BranchSuffices := by
  rw [announcesOne_iff_of_nextTest h hmiddle, BranchSuffices, hmiddle]
  simp only [hbranch, Bool.false_eq_true, if_false, hgoes, true_and, hcannot, false_imp_iff, false_or,
    not_false_eq_true, forall_const, ← hconfigured.announcedItems_eq_iff]
  constructor
  · rintro ⟨next, hnext, heq⟩
    refine ⟨?_, by rw [heq, hnext]; rfl⟩
    intro hnil
    rw [hnil] at hnext
    cases hnext
  · rintro ⟨hne, heq⟩
    refine ⟨c.testItems.getLast hne, List.getLast?_eq_some_getLast hne, ?_⟩
    rw [heq, List.getLast?_eq_some_getLast hne]
    rfl

/-- `next_test` goes on with the plan when no item is pending, and for a crash or an ambiguous message without
a candidate. -/
theorem announcesOne_iff_of_configured {c c' : Controller} {actions : List Action}
    (h : c.nextTest walk = some (c', actions)) (hreached : ∀ item ∈ c.nextMidTestItem, isMiddle item = true)
    (hmoves : c.MovesOn) (hconfigured : Configured walk c c' actions) : AnnouncesOne walk c ↔ c.BranchSuffices := by
  cases hmiddle : c.nextMidTestItem with
  | none =>
    rw [BranchSuffices, hmiddle, AnnouncesOne, hmiddle, ← hconfigured.announcedItems_eq_iff]
    constructor
    · rintro ⟨c₁, actions₁, htaken, hannounces⟩
      obtain ⟨-, rfl⟩ := Prod.mk.inj (Option.some.inj (h.symm.trans htaken))
      exact hannounces
    · exact fun hannounces ↦ ⟨c', actions, h, hannounces⟩
  | some item =>
    rw [MovesOn, hmiddle] at hmoves
    have hitem := hreached item hmiddle
    split at hmoves
    case h_1 heq => cases heq
    case h_2 heq =>
      obtain rfl := Option.some.inj heq
      exact announcesOne_iff_of_goesOn h hmiddle (by simp [CanRun, hmoves.1, hmoves.2]) rfl rfl hconfigured
    case h_3 heq =>
      obtain rfl := Option.some.inj heq
      exact announcesOne_iff_of_goesOn h hmiddle (by simp [CanRun, hmoves]) rfl rfl hconfigured
    case h_4 heq =>
      obtain rfl := Option.some.inj heq
      simp [isMiddle, hmoves] at hitem
    case h_5 => exact hmoves.elim

/-- An item that sets the mode of one node can be run when there is a candidate. -/
theorem canRun_of_dishonestMode {c : Controller} {item : TestItem} {mode : MaliciousMode}
    (h : dishonestMode item = some mode) (hcandidates : c.optionalDishonestConsensusNodes ≠ []) :
    c.CanRun item ∧ hasNoBranch item = false := by
  unfold dishonestMode at h
  split at h
  · exact ⟨hcandidates, rfl⟩
  · exact ⟨hcandidates, rfl⟩
  · exact ⟨hcandidates, rfl⟩
  · cases h

theorem announcesOne_iff_of_isMiddle {c : Controller} (h : ∀ item ∈ c.nextMidTestItem, isMiddle item = true)
    (walk : Walk PeerId) : AnnouncesOne walk c ↔ c.BranchSuffices := by
  obtain ⟨c', actions, htaken⟩ := exists_nextTest walk c fun item hitem ↦ hasPhase_of_isMiddle (h item hitem)
  cases nextTest_spec htaken with
  | configured movesOn next => exact announcesOne_iff_of_configured htaken h movesOn next
  | joined middle chosen =>
    refine announcesOne_iff_of_canRun htaken middle (Finset.ne_empty_of_mem (Walk.mem_of_last chosen)) rfl ?_
    rw [announcedItems_cons_of_none rfl, announcedItems_cons_testItem, announcedItems_nil]
  | nobodyJoined middle nobody next =>
    exact not_announcesOne_of_not_goesOn htaken middle (fun hcan ↦ hcan nobody) rfl
      (announcedItems_concat_ne next)
  | @dishonest item mode id middle kind chosen =>
    have hcandidates : c.optionalDishonestConsensusNodes ≠ [] := by
      intro hnil
      rw [hnil] at chosen
      cases chosen
    obtain ⟨hcan, hbranch⟩ := canRun_of_dishonestMode kind hcandidates
    refine announcesOne_iff_of_canRun htaken middle hcan hbranch ?_
    rw [announcedItems_cons_of_none rfl, announcedItems_cons_testItem]
    rfl
  | @nobodyDishonest item mode middle kind notAmbiguous nobody =>
    have hcannot : ¬ c.CanRun item ∧ goesOn item = false := by
      unfold dishonestMode at kind
      split at kind
      · exact ⟨fun hcan ↦ hcan nobody, rfl⟩
      · exact ⟨fun hcan ↦ hcan nobody, rfl⟩
      · cases notAmbiguous
      · cases kind
    refine not_announcesOne_of_not_goesOn htaken middle hcannot.1 hcannot.2 ?_
    rintro ⟨next, -, heq⟩
    cases heq
  | conspire middle positive enough =>
    refine announcesOne_iff_of_canRun htaken middle enough rfl ?_
    rw [announcedItems_append, announcedItems_cons_testItem, announcedItems_map_eq_nil fun _ ↦ rfl]
    rfl
  | notEnoughConspire middle short next =>
    exact not_announcesOne_of_not_goesOn htaken middle (Nat.not_le_of_lt short) rfl
      (announcedItems_concat_ne next)
  | noCrash middle =>
    refine announcesOne_iff_of_canRun htaken middle (.inl rfl) rfl ?_
    rw [announcedItems_cons_testItem]
    rfl
  | crash middle positive chosen =>
    have hcandidate := Finset.ne_empty_of_mem (Walk.mem_of_last chosen)
    refine announcesOne_iff_of_canRun htaken middle (.inr hcandidate) rfl ?_
    rw [announcedItems_cons_of_none rfl, announcedItems_cons_testItem]
    rfl
  | @ignored item middle kind =>
    rw [announcesOne_iff_of_nextTest htaken middle, BranchSuffices, middle]
    simp only [kind, if_true, iff_false, not_and]
    intro hcan hcannot
    by_cases hrun : c.CanRun item
    · cases hcan hrun
    · obtain ⟨next, -, heq⟩ := hcannot hrun
      cases heq

/-! ## Middle items in a run -/

/-- The middle item of a controller is one that `CompletedTest` has made pending. -/
def MiddleReached (c : Controller) : Prop := ∀ item ∈ c.nextMidTestItem, isMiddle item = true

/-- What holds of the items of a behaviour in every phase holds of its next middle item. -/
theorem completePhase_middle {P : TestItem → Prop} {behaviour : Round → UInt8 → MaliciousBehaviour} {round : Round}
    {maxPhase : UInt8} {c c₁ : Controller} (hkind : ∀ phase, P (.malicious (behaviour (.otherRound phase) maxPhase)))
    (h : c.completePhase behaviour round maxPhase = some c₁) : ∀ item ∈ c₁.nextMidTestItem, P item := by
  have hsome (phase : UInt8) : ∀ item ∈ (c.setNextMidTestItem (some (.malicious (behaviour (.otherRound phase)
      maxPhase)))).nextMidTestItem, P item := by
    rintro item ⟨⟩
    exact hkind phase
  have hnone : ∀ item ∈ (c.setNextMidTestItem none).nextMidTestItem, P item := fun item hitem ↦ by cases hitem
  cases round with
  | firstRound =>
    rw [completePhase] at h
    split at h
    case isTrue =>
      obtain rfl := Option.some.inj h
      exact hsome 1
    case isFalse =>
      obtain rfl := Option.some.inj h
      exact hnone
  | otherRound phase =>
    rw [completePhase] at h
    split at h
    case isTrue =>
      obtain ⟨next, -, hresult⟩ := Option.bind_eq_some_iff.1 h
      obtain rfl := Option.some.inj hresult
      exact hsome next
    case isFalse =>
      obtain rfl := Option.some.inj h
      exact hnone

theorem completeField_middle {P : TestItem → Prop}
    {behaviour : Round → UInt8 → List String → UInt16 → MaliciousBehaviour} {round : Round} {maxPhase : UInt8}
    {field : List String} {count : UInt16} {c c₁ : Controller}
    (hkind : ∀ phase field count, count ≠ 0 → P (.malicious (behaviour (.otherRound phase) maxPhase field count)))
    (h : c.completeField behaviour round maxPhase field count = some c₁) : ∀ item ∈ c₁.nextMidTestItem, P item := by
  have hsome (c : Controller) (phase : UInt8) (field : List String) {count : UInt16} (hne : count ≠ 0) :
      ∀ item ∈ (c.setNextMidTestItem (some (.malicious (behaviour (.otherRound phase) maxPhase field
        count)))).nextMidTestItem, P item := by
    rintro item ⟨⟩
    exact hkind phase field count hne
  have hnone (c : Controller) : ∀ item ∈ (c.setNextMidTestItem none).nextMidTestItem, P item :=
    fun item hitem ↦ by cases hitem
  have hone : (1 : UInt16) ≠ 0 := by decide
  cases round with
  | firstRound =>
    rw [completeField] at h
    split at h
    case isTrue =>
      obtain ⟨⟨c₂, nextField⟩, -, hresult⟩ := Option.bind_eq_some_iff.1 h
      obtain rfl := Option.some.inj hresult
      exact hsome c₂ 1 nextField hone
    case isFalse =>
      obtain rfl := Option.some.inj h
      exact hnone c
  | otherRound phase =>
    rw [completeField] at h
    split at h
    case isTrue =>
      obtain ⟨⟨c₂, nextField⟩, -, hresult⟩ := Option.bind_eq_some_iff.1 h
      dsimp only at hresult
      split at hresult
      case isTrue =>
        split at hresult
        case isTrue =>
          obtain rfl := Option.some.inj hresult
          exact hnone c₂
        case isFalse =>
          obtain ⟨nextPhase, -, hrest⟩ := Option.bind_eq_some_iff.1 hresult
          obtain ⟨⟨c₃, firstField⟩, -, hlast⟩ := Option.bind_eq_some_iff.1 hrest
          obtain rfl := Option.some.inj hlast
          exact hsome c₃ nextPhase firstField hone
      case isFalse =>
        obtain rfl := Option.some.inj hresult
        exact hsome c₂ phase nextField hone
    case isFalse =>
      obtain ⟨next, hadd, hresult⟩ := Option.bind_eq_some_iff.1 h
      obtain rfl := Option.some.inj hresult
      apply hsome c phase field
      rintro rfl
      have hvalue : (0 : UInt16).toNat = count.toNat + 1 := checkedAdd16_eq_some_iff.1 hadd
      exact absurd hvalue (Nat.succ_ne_zero _).symm

/-- The next middle item of a malicious behaviour is one of a malicious behaviour. -/
theorem completeTest_malicious {c c₁ : Controller} {behaviour : MaliciousBehaviour}
    (h : c.completeTest (.malicious behaviour) = some c₁) :
    ∀ item ∈ c₁.nextMidTestItem, ∃ behaviour', item = .malicious behaviour' := by
  cases behaviour with
  | leaderFeignDeath | leaderDelaySendMessage | leaderSendDuplicateMessage =>
    exact completePhase_middle (fun _ ↦ ⟨_, rfl⟩) h
  | leaderSendAmbiguousMessage | replicaNodeConspireForgeMessages =>
    exact completeField_middle (fun _ _ _ _ ↦ ⟨_, rfl⟩) h

theorem completeTest_middleReached {c c₁ : Controller} {item : TestItem} (hreached : c.MiddleReached)
    (h : c.completeTest item = some c₁) : c₁.MiddleReached := by
  cases item with
  | scalability | crash =>
    obtain ⟨next, -, hresult⟩ := Option.bind_eq_some_iff.1 h
    obtain rfl := Option.some.inj hresult
    intro item hitem
    simp only [setNextMidTestItem] at hitem
    split at hitem
    · obtain rfl := Option.some.inj hitem
      rfl
    · cases hitem
  | malicious behaviour =>
    cases behaviour with
    | leaderFeignDeath | leaderDelaySendMessage | leaderSendDuplicateMessage =>
      exact completePhase_middle (fun _ ↦ rfl) h
    | leaderSendAmbiguousMessage => exact completeField_middle (fun _ _ _ _ ↦ rfl) h
    | replicaNodeConspireForgeMessages =>
      refine completeField_middle ?_ h
      exact fun _ _ _ hne ↦ bne_iff_ne.2 hne
  | throughput | latency | throughputAndLatency =>
    obtain rfl := Option.some.inj h
    exact hreached

theorem CallsNextTest.middleReached {c c₁ : Controller} {event : Event} (h : CallsNextTest c event c₁)
    (hreached : c.MiddleReached) : c₁.MiddleReached := by
  cases h with
  | @completed item c₂ _ completed _ =>
    have hcompleted : c₂.MiddleReached := completeTest_middleReached hreached completed
    exact hcompleted
  | reset | crashReset => exact hreached

theorem step_middleReached {c c' : Controller} {event : Event} {actions : List Action}
    (h : step X c event = some (c', actions)) (hreached : c.MiddleReached) : c'.MiddleReached := by
  have heffect := step_effect h
  generalize c.route event.input = route at heffect
  by_cases hitem : ∃ item, route = .analyzer (.completedTest item)
  · obtain ⟨item, rfl⟩ := hitem
    cases heffect with
    | completedReset completed => exact completeTest_middleReached hreached completed
    | @completedNext _ c₁ _ _ completed _ next =>
      have hcompleted : c₁.MiddleReached := completeTest_middleReached hreached completed
      rw [MiddleReached, next.sameCursor.middle]
      exact hcompleted
    | unusedReport kind => cases kind
  · rw [MiddleReached, heffect.middle_eq fun item heq ↦ hitem ⟨item, heq⟩]
    exact hreached

theorem Configuration.middle_eq_none {config : BFTDiagnosisConfig} {c : Controller} (h : Configuration config c) :
    c.nextMidTestItem = none := by
  obtain ⟨id, analyzerId, crashNode, scalabilityNode, dishonestNode, testItems, rfl⟩ := h.exists_eq_new
  rfl

/-- In every run from an accepted configuration, a call of `next_test` announces the item that it has to if
and only if its branch does. -/
theorem announcesOne_iff {config : BFTDiagnosisConfig} {c₀ c c₁ : Controller} {run : Run} {event : Event}
    (h : Configuration config c₀) (hrun : IsRun (step X) c₀ run c) (hcall : CallsNextTest c event c₁) :
    AnnouncesOne event.walk c₁ ↔ c₁.BranchSuffices := by
  have hinitial : c₀.MiddleReached := by
    intro item hitem
    rw [h.middle_eq_none] at hitem
    cases hitem
  have hreached : c.MiddleReached := by
    apply hrun.invariant_of_forall MiddleReached hinitial _ fun _ _ ↦ trivial
    intro t hpre _ htaken
    exact step_middleReached htaken hpre
  exact announcesOne_iff_of_isMiddle (hcall.middleReached hreached) event.walk

/-- A scalability test and a crash test. -/
def twoTestsConfig : BFTDiagnosisConfig where
  throughput := none
  latency := none
  scalability := some ⟨some true, some 5, some 1⟩
  crash := some ⟨some true, some 1⟩
  malicious := none

/-- The first scalability test with one of the given nodes, up to the answer to the reset. -/
def firstScalabilityEvents (nodes : List PeerId) (first : PeerId) : List Event :=
  [(Input.discovered nodes).sorted, (Input.command .configureAnalyzer).sorted,
    (Input.command .configureConsensusNode).sorted,
    (Input.unicast first (.consensusNodeModeSuccess (.honest .first))).sorted,
    (Input.gossip (.completedTest (.scalability 1 5 1))).sorted]

/-- The state in which that node answers. -/
def firstScalabilityCompleted (nodes : List PeerId) (first : PeerId) : Controller :=
  final (step Externals.transparent) (freshWith twoTestsConfig) (firstScalabilityEvents nodes first)

theorem isRun_firstScalabilityEvents {nodes : List PeerId} {first : PeerId}
    (h : (exec (step Externals.transparent) (freshWith twoTestsConfig)
      (firstScalabilityEvents nodes first)).isSome = true) :
    Configuration twoTestsConfig (freshWith twoTestsConfig) ∧
      ∃ run, IsRun (step Externals.transparent) (freshWith twoTestsConfig) run
        (firstScalabilityCompleted nodes first) :=
  ⟨configuration_freshWith (by decide), _, IsRun.of_isSome h⟩

theorem callsNextTest_second_node : CallsNextTest (firstScalabilityCompleted [[1], [2]] [2])
    (Input.unicast [2] (.resetSuccess (.honest .first))).sorted
    (firstScalabilityCompleted [[1], [2]] [2]).clearResetCounts := by
  have hroute : (firstScalabilityCompleted [[1], [2]] [2]).route (.unicast [2] (.resetSuccess (.honest .first))) =
      .node [2] (.resetSuccess (.honest .first)) := by decide
  have hcounted : checkedAdd16 (firstScalabilityCompleted [[1], [2]] [2]).resetSuccessCount 1 = some 1 := by decide
  have hsummed : checkedAdd16 1 (firstScalabilityCompleted [[1], [2]] [2]).crashResetSuccessCount = some 1 := by
    decide
  exact .reset hroute rfl hcounted hsummed (by decide)

theorem callsNextTest_no_second_node : CallsNextTest (firstScalabilityCompleted [[1]] [1])
    (Input.unicast [1] (.resetSuccess (.honest .first))).sorted
    (firstScalabilityCompleted [[1]] [1]).clearResetCounts := by
  have hroute : (firstScalabilityCompleted [[1]] [1]).route (.unicast [1] (.resetSuccess (.honest .first))) =
      .node [1] (.resetSuccess (.honest .first)) := by decide
  have hcounted : checkedAdd16 (firstScalabilityCompleted [[1]] [1]).resetSuccessCount 1 = some 1 := by decide
  have hsummed : checkedAdd16 1 (firstScalabilityCompleted [[1]] [1]).crashResetSuccessCount = some 1 := by decide
  exact .reset hroute rfl hcounted hsummed (by decide)

theorem announcesOne_iff_second_node :
    CallsNextTest (firstScalabilityCompleted [[1], [2]] [2])
        (Input.unicast [2] (.resetSuccess (.honest .first))).sorted
        (firstScalabilityCompleted [[1], [2]] [2]).clearResetCounts ∧
      AnnouncesOne (Walk.ofKey Bytes.key Bytes.key_injective)
        (firstScalabilityCompleted [[1], [2]] [2]).clearResetCounts := by
  have hexec : (exec (step Externals.transparent) (freshWith twoTestsConfig)
      (firstScalabilityEvents [[1], [2]] [2])).isSome = true := by decide
  obtain ⟨hconfiguration, run, hrun⟩ := isRun_firstScalabilityEvents hexec
  refine ⟨callsNextTest_second_node, (announcesOne_iff hconfiguration hrun callsNextTest_second_node).2 ?_⟩
  have hmiddle : (firstScalabilityCompleted [[1], [2]] [2]).clearResetCounts.nextMidTestItem =
      some (.scalability 2 5 1) := by decide
  have hcandidate : (firstScalabilityCompleted [[1], [2]] [2]).optionalScalabilityConsensusNodes ≠ ∅ := by decide
  rw [BranchSuffices, hmiddle]
  exact .inl hcandidate

/-- With a single node the second scalability test is announced after the crash test. -/
theorem not_announcesOne_no_second_node :
    (Configuration twoTestsConfig (freshWith twoTestsConfig) ∧
      ∃ run, IsRun (step Externals.transparent) (freshWith twoTestsConfig) run
        (firstScalabilityCompleted [[1]] [1])) ∧
      CallsNextTest (firstScalabilityCompleted [[1]] [1])
        (Input.unicast [1] (.resetSuccess (.honest .first))).sorted
        (firstScalabilityCompleted [[1]] [1]).clearResetCounts ∧
      ((firstScalabilityCompleted [[1]] [1]).clearResetCounts.nextTest
        (Walk.ofKey Bytes.key Bytes.key_injective)).map (fun result ↦ announcedItems [101] result.2) =
          some [.crash 0 1, .scalability 2 5 1] ∧
      ¬ AnnouncesOne (Walk.ofKey Bytes.key Bytes.key_injective)
        (firstScalabilityCompleted [[1]] [1]).clearResetCounts := by
  have hannounced : ((firstScalabilityCompleted [[1]] [1]).clearResetCounts.nextTest
      (Walk.ofKey Bytes.key Bytes.key_injective)).map (fun result ↦ announcedItems [101] result.2) =
        some [.crash 0 1, .scalability 2 5 1] := by decide
  refine ⟨isRun_firstScalabilityEvents (by decide), callsNextTest_no_second_node, hannounced, ?_⟩
  have hmiddle : (firstScalabilityCompleted [[1]] [1]).clearResetCounts.nextMidTestItem =
      some (.scalability 2 5 1) := by decide
  have hnobody : (firstScalabilityCompleted [[1]] [1]).optionalScalabilityConsensusNodes = ∅ := by decide
  rintro ⟨c', actions, htaken, hannounces⟩
  rw [hmiddle] at hannounces
  obtain ⟨next, -, heq⟩ := hannounces.2 fun hcan ↦ hcan hnobody
  have hanalyzer : (firstScalabilityCompleted [[1]] [1]).clearResetCounts.analyzerId = [101] := by decide
  rw [htaken, Option.map_some, ← hanalyzer, heq] at hannounced
  cases hannounced

end BFTDiagnosis.Controller
