import BFTDiagnosis.Controller.Controller

/-!
# What the controller does in one step

Configuring the next item of the plan, choosing the next test and every turn of the event loop, each as a
relation with one case for each thing that can happen. Nothing else is proved from the definitions of the
handlers.
-/

namespace BFTDiagnosis.Controller

open Components Utils Word

variable {X : Externals} {walk : Walk PeerId}

def isScalability : TestItem → Bool
  | .scalability .. => true
  | _ => false

/-! ## Configuring the next item of the plan -/

/-- The controller that has announced an item of its plan. -/
def announce (c : Controller) (item : TestItem) (rest : List TestItem) : Controller :=
  { c with nextTestItem := some item, testItems := rest }.collectOptionalNodes item

/-- The controller that has configured the first node of a scalability test. -/
def configureFirstNode (c : Controller) (count : UInt16) (peerId : PeerId) : Controller :=
  { c with
    feedbackScalabilityFirstCount := count
    consensusNodes := ∅
    optionalScalabilityConsensusNodes := c.optionalScalabilityConsensusNodes.erase peerId }

/-- The nodes that do not take part in the first round of a scalability test. -/
def idleNodes (walk : Walk PeerId) (c : Controller) : List Action :=
  (walk.order c.optionalScalabilityConsensusNodes).map (setConsensusNodeMode · .uninitialized)

/-- The outcomes of `configure_analyzer_and_consensus_node`. -/
inductive Configured (walk : Walk PeerId) : Controller → Controller → List Action → Prop
  | exhausted {c : Controller} (plan : c.testItems = []) :
      Configured walk c { c with nextTestItem := none } []
  | plain {c : Controller} {rest : List TestItem} {item : TestItem} (plan : c.testItems = rest ++ [item])
      (kind : isScalability item = false) :
      Configured walk c { c.announce item rest with consensusNodes := ∅ }
        (.sendMessage c.analyzerId (.testItem item) ::
          sendMessages (walk.order c.waitingConsensusNodes) (.configureConsensusNode .other))
  | scalability {c : Controller} {rest : List TestItem} {count max increment : UInt16} {peerId : PeerId}
      (plan : c.testItems = rest ++ [.scalability count max increment])
      (chosen : walk.last c.waitingConsensusNodes = some peerId) :
      Configured walk c ((c.announce (.scalability count max increment) rest).configureFirstNode count peerId)
        (.sendMessage c.analyzerId (.testItem (.scalability count max increment)) ::
          .sendMessage peerId (.configureConsensusNode .other) ::
          ((c.announce (.scalability count max increment) rest).configureFirstNode count peerId).idleNodes walk)
  | skipped {c c' : Controller} {rest : List TestItem} {count max increment : UInt16} {actions : List Action}
      (plan : c.testItems = rest ++ [.scalability count max increment])
      (nobody : c.waitingConsensusNodes = ∅)
      (next : Configured walk { c.announce (.scalability count max increment) rest with
        feedbackScalabilityFirstCount := count
        consensusNodes := ∅ } c' actions) :
      Configured walk c c' (.sendMessage c.analyzerId (.testItem (.scalability count max increment)) :: actions)

@[simp] theorem announce_waiting (c : Controller) (item : TestItem) (rest : List TestItem) :
    (c.announce item rest).waitingConsensusNodes = c.waitingConsensusNodes := by
  cases item <;> rfl

@[simp] theorem announce_testItems (c : Controller) (item : TestItem) (rest : List TestItem) :
    (c.announce item rest).testItems = rest := by
  cases item <;> rfl

@[simp] theorem announce_nextTestItem (c : Controller) (item : TestItem) (rest : List TestItem) :
    (c.announce item rest).nextTestItem = some item := by
  cases item <;> rfl

theorem configureAnalyzer_of_nil {c : Controller} (h : c.testItems = []) :
    c.configureAnalyzer = ({ c with nextTestItem := none }, [], false) := by
  simp [configureAnalyzer, takeNextTestItem, h]

theorem configureAnalyzer_of_concat {c : Controller} {rest : List TestItem} {item : TestItem}
    (h : c.testItems = rest ++ [item]) : c.configureAnalyzer =
      (c.announce item rest, [.sendMessage c.analyzerId (.testItem item)], true) := by
  simp only [configureAnalyzer, takeNextTestItem, h, List.getLast?_append, List.getLast?_singleton,
    Option.some_or, List.dropLast_concat]
  cases item <;> rfl

/-- `configure_consensus_node` for an item that all waiting nodes take part in. -/
theorem configureConsensusNodeWith_of_plain {configureNext : Controller → Result} {state : ConfigureState}
    {c : Controller} {item : TestItem} (hitem : c.nextTestItem = some item)
    (hkind : isScalability item = false) :
    c.configureConsensusNodeWith configureNext walk state = some ({ c with consensusNodes := ∅ },
      sendMessages (walk.order c.waitingConsensusNodes) (.configureConsensusNode state)) := by
  refine (congrArg (Option.bind · _) hitem).trans ?_
  cases item <;> first | rfl | cases hkind

/-- `configure_consensus_node` for a scalability item with a candidate. -/
theorem configureConsensusNodeWith_of_last {configureNext : Controller → Result} {state : ConfigureState}
    {c : Controller} {count max increment : UInt16} {peerId : PeerId}
    (hitem : c.nextTestItem = some (.scalability count max increment))
    (hlast : walk.last c.optionalScalabilityConsensusNodes = some peerId) :
    c.configureConsensusNodeWith configureNext walk state = some (c.configureFirstNode count peerId,
      .sendMessage peerId (.configureConsensusNode state) :: (c.configureFirstNode count peerId).idleNodes walk) := by
  refine (congrArg (Option.bind · _) hitem).trans ?_
  simp only [Option.bind_some, randomSelectAConsensusNodeForScalabiliyTest, hlast, bind, pure]
  rfl

/-- `configure_consensus_node` for a scalability item without a candidate. -/
theorem configureConsensusNodeWith_of_none {configureNext : Controller → Result} {state : ConfigureState}
    {c : Controller} {count max increment : UInt16}
    (hitem : c.nextTestItem = some (.scalability count max increment))
    (hnone : c.optionalScalabilityConsensusNodes = ∅) :
    c.configureConsensusNodeWith configureNext walk state =
      (configureNext { c with feedbackScalabilityFirstCount := count, consensusNodes := ∅ }).map
        fun result ↦ (result.1, result.2 ++ result.1.idleNodes walk) := by
  have hlast := walk.last_eq_none_iff.2 hnone
  refine (congrArg (Option.bind · _) hitem).trans ?_
  simp only [Option.bind_some, randomSelectAConsensusNodeForScalabiliyTest, hlast, bind, pure]
  cases configureNext { c with feedbackScalabilityFirstCount := count, consensusNodes := ∅ } with
  | none => rfl
  | some result => simp [idleNodes]

/-- Configuring never panics, and keeps the scalability candidates empty when nobody is waiting. -/
theorem exists_configured (walk : Walk PeerId) (n : ℕ) (c : Controller) (hn : c.testItems.length = n) :
    ∃ c' actions, configureItems walk n c = some (c', actions) ∧ Configured walk c c' actions ∧
      (c.waitingConsensusNodes = ∅ → c.optionalScalabilityConsensusNodes = ∅ →
        c'.optionalScalabilityConsensusNodes = ∅) := by
  induction n generalizing c with
  | zero =>
    have hnil : c.testItems = [] := List.length_eq_zero_iff.1 hn
    refine ⟨_, _, ?_, .exhausted hnil, fun _ hempty ↦ hempty⟩
    rw [configureItems, configureAnalyzer_of_nil hnil]
  | succ n ih =>
    obtain ⟨rest, item, hplan⟩ : ∃ rest item, c.testItems = rest ++ [item] := by
      rcases List.eq_nil_or_concat c.testItems with hnil | ⟨rest, item, hconcat⟩
      · simp [hnil] at hn
      · exact ⟨rest, item, by rw [hconcat, List.concat_eq_append]⟩
    have hlength : rest.length = n := by simpa [hplan] using hn
    simp only [configureItems, configureAnalyzer_of_concat hplan, if_true, bind, pure]
    by_cases hkind : isScalability item = false
    · rw [configureConsensusNodeWith_of_plain (announce_nextTestItem c item rest) hkind]
      refine ⟨_, _, rfl, ?_, ?_⟩
      · have hplain : Configured walk c _ _ := .plain hplan hkind
        simpa using hplain
      · intro _ hempty
        cases item <;> first | exact hempty | cases hkind
    · obtain ⟨count, max, increment, rfl⟩ : ∃ count max increment, item = .scalability count max increment := by
        cases item <;> first | exact ⟨_, _, _, rfl⟩ | exact absurd rfl hkind
      cases hlast : walk.last c.waitingConsensusNodes with
      | some peerId =>
        rw [configureConsensusNodeWith_of_last (announce_nextTestItem _ _ _) hlast]
        refine ⟨_, _, rfl, .scalability hplan hlast, ?_⟩
        intro hnobody _
        exact absurd hnobody (Finset.ne_empty_of_mem (Walk.mem_of_last hlast))
      | none =>
        have hnobody := walk.last_eq_none_iff.1 hlast
        obtain ⟨c', actions, htaken, hconfigured, hempty⟩ := ih
          { c.announce (.scalability count max increment) rest with
            feedbackScalabilityFirstCount := count
            consensusNodes := ∅ } hlength
        have hidle : c'.optionalScalabilityConsensusNodes = ∅ := hempty hnobody hnobody
        rw [configureConsensusNodeWith_of_none (announce_nextTestItem _ _ _) hnobody, htaken]
        refine ⟨c', _, rfl, ?_, fun _ _ ↦ hidle⟩
        have hnoIdle : c'.idleNodes walk = [] := by
          rw [idleNodes, List.map_eq_nil_iff, ← List.length_eq_zero_iff, walk.length_order, hidle]
          rfl
        simpa [hnoIdle] using Configured.skipped hplan hnobody hconfigured

theorem configureAnalyzerAndConsensusNode_spec (walk : Walk PeerId) (c : Controller) :
    ∃ c' actions, c.configureAnalyzerAndConsensusNode walk = some (c', actions) ∧
      Configured walk c c' actions := by
  obtain ⟨c', actions, htaken, hconfigured, -⟩ := exists_configured walk _ c rfl
  exact ⟨c', actions, htaken, hconfigured⟩

theorem configured_of_eq_some {c c' : Controller} {actions : List Action}
    (h : c.configureAnalyzerAndConsensusNode walk = some (c', actions)) : Configured walk c c' actions := by
  obtain ⟨c₁, actions₁, htaken, hconfigured⟩ := configureAnalyzerAndConsensusNode_spec walk c
  obtain ⟨rfl, rfl⟩ := Prod.mk.inj (Option.some.inj (htaken.symm.trans h))
  exact hconfigured

/-- Configuring keeps everything but the plan, the candidates and the nodes of the test. -/
structure Configured.Frame (c c' : Controller) : Prop where
  waiting : c'.waitingConsensusNodes = c.waitingConsensusNodes
  dishonest : c'.optionalDishonestConsensusNodes = c.optionalDishonestConsensusNodes
  analyzer : c'.analyzerId = c.analyzerId
  middle : c'.nextMidTestItem = c.nextMidTestItem
  fields : c'.fields = c.fields
  feedbackCrash : c'.feedbackCrashNode = c.feedbackCrashNode
  feedbackScalability : c'.feedbackScalabilityNode = c.feedbackScalabilityNode
  feedbackDishonest : c'.feedbackDishonestNode = c.feedbackDishonestNode
  configureCount : c'.consensusNodeConfigureCount = c.consensusNodeConfigureCount
  resetCount : c'.resetSuccessCount = c.resetSuccessCount
  crashResetCount : c'.crashResetSuccessCount = c.crashResetSuccessCount
  dishonestCount : c'.feedbackDishonestNodeCount = c.feedbackDishonestNodeCount
  dishonestSuccessCount : c'.feedbackDishonestNodeSuccessCount = c.feedbackDishonestNodeSuccessCount

theorem Configured.frame {c c' : Controller} {actions : List Action} (h : Configured walk c c' actions) :
    Frame c c' := by
  induction h with
  | exhausted => exact ⟨rfl, rfl, rfl, rfl, rfl, rfl, rfl, rfl, rfl, rfl, rfl, rfl, rfl⟩
  | @plain c rest item => cases item <;> exact ⟨rfl, rfl, rfl, rfl, rfl, rfl, rfl, rfl, rfl, rfl, rfl, rfl, rfl⟩
  | scalability => exact ⟨rfl, rfl, rfl, rfl, rfl, rfl, rfl, rfl, rfl, rfl, rfl, rfl, rfl⟩
  | skipped _ _ _ ih =>
    exact ⟨ih.waiting, ih.dishonest, ih.analyzer, ih.middle, ih.fields, ih.feedbackCrash, ih.feedbackScalability,
      ih.feedbackDishonest, ih.configureCount, ih.resetCount, ih.crashResetCount, ih.dishonestCount,
      ih.dishonestSuccessCount⟩

/-! ## The next test -/

/-- The mode that one node is set to for a middle item. -/
def dishonestMode : TestItem → Option MaliciousMode
  | .malicious (.leaderFeignDeath (.otherRound phase) _) => some (.leaderFeignDeath 1000 phase)
  | .malicious (.leaderSendDuplicateMessage (.otherRound phase) _) =>
    some (.leaderSendDuplicateMessages 1000 phase)
  | .malicious (.leaderSendAmbiguousMessage (.otherRound phase) _ field count) =>
    some (.leaderSendAmbiguousMessage 1000 phase field count)
  | _ => none

def isAmbiguous : TestItem → Bool
  | .malicious (.leaderSendAmbiguousMessage ..) => true
  | _ => false

/-- `next_test` configures the next item of the plan instead of the middle item. -/
def MovesOn (c : Controller) : Prop :=
  match c.nextMidTestItem with
  | none => True
  | some (.crash count _) => count ≠ 0 ∧ c.optionalCrashConsensusNodes = ∅
  | some (.malicious (.leaderSendAmbiguousMessage (.otherRound _) _ _ _)) =>
    c.optionalDishonestConsensusNodes = []
  | some (.malicious (.replicaNodeConspireForgeMessages (.otherRound _) _ _ count)) => count = 0
  | _ => False

/-- The middle items that `next_test` has no branch for. -/
def hasNoBranch : TestItem → Bool
  | .scalability .. => false
  | .crash .. => false
  | .malicious (.leaderDelaySendMessage ..) => true
  | .malicious _ => false
  | _ => true

/-- The outcomes of `next_test`. -/
inductive NextTest (walk : Walk PeerId) (c : Controller) : Controller → List Action → Prop
  | configured {c' : Controller} {actions : List Action} (movesOn : c.MovesOn)
      (next : Configured walk c c' actions) : NextTest walk c c' actions
  | joined {count max increment : UInt16} {peerId : PeerId}
      (middle : c.nextMidTestItem = some (.scalability count max increment))
      (chosen : walk.last c.optionalScalabilityConsensusNodes = some peerId) :
      NextTest walk c { c with
        feedbackScalabilityNode := peerId
        optionalScalabilityConsensusNodes := c.optionalScalabilityConsensusNodes.erase peerId }
        [.sendMessage peerId .joinConsensus,
          .sendMessage c.analyzerId (.testItem (.scalability count max increment))]
  | nobodyJoined {count max increment : UInt16} {c' : Controller} {actions : List Action}
      (middle : c.nextMidTestItem = some (.scalability count max increment))
      (nobody : c.optionalScalabilityConsensusNodes = ∅) (next : Configured walk c c' actions) :
      NextTest walk c c' (actions ++ [.sendMessage c.analyzerId (.testItem (.scalability count max increment))])
  | dishonest {item : TestItem} {mode : MaliciousMode} {id : PeerId} (middle : c.nextMidTestItem = some item)
      (kind : dishonestMode item = some mode) (chosen : c.optionalDishonestConsensusNodes.getLast? = some id) :
      NextTest walk c { c with feedbackDishonestNode := id }
        [setConsensusNodeMode id (.dishonest mode), .sendMessage c.analyzerId (.testItem item),
          .sendMessage c.analyzerId (.dishonestNode id)]
  | nobodyDishonest {item : TestItem} {mode : MaliciousMode} (middle : c.nextMidTestItem = some item)
      (kind : dishonestMode item = some mode) (notAmbiguous : isAmbiguous item = false)
      (nobody : c.optionalDishonestConsensusNodes = []) : NextTest walk c c []
  | conspire {phase maxPhase : UInt8} {field : List String} {count : UInt16}
      (middle : c.nextMidTestItem =
        some (.malicious (.replicaNodeConspireForgeMessages (.otherRound phase) maxPhase field count)))
      (positive : count ≠ 0) (enough : count.toNat ≤ c.optionalDishonestConsensusNodes.length) :
      NextTest walk c (c.awaitConspire ⟨"Conspire"⟩ count.toNat)
        ((c.optionalDishonestConsensusNodes.take count.toNat).map (setConsensusNodeMode ·
            (.dishonest (.replicaNodeConspireForgeMessages 1000 phase field ⟨"Conspire"⟩))) ++
          [.sendMessage c.analyzerId (.testItem
            (.malicious (.replicaNodeConspireForgeMessages (.otherRound phase) maxPhase field count)))])
  | notEnoughConspire {phase maxPhase : UInt8} {field : List String} {count : UInt16} {c' : Controller}
      {actions : List Action}
      (middle : c.nextMidTestItem =
        some (.malicious (.replicaNodeConspireForgeMessages (.otherRound phase) maxPhase field count)))
      (short : c.optionalDishonestConsensusNodes.length < count.toNat)
      (next : Configured walk c c' actions) :
      NextTest walk c (c'.awaitConspire ⟨"Conspire"⟩ 0) (actions ++ [.sendMessage c.analyzerId (.testItem
        (.malicious (.replicaNodeConspireForgeMessages (.otherRound phase) maxPhase field count)))])
  | noCrash {max : UInt16} (middle : c.nextMidTestItem = some (.crash 0 max)) :
      NextTest walk c c [.sendMessage c.analyzerId (.testItem (.crash 0 max)),
        .sendMessage c.analyzerId (.crashNode 0 none)]
  | crash {count max : UInt16} {peerId : PeerId} (middle : c.nextMidTestItem = some (.crash count max))
      (positive : count ≠ 0) (chosen : walk.last c.optionalCrashConsensusNodes = some peerId) :
      NextTest walk c { c with
        optionalCrashConsensusNodes := c.optionalCrashConsensusNodes.erase peerId
        feedbackCrashNode := peerId }
        [setConsensusNodeMode peerId (.crash 1000), .sendMessage c.analyzerId (.testItem (.crash count max)),
          .sendMessage c.analyzerId (.crashNode count (some peerId))]
  | ignored {item : TestItem} (middle : c.nextMidTestItem = some item)
      (kind : hasNoBranch item = true) : NextTest walk c c []

theorem nextScalabilityTest_spec {c c' : Controller} {actions : List Action} {count max increment : UInt16}
    (hmiddle : c.nextMidTestItem = some (.scalability count max increment))
    (h : c.nextScalabilityTest walk (.scalability count max increment) = some (c', actions)) :
    NextTest walk c c' actions := by
  unfold nextScalabilityTest randomSelectAConsensusNodeForScalabiliyTest at h
  cases hlast : walk.last c.optionalScalabilityConsensusNodes with
  | some peerId =>
    simp only [hlast, bind, pure, Option.bind_some, Option.some.injEq, Prod.mk.injEq] at h
    obtain ⟨rfl, rfl⟩ := h
    exact .joined hmiddle hlast
  | none =>
    obtain ⟨c₁, configured, htaken, hconfigured⟩ := configureAnalyzerAndConsensusNode_spec walk c
    simp only [hlast, htaken, bind, pure, Option.bind_some, Option.some.injEq, Prod.mk.injEq] at h
    obtain ⟨rfl, rfl⟩ := h
    have hnext := NextTest.nobodyJoined hmiddle (walk.last_eq_none_iff.1 hlast) hconfigured
    simpa [nextMidTest, hconfigured.frame.analyzer] using hnext

theorem nextDishonestTest_spec {c c' : Controller} {actions : List Action} {item : TestItem}
    {mode : UInt8 → MaliciousMode} {otherwise : Controller → Result} {round : Round}
    (hmiddle : c.nextMidTestItem = some item)
    (hmode : ∀ phase, round = .otherRound phase → dishonestMode item = some (mode phase))
    (hotherwise : ∀ phase, round = .otherRound phase → c.optionalDishonestConsensusNodes = [] →
      otherwise c = some (c', actions) → NextTest walk c c' actions)
    (h : c.nextDishonestTest mode otherwise item round = some (c', actions)) : NextTest walk c c' actions := by
  unfold nextDishonestTest at h
  cases round with
  | firstRound => cases h
  | otherRound phase =>
    cases hlast : c.optionalDishonestConsensusNodes.getLast? with
    | some id =>
      simp only [hlast, roundPhase, bind, pure, Option.bind_some, Option.some.injEq, Prod.mk.injEq] at h
      obtain ⟨rfl, rfl⟩ := h
      exact .dishonest hmiddle (hmode phase rfl) hlast
    | none =>
      simp only [hlast, roundPhase, bind, Option.bind_some] at h
      exact hotherwise phase rfl (List.getLast?_eq_none_iff.1 hlast) h

theorem nextConspireTest_spec {c c' : Controller} {actions : List Action} {round : Round} {maxPhase : UInt8}
    {field : List String} {count : UInt16}
    (hmiddle : c.nextMidTestItem =
      some (.malicious (.replicaNodeConspireForgeMessages round maxPhase field count)))
    (h : c.nextConspireTest walk (.malicious (.replicaNodeConspireForgeMessages round maxPhase field count))
      round field count = some (c', actions)) : NextTest walk c c' actions := by
  obtain ⟨c₁, configured, htaken, hconfigured⟩ := configureAnalyzerAndConsensusNode_spec walk c
  unfold nextConspireTest randomSelectConsensusNodesAsDishonest at h
  cases round with
  | firstRound =>
    split at h
    case isTrue => simp [htaken, roundPhase] at h
    case isFalse => cases h
  | otherRound phase =>
    split at h
    case isTrue hshort =>
      have hpositive : count ≠ 0 := by
        rintro rfl
        exact absurd hshort (Nat.not_lt_zero _)
      simp only [htaken, roundPhase, bind, pure, Option.bind_some, hpositive, if_false, List.map_nil,
        List.append_nil, Option.some.injEq, Prod.mk.injEq] at h
      obtain ⟨rfl, rfl⟩ := h
      have hnext := NextTest.notEnoughConspire hmiddle hshort hconfigured
      rwa [← hconfigured.frame.analyzer] at hnext
    case isFalse henough =>
      simp only [roundPhase, bind, pure, Option.bind_some, List.nil_append] at h
      split at h
      case isTrue hzero =>
        simp only [htaken, Option.bind_some, Option.some.injEq, Prod.mk.injEq] at h
        obtain ⟨rfl, rfl⟩ := h
        exact .configured (by rw [MovesOn, hmiddle]; exact hzero) hconfigured
      case isFalse hpositive =>
        obtain ⟨rfl, rfl⟩ := Prod.mk.inj (Option.some.inj h)
        rw [List.length_take_of_le (Nat.le_of_not_lt henough)]
        exact .conspire hmiddle hpositive (Nat.le_of_not_lt henough)

theorem nextCrashTest_spec {c c' : Controller} {actions : List Action} {count max : UInt16}
    (hmiddle : c.nextMidTestItem = some (.crash count max))
    (h : c.nextCrashTest walk (.crash count max) count = some (c', actions)) : NextTest walk c c' actions := by
  unfold nextCrashTest randomCrashAConsensusNode at h
  split at h
  case isTrue hzero =>
    subst hzero
    obtain ⟨rfl, rfl⟩ := Prod.mk.inj (Option.some.inj h)
    exact .noCrash hmiddle
  case isFalse hpositive =>
    cases hlast : walk.last c.optionalCrashConsensusNodes with
    | some peerId =>
      simp only [hlast, Option.some.injEq, Prod.mk.injEq] at h
      obtain ⟨rfl, rfl⟩ := h
      exact .crash hmiddle hpositive hlast
    | none =>
      simp only [hlast] at h
      have hmoves : c.MovesOn := by
        rw [MovesOn, hmiddle]
        exact ⟨hpositive, walk.last_eq_none_iff.1 hlast⟩
      exact .configured hmoves (configured_of_eq_some h)

theorem nextTest_spec {c c' : Controller} {actions : List Action} (h : c.nextTest walk = some (c', actions)) :
    NextTest walk c c' actions := by
  unfold nextTest at h
  cases hmiddle : c.nextMidTestItem with
  | none =>
    rw [hmiddle] at h
    exact .configured (by rw [MovesOn, hmiddle]; trivial) (configured_of_eq_some h)
  | some item =>
    rw [hmiddle] at h
    cases item with
    | scalability => exact nextScalabilityTest_spec hmiddle h
    | crash => exact nextCrashTest_spec hmiddle h
    | malicious behaviour =>
      cases behaviour with
      | leaderFeignDeath | leaderSendDuplicateMessage =>
        apply nextDishonestTest_spec hmiddle _ _ h
        · rintro phase rfl
          rfl
        · rintro phase rfl hnobody hsame
          obtain ⟨rfl, rfl⟩ := Prod.mk.inj (Option.some.inj hsame)
          exact .nobodyDishonest hmiddle rfl rfl hnobody
      | leaderSendAmbiguousMessage =>
        apply nextDishonestTest_spec hmiddle _ _ h
        · rintro phase rfl
          rfl
        · rintro phase rfl hnobody hconfigured
          exact .configured (by rw [MovesOn, hmiddle]; exact hnobody) (configured_of_eq_some hconfigured)
      | replicaNodeConspireForgeMessages => exact nextConspireTest_spec hmiddle h
      | leaderDelaySendMessage =>
        obtain ⟨rfl, rfl⟩ := Prod.mk.inj (Option.some.inj h)
        exact .ignored hmiddle rfl
    | throughput | latency | throughputAndLatency =>
      obtain ⟨rfl, rfl⟩ := Prod.mk.inj (Option.some.inj h)
      exact .ignored hmiddle rfl

/-- The middle items whose round has a phase. -/
def hasPhase : TestItem → Bool
  | .malicious (.leaderFeignDeath .firstRound _) => false
  | .malicious (.leaderSendDuplicateMessage .firstRound _) => false
  | .malicious (.leaderSendAmbiguousMessage .firstRound _ _ _) => false
  | .malicious (.replicaNodeConspireForgeMessages .firstRound _ _ _) => false
  | _ => true

theorem exists_nextDishonestTest {c c₁ : Controller} {actions : List Action} {item : TestItem}
    {mode : UInt8 → MaliciousMode} {otherwise : Controller → Result} {phase : UInt8}
    (h : otherwise c = some (c₁, actions)) :
    ∃ c' actions, c.nextDishonestTest mode otherwise item (.otherRound phase) = some (c', actions) := by
  simp only [nextDishonestTest, roundPhase, bind, pure, Option.bind_some]
  cases c.optionalDishonestConsensusNodes.getLast? with
  | some id => exact ⟨_, _, rfl⟩
  | none => exact ⟨_, _, h⟩

theorem exists_nextConspireTest {c c₁ : Controller} {configured : List Action} {item : TestItem} {phase : UInt8}
    (htaken : c.configureAnalyzerAndConsensusNode walk = some (c₁, configured)) (field : List String)
    (count : UInt16) :
    ∃ c' actions, c.nextConspireTest walk item (.otherRound phase) field count = some (c', actions) := by
  simp only [nextConspireTest, randomSelectConsensusNodesAsDishonest, roundPhase]
  split
  case isTrue hshort =>
    have hpositive : count ≠ 0 := by
      rintro rfl
      exact absurd hshort (Nat.not_lt_zero _)
    simp only [htaken, bind, pure, Option.bind_some, hpositive, if_false]
    exact ⟨_, _, rfl⟩
  case isFalse =>
    simp only [bind, pure, Option.bind_some]
    split
    case isTrue =>
      rw [htaken]
      exact ⟨_, _, rfl⟩
    case isFalse => exact ⟨_, _, rfl⟩

/-- `next_test` panics on nothing but a middle item without a phase. -/
theorem exists_nextTest (walk : Walk PeerId) (c : Controller)
    (h : ∀ item ∈ c.nextMidTestItem, hasPhase item = true) :
    ∃ c' actions, c.nextTest walk = some (c', actions) := by
  obtain ⟨c₁, configured, htaken, -⟩ := configureAnalyzerAndConsensusNode_spec walk c
  unfold nextTest
  cases hmiddle : c.nextMidTestItem with
  | none => exact ⟨_, _, htaken⟩
  | some item =>
    have hphase := h item hmiddle
    cases item with
    | throughput | latency | throughputAndLatency => exact ⟨_, _, rfl⟩
    | scalability count max increment =>
      simp only [nextScalabilityTest, randomSelectAConsensusNodeForScalabiliyTest]
      cases walk.last c.optionalScalabilityConsensusNodes with
      | some peerId => exact ⟨_, _, rfl⟩
      | none =>
        rw [htaken]
        exact ⟨_, _, rfl⟩
    | crash count max =>
      simp only [nextCrashTest, randomCrashAConsensusNode]
      split
      case isTrue => exact ⟨_, _, rfl⟩
      case isFalse =>
        cases walk.last c.optionalCrashConsensusNodes with
        | some peerId => exact ⟨_, _, rfl⟩
        | none => exact ⟨_, _, htaken⟩
    | malicious behaviour =>
      cases behaviour with
      | leaderDelaySendMessage => exact ⟨_, _, rfl⟩
      | leaderFeignDeath round maxPhase =>
        cases round with
        | firstRound => cases hphase
        | otherRound phase => exact exists_nextDishonestTest rfl
      | leaderSendDuplicateMessage round maxPhase =>
        cases round with
        | firstRound => cases hphase
        | otherRound phase => exact exists_nextDishonestTest rfl
      | leaderSendAmbiguousMessage round maxPhase field count =>
        cases round with
        | firstRound => cases hphase
        | otherRound phase => exact exists_nextDishonestTest htaken
      | replicaNodeConspireForgeMessages round maxPhase field count =>
        cases round with
        | firstRound => cases hphase
        | otherRound phase => exact exists_nextConspireTest htaken field count

/-! ## Completing a test -/

theorem maliciousTestNextField_frame {c c' : Controller} {phase : UInt8} {field : List String}
    (h : c.maliciousTestNextField phase = some (c', field)) : ∃ fields, c' = { c with fields := fields } := by
  obtain ⟨fieldVec, -, hresult⟩ := Option.bind_eq_some_iff.1 h
  split at hresult
  · obtain ⟨rfl, -⟩ := Prod.mk.inj (Option.some.inj hresult)
    exact ⟨_, rfl⟩
  · obtain ⟨rfl, -⟩ := Prod.mk.inj (Option.some.inj hresult)
    exact ⟨_, rfl⟩

theorem completePhase_frame {behaviour : Round → UInt8 → MaliciousBehaviour} {round : Round} {maxPhase : UInt8}
    {c c' : Controller} (h : c.completePhase behaviour round maxPhase = some c') :
    ∃ middle, c' = c.setNextMidTestItem middle := by
  unfold completePhase at h
  split at h
  · split at h <;> exact ⟨_, (Option.some.inj h).symm⟩
  · split at h
    case isTrue =>
      obtain ⟨next, -, hresult⟩ := Option.bind_eq_some_iff.1 h
      exact ⟨_, (Option.some.inj hresult).symm⟩
    case isFalse => exact ⟨_, (Option.some.inj h).symm⟩

theorem completeField_frame {behaviour : Round → UInt8 → List String → UInt16 → MaliciousBehaviour}
    {round : Round} {maxPhase : UInt8} {field : List String} {count : UInt16} {c c' : Controller}
    (h : c.completeField behaviour round maxPhase field count = some c') :
    ∃ middle fields, c' = { c with fields := fields }.setNextMidTestItem middle := by
  unfold completeField at h
  split at h
  · split at h
    case isTrue =>
      obtain ⟨⟨c₁, nextField⟩, hnext, hresult⟩ := Option.bind_eq_some_iff.1 h
      obtain ⟨fields, rfl⟩ := maliciousTestNextField_frame hnext
      exact ⟨_, fields, (Option.some.inj hresult).symm⟩
    case isFalse => exact ⟨_, c.fields, (Option.some.inj h).symm⟩
  · split at h
    case isTrue =>
      obtain ⟨⟨c₁, nextField⟩, hnext, hresult⟩ := Option.bind_eq_some_iff.1 h
      obtain ⟨fields, rfl⟩ := maliciousTestNextField_frame hnext
      dsimp only at hresult
      split at hresult
      case isTrue =>
        split at hresult
        case isTrue => exact ⟨_, fields, (Option.some.inj hresult).symm⟩
        case isFalse =>
          obtain ⟨nextPhase, -, hrest⟩ := Option.bind_eq_some_iff.1 hresult
          obtain ⟨⟨c₂, firstField⟩, hfirst, hlast⟩ := Option.bind_eq_some_iff.1 hrest
          obtain ⟨fields', rfl⟩ := maliciousTestNextField_frame hfirst
          exact ⟨_, fields', (Option.some.inj hlast).symm⟩
      case isFalse => exact ⟨_, fields, (Option.some.inj hresult).symm⟩
    case isFalse =>
      obtain ⟨next, -, hresult⟩ := Option.bind_eq_some_iff.1 h
      exact ⟨_, c.fields, (Option.some.inj hresult).symm⟩

/-- Completing a test changes the middle item and the fields that are left, and nothing else. -/
theorem completeTest_frame {c c' : Controller} {item : TestItem} (h : c.completeTest item = some c') :
    ∃ middle fields, c' = { c with fields := fields }.setNextMidTestItem middle := by
  cases item with
  | scalability | crash =>
    obtain ⟨next, -, hresult⟩ := Option.bind_eq_some_iff.1 h
    exact ⟨_, c.fields, (Option.some.inj hresult).symm⟩
  | malicious behaviour =>
    cases behaviour with
    | leaderFeignDeath | leaderDelaySendMessage | leaderSendDuplicateMessage =>
      obtain ⟨middle, hframe⟩ := completePhase_frame h
      exact ⟨middle, c.fields, hframe⟩
    | leaderSendAmbiguousMessage | replicaNodeConspireForgeMessages => exact completeField_frame h
  | throughput | latency | throughputAndLatency => exact ⟨c.nextMidTestItem, c.fields, (Option.some.inj h).symm⟩

/-! ## Turns of the event loop -/

/-- Where the event loop sends an input. -/
inductive Route where
  | command (command : Command)
  | conspire
  | analyzer (message : InteractiveMessage)
  | node (peerId : PeerId) (message : InteractiveMessage)
  | dropped
  | discovered (peers : List PeerId)
deriving DecidableEq

/-- Messages on the gossip topic are taken for messages of the analyzer. Messages of peers that are neither
waiting nor part of the test are dropped. -/
def route (c : Controller) : Input → Route
  | .command command => .command command
  | .conspire => .conspire
  | .unicast source message =>
    if c.analyzerId = source then .analyzer message
    else if source ∈ c.waitingConsensusNodes ∨ source ∈ c.consensusNodes then .node source message
    else .dropped
  | .gossip message => .analyzer message
  | .discovered peers => .discovered peers

/-- The messages that neither announce nor prepare nor start a test. -/
def Action.isCalm : Action → Bool
  | .sendMessage _ (.testItem _) => false
  | .sendMessage _ .startTest => false
  | .sendMessage _ .protocolStart => false
  | .sendMessage _ (.configureConsensusNode _) => false
  | .sendMessage _ .joinConsensus => false
  | .sendMessage _ (.consensusNodeMode _) => false
  | _ => true

/-- A mode of a node that has been part of a test and goes on. -/
def isHonestOrDishonest : ConsensusNodeMode → Bool
  | .honest _ => true
  | .dishonest _ => true
  | _ => false

def isConspire : MaliciousMode → Bool
  | .replicaNodeConspireForgeMessages .. => true
  | _ => false

/-- The peer that a feedback has to come from to start a test. -/
def expectedPeer (c : Controller) : InteractiveMessage → Option PeerId
  | .consensusNodeModeSuccess (.dishonest mode) =>
    if isConspire mode then none else some c.feedbackDishonestNode
  | .consensusNodeModeSuccess (.crash _) => some c.feedbackCrashNode
  | _ => none

/-- The messages of nodes that the controller has no use for. -/
def isUnusedFeedback : InteractiveMessage → Bool
  | .consensusPhase .. => false
  | .joinConsensusSuccess => false
  | .configureConsensusNodeSuccess _ => false
  | .resetSuccess .uninitialized => true
  | .resetSuccess _ => false
  | .consensusNodeModeSuccess .uninitialized => true
  | .consensusNodeModeSuccess _ => false
  | _ => true

/-- The messages of the analyzer that the controller has no use for. -/
def isUnusedReport : InteractiveMessage → Bool
  | .completedTest _ => false
  | .componentInfo (.analyzer _) => false
  | _ => true

/-- What one turn of the event loop can do. -/
inductive Effect (X : Externals) (walk : Walk PeerId) (c : Controller) :
    Route → Controller → List Action → Prop
  | calmCommand {command : Command} {actions : List Action}
      (kind : command = .init ∨ command = .queryProtocolPhases ∨ command = .sendConsensusRequests)
      (calm : ∀ action ∈ actions, action.isCalm = true) : Effect X walk c (.command command) c actions
  | startTestCommand : Effect X walk c (.command .startTest) c c.startTest
  | protocolStartCommand : Effect X walk c (.command .protocolStart) c (c.protocolStart walk)
  | configureExhausted (plan : c.testItems = []) :
      Effect X walk c (.command .configureAnalyzer) { c with nextTestItem := none } []
  | configureAnalyzer {rest : List TestItem} {item : TestItem} (plan : c.testItems = rest ++ [item]) :
      Effect X walk c (.command .configureAnalyzer) (c.announce item rest)
        [.sendMessage c.analyzerId (.testItem item)]
  | configureNodes {item : TestItem} (item_eq : c.nextTestItem = some item)
      (kind : isScalability item = false) :
      Effect X walk c (.command .configureConsensusNode) { c with consensusNodes := ∅ }
        (sendMessages (walk.order c.waitingConsensusNodes) (.configureConsensusNode .first))
  | configureFirst {count max increment : UInt16} {peerId : PeerId}
      (item_eq : c.nextTestItem = some (.scalability count max increment))
      (chosen : walk.last c.optionalScalabilityConsensusNodes = some peerId) :
      Effect X walk c (.command .configureConsensusNode) (c.configureFirstNode count peerId)
        (.sendMessage peerId (.configureConsensusNode .first) ::
          (c.configureFirstNode count peerId).idleNodes walk)
  | configureNobody {count max increment : UInt16} {c' : Controller} {actions : List Action}
      (item_eq : c.nextTestItem = some (.scalability count max increment))
      (nobody : c.optionalScalabilityConsensusNodes = ∅)
      (next : Configured walk { c with feedbackScalabilityFirstCount := count, consensusNodes := ∅ } c' actions) :
      Effect X walk c (.command .configureConsensusNode) c' (actions ++ c'.idleNodes walk)
  | conspireRequest {actions : List Action} (calm : ∀ action ∈ actions, action.isCalm = true) :
      Effect X walk c .conspire c actions
  | analyzerInfo {id : Bytes} :
      Effect X walk c (.analyzer (.componentInfo (.analyzer id))) (c.addAnalyzer walk id) []
  | completedReset {item : TestItem} {c₁ : Controller} (completed : c.completeTest item = some c₁)
      (reset : c₁.needReset = true) :
      Effect X walk c (.analyzer (.completedTest item)) c₁ (sendMessages (walk.order c₁.consensusNodes) .reset)
  | completedNext {item : TestItem} {c₁ c' : Controller} {actions : List Action}
      (completed : c.completeTest item = some c₁) (reset : c₁.needReset = false)
      (next : NextTest walk c₁.clearResetCounts c' actions) :
      Effect X walk c (.analyzer (.completedTest item)) c' actions
  | unusedReport {message : InteractiveMessage} (kind : isUnusedReport message = true) :
      Effect X walk c (.analyzer message) c []
  | phase {peerId : PeerId} {phase : UInt8} {msg : Bytes} {map : List (String × JsonValue ℕ)}
      (parsed : X.parseObject msg = some map) :
      Effect X walk c (.node peerId (.consensusPhase phase msg))
        { c with fields := c.fields.insert phase (mapIntoStringTree (toString phase.toNat) map).2 } []
  | joined {peerId : PeerId} (peerId_eq : c.feedbackScalabilityNode = peerId) :
      Effect X walk c (.node peerId .joinConsensusSuccess)
        { c with consensusNodes := insert peerId c.consensusNodes }
        ({ c with consensusNodes := insert peerId c.consensusNodes }.start walk)
  | notJoined {peerId : PeerId} (peerId_ne : c.feedbackScalabilityNode ≠ peerId) :
      Effect X walk c (.node peerId .joinConsensusSuccess) c []
  | admitted {peerId : PeerId} {state : ConfigureState} :
      Effect X walk c (.node peerId (.configureConsensusNodeSuccess state)) (c.admitConsensusNode peerId) []
  | admittedFirst {peerId : PeerId} :
      Effect X walk c (.node peerId (.consensusNodeModeSuccess (.honest .first))) (c.admitConsensusNode peerId) []
  | admittedOther {peerId : PeerId} {count : UInt16}
      (counted : checkedAdd16 c.consensusNodeConfigureCount 1 = some count)
      (waits : ¬ (UInt16.ofNat c.waitingConsensusNodes.card = count ∨ 1 = c.feedbackScalabilityFirstCount)) :
      Effect X walk c (.node peerId (.consensusNodeModeSuccess (.honest .other)))
        { c.admitConsensusNode peerId with consensusNodeConfigureCount := count } []
  | admittedLast {peerId : PeerId} {count : UInt16}
      (counted : checkedAdd16 c.consensusNodeConfigureCount 1 = some count)
      (complete : UInt16.ofNat c.waitingConsensusNodes.card = count ∨ 1 = c.feedbackScalabilityFirstCount) :
      Effect X walk c (.node peerId (.consensusNodeModeSuccess (.honest .other)))
        { c.admitConsensusNode peerId with
          feedbackScalabilityFirstCount := 0
          consensusNodeConfigureCount := 0 } ((c.admitConsensusNode peerId).start walk)
  | reset {peerId : PeerId} {mode : ConsensusNodeMode} {count sum : UInt16} (kind : isHonestOrDishonest mode = true)
      (counted : checkedAdd16 c.resetSuccessCount 1 = some count)
      (summed : checkedAdd16 count c.crashResetSuccessCount = some sum)
      (waits : UInt16.ofNat c.consensusNodes.card ≠ sum) :
      Effect X walk c (.node peerId (.resetSuccess mode)) { c with resetSuccessCount := count } []
  | resetNext {peerId : PeerId} {mode : ConsensusNodeMode} {count sum : UInt16} {c' : Controller}
      {actions : List Action} (kind : isHonestOrDishonest mode = true)
      (counted : checkedAdd16 c.resetSuccessCount 1 = some count)
      (summed : checkedAdd16 count c.crashResetSuccessCount = some sum)
      (complete : UInt16.ofNat c.consensusNodes.card = sum) (next : NextTest walk c.clearResetCounts c' actions) :
      Effect X walk c (.node peerId (.resetSuccess mode)) c' actions
  | crashReset {peerId : PeerId} {interval : UInt64} {count sum : UInt16}
      (counted : checkedAdd16 c.crashResetSuccessCount 1 = some count)
      (summed : checkedAdd16 c.resetSuccessCount count = some sum)
      (notAll : c.consensusNodes.card ≠ count.toNat) (waits : UInt16.ofNat c.consensusNodes.card ≠ sum) :
      Effect X walk c (.node peerId (.resetSuccess (.crash interval)))
        { c with
          crashResetSuccessCount := count
          crashConsensusNodes := insert peerId c.crashConsensusNodes } []
  | crashResetNext {peerId : PeerId} {interval : UInt64} {count sum : UInt16} {c' : Controller} {actions : List Action}
      (counted : checkedAdd16 c.crashResetSuccessCount 1 = some count)
      (summed : checkedAdd16 c.resetSuccessCount count = some sum)
      (notAll : c.consensusNodes.card ≠ count.toNat) (complete : UInt16.ofNat c.consensusNodes.card = sum)
      (next : NextTest walk { c with crashConsensusNodes := insert peerId c.crashConsensusNodes }.clearResetCounts
        c' actions) :
      Effect X walk c (.node peerId (.resetSuccess (.crash interval))) c' actions
  | allCrashed {peerId : PeerId} {interval : UInt64} {count : UInt16}
      (counted : checkedAdd16 c.crashResetSuccessCount 1 = some count)
      (all : c.consensusNodes.card = count.toNat) :
      Effect X walk c (.node peerId (.resetSuccess (.crash interval)))
        { c with
          crashResetSuccessCount := count
          crashConsensusNodes := insert peerId c.crashConsensusNodes }
        ((walk.order (insert peerId c.crashConsensusNodes)).map (setConsensusNodeMode · .uninitialized))
  | conspired {peerId : PeerId} {mode : MaliciousMode} {count : UInt16} (kind : isConspire mode = true)
      (counted : checkedAdd16 c.feedbackDishonestNodeSuccessCount 1 = some count)
      (waits : c.feedbackDishonestNodeCount ≠ count) :
      Effect X walk c (.node peerId (.consensusNodeModeSuccess (.dishonest mode)))
        { c with feedbackDishonestNodeSuccessCount := count } []
  | conspiredLast {peerId : PeerId} {mode : MaliciousMode} {count : UInt16} (kind : isConspire mode = true)
      (counted : checkedAdd16 c.feedbackDishonestNodeSuccessCount 1 = some count)
      (complete : c.feedbackDishonestNodeCount = count) :
      Effect X walk c (.node peerId (.consensusNodeModeSuccess (.dishonest mode)))
        { c with feedbackDishonestNodeSuccessCount := 0 } (c.start walk ++ [.conspireRequestSendTimerStart])
  | expected {peerId : PeerId} {message : InteractiveMessage} (peerId_eq : c.expectedPeer message = some peerId) :
      Effect X walk c (.node peerId message) c (c.start walk)
  | unexpected {peerId : PeerId} {message : InteractiveMessage} {other : PeerId}
      (other_eq : c.expectedPeer message = some other) (ne : other ≠ peerId) :
      Effect X walk c (.node peerId message) c []
  | unusedFeedback {peerId : PeerId} {message : InteractiveMessage} (kind : isUnusedFeedback message = true) :
      Effect X walk c (.node peerId message) c []
  | dropped : Effect X walk c .dropped c []
  | discovered {peers : List PeerId} : Effect X walk c (.discovered peers)
      { c with waitingConsensusNodes := c.waitingConsensusNodes ∪ peers.toFinset } []

theorem isCalm_sendMessages {receivers : List PeerId} {message : InteractiveMessage}
    (h : ∀ receiver, (Action.sendMessage receiver message).isCalm = true) :
    ∀ action ∈ sendMessages receivers message, action.isCalm = true := by
  intro action haction
  obtain ⟨receiver, -, rfl⟩ := List.mem_map.1 haction
  exact h receiver

theorem cmdMatch_effect {c c' : Controller} {command : Command} {actions : List Action}
    (h : c.cmdMatch walk command = some (c', actions)) : Effect X walk c (.command command) c' actions := by
  cases command with
  | init =>
    obtain ⟨rfl, rfl⟩ := Prod.mk.inj (Option.some.inj h)
    exact .calmCommand (.inl rfl) (by simp [Action.isCalm])
  | startTest =>
    obtain ⟨rfl, rfl⟩ := Prod.mk.inj (Option.some.inj h)
    exact .startTestCommand
  | protocolStart =>
    obtain ⟨rfl, rfl⟩ := Prod.mk.inj (Option.some.inj h)
    exact .protocolStartCommand
  | queryProtocolPhases =>
    obtain ⟨rfl, rfl⟩ := Prod.mk.inj (Option.some.inj h)
    refine .calmCommand (.inr (.inl rfl)) ?_
    unfold queryConsensusPhases
    cases walk.last c.waitingConsensusNodes <;> simp [Action.isCalm]
  | sendConsensusRequests =>
    obtain ⟨rfl, rfl⟩ := Prod.mk.inj (Option.some.inj h)
    exact .calmCommand (.inr (.inr rfl)) (isCalm_sendMessages fun _ ↦ rfl)
  | configureAnalyzer =>
    rcases List.eq_nil_or_concat c.testItems with hnil | ⟨rest, item, hconcat⟩
    · rw [cmdMatch, configureAnalyzer_of_nil hnil] at h
      obtain ⟨rfl, rfl⟩ := Prod.mk.inj (Option.some.inj h)
      exact .configureExhausted hnil
    · rw [List.concat_eq_append] at hconcat
      rw [cmdMatch, configureAnalyzer_of_concat hconcat] at h
      obtain ⟨rfl, rfl⟩ := Prod.mk.inj (Option.some.inj h)
      exact .configureAnalyzer hconcat
  | configureConsensusNode =>
    rw [cmdMatch, configureConsensusNode] at h
    obtain ⟨item, hitem, -⟩ := Option.bind_eq_some_iff.1 h
    by_cases hkind : isScalability item = false
    · rw [configureConsensusNodeWith_of_plain hitem hkind] at h
      obtain ⟨rfl, rfl⟩ := Prod.mk.inj (Option.some.inj h)
      exact .configureNodes hitem hkind
    · obtain ⟨count, max, increment, rfl⟩ : ∃ count max increment, item = .scalability count max increment := by
        cases item <;> first | exact ⟨_, _, _, rfl⟩ | exact absurd rfl hkind
      cases hlast : walk.last c.optionalScalabilityConsensusNodes with
      | some peerId =>
        rw [configureConsensusNodeWith_of_last hitem hlast] at h
        obtain ⟨rfl, rfl⟩ := Prod.mk.inj (Option.some.inj h)
        exact .configureFirst hitem hlast
      | none =>
        have hnobody := walk.last_eq_none_iff.1 hlast
        rw [configureConsensusNodeWith_of_none hitem hnobody] at h
        obtain ⟨⟨c₁, configured⟩, hconfigured, hresult⟩ := Option.map_eq_some_iff.1 h
        obtain ⟨rfl, rfl⟩ := Prod.mk.inj hresult
        exact .configureNobody hitem hnobody (configured_of_eq_some hconfigured)

theorem analyzerMessageHandler_effect {c c' : Controller} {message : InteractiveMessage}
    {actions : List Action} (h : c.analyzerMessageHandler X walk message = some (c', actions)) :
    Effect X walk c (.analyzer message) c' actions := by
  cases message with
  | componentInfo component =>
    cases component with
    | controller id =>
      obtain ⟨peerId, -, hsame⟩ := Option.bind_eq_some_iff.1 h
      obtain ⟨rfl, rfl⟩ := Prod.mk.inj (Option.some.inj hsame)
      exact .unusedReport rfl
    | analyzer id =>
      obtain ⟨peerId, hpeer, hsame⟩ := Option.bind_eq_some_iff.1 h
      obtain ⟨rfl, rfl⟩ := Prod.mk.inj (Option.some.inj hsame)
      rw [Platform.eq_of_peerIdFromBytes hpeer]
      exact .analyzerInfo
    | consensusNode id =>
      obtain ⟨rfl, rfl⟩ := Prod.mk.inj (Option.some.inj h)
      exact .unusedReport rfl
  | completedTest item =>
    obtain ⟨c₁, hcompleted, hreset⟩ := Option.bind_eq_some_iff.1 h
    unfold resetConsensusNode at hreset
    split at hreset
    case isTrue hneed =>
      obtain ⟨rfl, rfl⟩ := Prod.mk.inj (Option.some.inj hreset)
      exact .completedReset hcompleted hneed
    case isFalse hneed => exact .completedNext hcompleted (Bool.not_eq_true _ ▸ hneed) (nextTest_spec hreset)
  | _ =>
    obtain ⟨rfl, rfl⟩ := Prod.mk.inj (Option.some.inj h)
    exact .unusedReport rfl

theorem resetSuccess_effect {c c' : Controller} {peerId : PeerId} {mode : ConsensusNodeMode}
    {actions : List Action} (h : c.resetSuccess walk peerId mode = some (c', actions)) :
    Effect X walk c (.node peerId (.resetSuccess mode)) c' actions := by
  cases mode with
  | uninitialized =>
    obtain ⟨rfl, rfl⟩ := Prod.mk.inj (Option.some.inj h)
    exact .unusedFeedback rfl
  | honest | dishonest =>
    obtain ⟨count, hcounted, hcheck⟩ := Option.bind_eq_some_iff.1 h
    obtain ⟨sum, hsummed, hresult⟩ := Option.bind_eq_some_iff.1 hcheck
    split at hresult
    case isTrue hcomplete => exact .resetNext rfl hcounted hsummed hcomplete (nextTest_spec hresult)
    case isFalse hwaits =>
      obtain ⟨rfl, rfl⟩ := Prod.mk.inj (Option.some.inj hresult)
      exact .reset rfl hcounted hsummed hwaits
  | crash interval =>
    obtain ⟨count, hcounted, hrest⟩ := Option.bind_eq_some_iff.1 h
    dsimp only at hrest
    split at hrest
    case isTrue hall =>
      obtain ⟨rfl, rfl⟩ := Prod.mk.inj (Option.some.inj hrest)
      exact .allCrashed hcounted hall
    case isFalse hnotAll =>
      obtain ⟨sum, hsummed, hresult⟩ := Option.bind_eq_some_iff.1 hrest
      split at hresult
      case isTrue hcomplete => exact .crashResetNext hcounted hsummed hnotAll hcomplete (nextTest_spec hresult)
      case isFalse hwaits =>
        obtain ⟨rfl, rfl⟩ := Prod.mk.inj (Option.some.inj hresult)
        exact .crashReset hcounted hsummed hnotAll hwaits

theorem dishonestSuccess_effect {c c' : Controller} {peerId : PeerId} {mode : MaliciousMode}
    {actions : List Action} (h : c.dishonestSuccess walk peerId mode = some (c', actions)) :
    Effect X walk c (.node peerId (.consensusNodeModeSuccess (.dishonest mode))) c' actions := by
  cases mode with
  | replicaNodeConspireForgeMessages =>
    obtain ⟨count, hcounted, hrest⟩ := Option.bind_eq_some_iff.1 h
    dsimp only at hrest
    split at hrest
    case isTrue hcomplete =>
      obtain ⟨rfl, rfl⟩ := Prod.mk.inj (Option.some.inj hrest)
      exact .conspiredLast rfl hcounted hcomplete
    case isFalse hwaits =>
      obtain ⟨rfl, rfl⟩ := Prod.mk.inj (Option.some.inj hrest)
      exact .conspired rfl hcounted hwaits
  | _ =>
    simp only [dishonestSuccess] at h
    split at h
    case isTrue hpeer =>
      obtain ⟨rfl, rfl⟩ := Prod.mk.inj (Option.some.inj h)
      exact .expected (congrArg some hpeer)
    case isFalse hpeer =>
      obtain ⟨rfl, rfl⟩ := Prod.mk.inj (Option.some.inj h)
      exact .unexpected rfl hpeer

theorem consensusNodeModeSuccess_effect {c c' : Controller} {peerId : PeerId} {mode : ConsensusNodeMode}
    {actions : List Action} (h : c.consensusNodeModeSuccess walk peerId mode = some (c', actions)) :
    Effect X walk c (.node peerId (.consensusNodeModeSuccess mode)) c' actions := by
  cases mode with
  | uninitialized =>
    obtain ⟨rfl, rfl⟩ := Prod.mk.inj (Option.some.inj h)
    exact .unusedFeedback rfl
  | honest state =>
    cases state with
    | first =>
      obtain ⟨rfl, rfl⟩ := Prod.mk.inj (Option.some.inj h)
      exact .admittedFirst
    | other =>
      obtain ⟨count, hcounted, hrest⟩ := Option.bind_eq_some_iff.1 h
      dsimp only at hrest
      split at hrest
      case isTrue hcomplete =>
        obtain ⟨rfl, rfl⟩ := Prod.mk.inj (Option.some.inj hrest)
        exact .admittedLast hcounted hcomplete
      case isFalse hwaits =>
        obtain ⟨rfl, rfl⟩ := Prod.mk.inj (Option.some.inj hrest)
        exact .admittedOther hcounted hwaits
  | dishonest mode => exact dishonestSuccess_effect h
  | crash interval =>
    simp only [consensusNodeModeSuccess] at h
    split at h
    case isTrue hpeer =>
      obtain ⟨rfl, rfl⟩ := Prod.mk.inj (Option.some.inj h)
      exact .expected (congrArg some hpeer)
    case isFalse hpeer =>
      obtain ⟨rfl, rfl⟩ := Prod.mk.inj (Option.some.inj h)
      exact .unexpected rfl hpeer

theorem consensusNodeMessageHandler_effect {c c' : Controller} {peerId : PeerId} {message : InteractiveMessage}
    {actions : List Action} (h : c.consensusNodeMessageHandler X walk peerId message = some (c', actions)) :
    Effect X walk c (.node peerId message) c' actions := by
  cases message with
  | consensusPhase phase msg =>
    obtain ⟨c₁, hparsed, hsame⟩ := Option.bind_eq_some_iff.1 h
    obtain ⟨map, hmap, hfields⟩ := Option.bind_eq_some_iff.1 hparsed
    obtain rfl := Option.some.inj hfields
    obtain ⟨rfl, rfl⟩ := Prod.mk.inj (Option.some.inj hsame)
    exact .phase hmap
  | joinConsensusSuccess =>
    simp only [consensusNodeMessageHandler] at h
    split at h
    case isTrue hpeer =>
      obtain ⟨rfl, rfl⟩ := Prod.mk.inj (Option.some.inj h)
      exact .joined hpeer
    case isFalse hpeer =>
      obtain ⟨rfl, rfl⟩ := Prod.mk.inj (Option.some.inj h)
      exact .notJoined hpeer
  | configureConsensusNodeSuccess state =>
    obtain ⟨rfl, rfl⟩ := Prod.mk.inj (Option.some.inj h)
    exact .admitted
  | resetSuccess mode => exact resetSuccess_effect h
  | consensusNodeModeSuccess mode => exact consensusNodeModeSuccess_effect h
  | _ =>
    obtain ⟨rfl, rfl⟩ := Prod.mk.inj (Option.some.inj h)
    exact .unusedFeedback rfl

theorem step_effect {c c' : Controller} {event : Event} {actions : List Action}
    (h : step X c event = some (c', actions)) :
    Effect X event.walk c (c.route event.input) c' actions := by
  obtain ⟨input, walk⟩ := event
  cases input with
  | command command => exact cmdMatch_effect h
  | conspire =>
    obtain ⟨actions', hrequest, hsame⟩ := Option.bind_eq_some_iff.1 h
    obtain ⟨request, -, hsend⟩ := Option.bind_eq_some_iff.1 hrequest
    obtain ⟨rfl, rfl⟩ := Prod.mk.inj (Option.some.inj hsame)
    rw [← Option.some.inj hsend]
    exact .conspireRequest (isCalm_sendMessages fun _ ↦ rfl)
  | unicast source message =>
    simp only [step, unicastMessage] at h
    simp only [route]
    split at h
    case isTrue hanalyzer =>
      rw [if_pos hanalyzer]
      exact analyzerMessageHandler_effect h
    case isFalse hother =>
      rw [if_neg hother]
      split at h
      case isTrue hknown =>
        rw [if_pos hknown]
        exact consensusNodeMessageHandler_effect h
      case isFalse hunknown =>
        rw [if_neg hunknown]
        obtain ⟨rfl, rfl⟩ := Prod.mk.inj (Option.some.inj h)
        exact .dropped
  | gossip message => exact analyzerMessageHandler_effect h
  | discovered peers =>
    obtain ⟨rfl, rfl⟩ := Prod.mk.inj (Option.some.inj h)
    exact .discovered

end BFTDiagnosis.Controller
