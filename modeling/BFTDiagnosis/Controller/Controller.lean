import BFTDiagnosis.Components.Message
import BFTDiagnosis.Lib.HashMap
import BFTDiagnosis.Lib.HashSet
import BFTDiagnosis.Lib.Run
import BFTDiagnosis.Utils.Parse
import BFTDiagnosis.Utils.Platform

/-!
# The controller

`Controller` of `components/src/controller/controller.rs`: it plans the test items of a configuration,
announces one after the other to the analyzer, sets the modes of the consensus nodes and starts a test when
they have answered. One turn of its event loop is a step that returns what the controller sends.

A loop over a hash set and the choice of a node by `iter().last()` follow a `Walk`. `none` is a panic: an
`unwrap` or `expect` that fails, or an overflow in a build with overflow checks.
-/

namespace BFTDiagnosis

open Components Utils Word

/-- `Controller`, without the fields that are only written or only printed. -/
structure Controller where
  id : PeerId
  consensusNodes : Finset PeerId
  waitingConsensusNodes : Finset PeerId
  crashConsensusNodes : Finset PeerId
  optionalCrashConsensusNodes : Finset PeerId
  optionalScalabilityConsensusNodes : Finset PeerId
  optionalDishonestConsensusNodes : List PeerId
  analyzerId : PeerId
  testItems : List TestItem
  nextTestItem : Option TestItem
  nextMidTestItem : Option TestItem
  fields : HashMap UInt8 (List (List String))
  conspireRequest : Option Request
  feedbackCrashNode : PeerId
  feedbackScalabilityNode : PeerId
  feedbackDishonestNode : PeerId
  consensusNodeConfigureCount : UInt16
  resetSuccessCount : UInt16
  crashResetSuccessCount : UInt16
  feedbackDishonestNodeCount : UInt16
  feedbackDishonestNodeSuccessCount : UInt16
  feedbackScalabilityFirstCount : UInt16

namespace Controller

/-- The code under the controller that is not modelled. -/
structure Externals extends Platform where
  /-- `serde_json::from_slice(..).unwrap().as_object().unwrap()`: the entries in the order of the map. -/
  parseObject : Bytes → Option (List (String × JsonValue ℕ))

/-- Externals on which runs can be evaluated: every phase message has the field `view`. -/
def Externals.transparent : Externals where
  toPlatform := Platform.transparent
  parseObject _ := some [("view", .number 0)]

/-- What the controller does to its surroundings. -/
inductive Action where
  | sendMessage (receiver : PeerId) (message : InteractiveMessage)
  | publish (message : InteractiveMessage)
  | conspireRequestSendTimerStart
deriving DecidableEq

/-- The controller after a call and what it did, in order. -/
abbrev Result := Option (Controller × List Action)

/-! ## Configuration -/

namespace Config

structure Throughput where
  enable : Option Bool

structure Latency where
  enable : Option Bool

structure Scalability where
  enable : Option Bool
  max : Option UInt16
  internal : Option UInt16

structure Crash where
  enable : Option Bool
  max : Option UInt16

structure Malicious where
  enable : Option Bool
  numberOfPhase : Option UInt8
  behaviours : Option (List String)

end Config

/-- `BFTDiagnosisConfig` of `components/src/controller/config.rs`. -/
structure BFTDiagnosisConfig where
  throughput : Option Config.Throughput
  latency : Option Config.Latency
  scalability : Option Config.Scalability
  crash : Option Config.Crash
  malicious : Option Config.Malicious

/-- `Controller::new`. The peer ids that are random there are arguments. -/
def new (id analyzerId feedbackCrashNode feedbackScalabilityNode feedbackDishonestNode : PeerId) : Controller where
  id := id
  consensusNodes := ∅
  waitingConsensusNodes := ∅
  crashConsensusNodes := ∅
  optionalCrashConsensusNodes := ∅
  optionalScalabilityConsensusNodes := ∅
  optionalDishonestConsensusNodes := []
  analyzerId := analyzerId
  testItems := []
  nextTestItem := none
  nextMidTestItem := none
  fields := ∅
  conspireRequest := none
  feedbackCrashNode := feedbackCrashNode
  feedbackScalabilityNode := feedbackScalabilityNode
  feedbackDishonestNode := feedbackDishonestNode
  consensusNodeConfigureCount := 0
  resetSuccessCount := 0
  crashResetSuccessCount := 0
  feedbackDishonestNodeCount := 0
  feedbackDishonestNodeSuccessCount := 0
  feedbackScalabilityFirstCount := 0

def addTestItem (c : Controller) (testItem : TestItem) : Controller :=
  { c with testItems := c.testItems ++ [testItem] }

/-- The behaviour that a name in the configuration stands for. -/
def behaviourOfName (numberOfPhase : UInt8) (name : String) : Option MaliciousBehaviour :=
  if name = "LeaderFeignDeath" then some (.leaderFeignDeath .firstRound numberOfPhase)
  else if name = "LeaderSendAmbiguousMessage" then
    some (.leaderSendAmbiguousMessage .firstRound numberOfPhase [] 0)
  else if name = "LeaderDelaySendMessage" then some (.leaderDelaySendMessage .firstRound numberOfPhase)
  else if name = "LeaderSendDuplicateMessage" then
    some (.leaderSendDuplicateMessage .firstRound numberOfPhase)
  else if name = "ReplicaNodeConspireForgeMessages" then
    some (.replicaNodeConspireForgeMessages .firstRound numberOfPhase [] 0)
  else none

/-- The items of the performance tests. -/
def performanceItems (config : BFTDiagnosisConfig) : List TestItem :=
  let throughputFlag := (config.throughput.bind (·.enable)) = some true
  let latencyFlag := (config.latency.bind (·.enable)) = some true
  if throughputFlag ∧ latencyFlag then [.throughputAndLatency]
  else if throughputFlag then [.throughput]
  else if latencyFlag then [.latency]
  else []

def scalabilityItems (config : BFTDiagnosisConfig) : List TestItem :=
  match config.scalability with
  | some scalability =>
    if scalability.enable = some true then
      [.scalability 1 (scalability.max.getD 0) (scalability.internal.getD 0)]
    else []
  | none => []

def crashItems (config : BFTDiagnosisConfig) : List TestItem :=
  match config.crash with
  | some crash => if crash.enable = some true then [.crash 0 (crash.max.getD 0)] else []
  | none => []

/-- The items of the malicious tests. Without `number_of_phase` the code panics. -/
def maliciousItems (config : BFTDiagnosisConfig) : Option (List TestItem) :=
  match config.malicious with
  | some malicious =>
    if malicious.enable = some true then
      match malicious.behaviours with
      | some behaviours => do
        let numberOfPhase ← malicious.numberOfPhase
        return (behaviours.filterMap (behaviourOfName numberOfPhase)).map .malicious
      | none => some []
    else some []
  | none => some []

/-- `configure`. The items are reversed at the end because they are taken from the end. -/
def configure (c : Controller) (config : BFTDiagnosisConfig) : Option Controller := do
  let malicious ← maliciousItems config
  let items := performanceItems config ++ scalabilityItems config ++ crashItems config ++ malicious
  let c := items.foldl addTestItem c
  return { c with testItems := c.testItems.reverse }

/-! ## Configuring analyzer and consensus nodes -/

/-- One message to each of the receivers. -/
def sendMessages (receivers : List PeerId) (message : InteractiveMessage) : List Action :=
  receivers.map (.sendMessage · message)

/-- `next_test_item`: take the next item of the plan. -/
def takeNextTestItem (c : Controller) : Controller × Option TestItem :=
  ({ c with nextTestItem := c.testItems.getLast?, testItems := c.testItems.dropLast }, c.testItems.getLast?)

/-- The candidates that are collected for a test item. -/
def collectOptionalNodes (c : Controller) : TestItem → Controller
  | .crash .. => { c with optionalCrashConsensusNodes := c.waitingConsensusNodes }
  | .scalability .. => { c with optionalScalabilityConsensusNodes := c.waitingConsensusNodes }
  | _ => c

/-- `configure_analyzer`: whether there was another item is the last part of the result. -/
def configureAnalyzer (c : Controller) : Controller × List Action × Bool :=
  let (c, testItem) := c.takeNextTestItem
  match testItem with
  | some item =>
    let c := c.collectOptionalNodes item
    (c, [.sendMessage c.analyzerId (.testItem item)], true)
  | none => (c, [], false)

def setConsensusNodeMode (peerId : PeerId) (mode : ConsensusNodeMode) : Action :=
  .sendMessage peerId (.consensusNodeMode mode)

/-- `random_select_a_consensus_node_for_scalabiliy_test`. Without a candidate the code goes on to the next
item of the plan, which is `configureNext` here. -/
def randomSelectAConsensusNodeForScalabiliyTest (configureNext : Controller → Result) (walk : Walk PeerId)
    (c : Controller) : Option (Controller × List Action × Option PeerId) :=
  match walk.last c.optionalScalabilityConsensusNodes with
  | none => do
    let (c, actions) ← configureNext c
    return (c, actions, none)
  | some peerId => some (c, [], some peerId)

/-- `configure_consensus_node`, given what configuring the next item of the plan does. -/
def configureConsensusNodeWith (configureNext : Controller → Result) (walk : Walk PeerId)
    (configureState : ConfigureState) (c : Controller) : Result := do
  let nextItem ← c.nextTestItem
  let message := .configureConsensusNode configureState
  match nextItem with
  | .scalability n _ _ =>
    let c := { c with feedbackScalabilityFirstCount := n, consensusNodes := ∅ }
    let (c, moved, peerId) ← c.randomSelectAConsensusNodeForScalabiliyTest configureNext walk
    let (c, configured) : Controller × List Action := match peerId with
      | some peerId =>
        ({ c with optionalScalabilityConsensusNodes := c.optionalScalabilityConsensusNodes.erase peerId },
          [.sendMessage peerId message])
      | none => (c, [])
    let idle := (walk.order c.optionalScalabilityConsensusNodes).map
      (setConsensusNodeMode · .uninitialized)
    return (c, moved ++ configured ++ idle)
  | _ => return ({ c with consensusNodes := ∅ }, sendMessages (walk.order c.waitingConsensusNodes) message)

/-- `configure_analyzer_and_consensus_node`. It calls itself through `configure_consensus_node`, each time with
one item of the plan less, which is what the number counts. -/
def configureItems (walk : Walk PeerId) : ℕ → Controller → Result
  | 0, c =>
    let (c, announced, _) := c.configureAnalyzer
    some (c, announced)
  | n + 1, c =>
    let (c, announced, completedFlag) := c.configureAnalyzer
    if completedFlag then do
      let (c, configured) ← c.configureConsensusNodeWith (configureItems walk n) walk .other
      return (c, announced ++ configured)
    else some (c, announced)

def configureAnalyzerAndConsensusNode (walk : Walk PeerId) (c : Controller) : Result :=
  configureItems walk c.testItems.length c

def configureConsensusNode (walk : Walk PeerId) (configureState : ConfigureState) (c : Controller) : Result :=
  c.configureConsensusNodeWith (configureAnalyzerAndConsensusNode walk) walk configureState

/-! ## The next test -/

/-- `next_mid_test`: tell the analyzer the middle item, and what else it needs to know about it. -/
def nextMidTest (c : Controller) (testItem : TestItem) (option : Option InteractiveMessage) : List Action :=
  .sendMessage c.analyzerId (.testItem testItem) :: (option.map (.sendMessage c.analyzerId ·)).toList

/-- The phase of a middle item. The code panics with "Round Error!" on the first round. -/
def roundPhase : Round → Option UInt8
  | .firstRound => none
  | .otherRound phase => some phase

/-- The turn of `next_test` for an item with one dishonest node: its mode depends on the phase. What the
branches of the source differ in is what happens without a candidate. -/
def nextDishonestTest (mode : UInt8 → MaliciousMode) (otherwise : Controller → Result) (item : TestItem)
    (round : Round) (c : Controller) : Result := do
  let phase ← roundPhase round
  match c.optionalDishonestConsensusNodes.getLast? with
  | some id =>
    let c := { c with feedbackDishonestNode := id }
    return (c, setConsensusNodeMode id (.dishonest (mode phase)) ::
      c.nextMidTest item (some (.dishonestNode id)))
  | none => otherwise c

/-- `random_select_consensus_nodes_as_dishonest`. Without enough candidates the code goes on to the next item
of the plan. -/
def randomSelectConsensusNodesAsDishonest (walk : Walk PeerId) (count : UInt16) (c : Controller) :
    Option (Controller × List Action × List PeerId) :=
  if c.optionalDishonestConsensusNodes.length < count.toNat then do
    let (c, actions) ← c.configureAnalyzerAndConsensusNode walk
    return (c, actions, [])
  else some (c, [], c.optionalDishonestConsensusNodes.take count.toNat)

/-- The controller that knows the conspire request and how many nodes have to answer. -/
def awaitConspire (c : Controller) (request : Request) (count : ℕ) : Controller :=
  { c with conspireRequest := some request, feedbackDishonestNodeCount := UInt16.ofNat count }

/-- The turn of `next_test` for conspiring replicas. -/
def nextConspireTest (walk : Walk PeerId) (item : TestItem) (round : Round) (field : List String)
    (dishonestCount : UInt16) (c : Controller) : Result := do
  let (c, moved, dishonestPeerIds) ← c.randomSelectConsensusNodesAsDishonest walk dishonestCount
  let phase ← roundPhase round
  if dishonestCount = 0 then
    let (c, configured) ← c.configureAnalyzerAndConsensusNode walk
    return (c, moved ++ configured)
  else
    let request : Request := ⟨"Conspire"⟩
    let c := c.awaitConspire request dishonestPeerIds.length
    let mode := .dishonest (.replicaNodeConspireForgeMessages 1000 phase field request)
    return (c, moved ++ dishonestPeerIds.map (setConsensusNodeMode · mode) ++ c.nextMidTest item none)

/-- `random_crash_a_consensus_node`. -/
def randomCrashAConsensusNode (walk : Walk PeerId) (c : Controller) :
    Controller × List Action × Option PeerId :=
  match walk.last c.optionalCrashConsensusNodes with
  | none => (c, [], none)
  | some peerId =>
    ({ c with
      optionalCrashConsensusNodes := c.optionalCrashConsensusNodes.erase peerId
      feedbackCrashNode := peerId }, [setConsensusNodeMode peerId (.crash 1000)], some peerId)

/-- The turn of `next_test` for a crash item. -/
def nextCrashTest (walk : Walk PeerId) (item : TestItem) (crashCount : UInt16) (c : Controller) : Result :=
  if crashCount = 0 then some (c, c.nextMidTest item (some (.crashNode crashCount none)))
  else
    let (c, crashed, crashPeerId) := c.randomCrashAConsensusNode walk
    match crashPeerId with
    | some id => some (c, crashed ++ c.nextMidTest item (some (.crashNode crashCount (some id))))
    | none => c.configureAnalyzerAndConsensusNode walk

/-- The turn of `next_test` for a scalability item: one more node joins. -/
def nextScalabilityTest (walk : Walk PeerId) (item : TestItem) (c : Controller) : Result := do
  let (c, moved, peerId) ←
    c.randomSelectAConsensusNodeForScalabiliyTest (configureAnalyzerAndConsensusNode walk) walk
  let (c, joined) : Controller × List Action := match peerId with
    | some peerId =>
      ({ c with
        feedbackScalabilityNode := peerId
        optionalScalabilityConsensusNodes := c.optionalScalabilityConsensusNodes.erase peerId },
        [.sendMessage peerId .joinConsensus])
    | none => (c, [])
  return (c, moved ++ joined ++ c.nextMidTest item none)

def nextTest (walk : Walk PeerId) (c : Controller) : Result :=
  match c.nextMidTestItem with
  | some item =>
    match item with
    | .scalability _ _ _ => c.nextScalabilityTest walk item
    | .malicious (.leaderFeignDeath round _) =>
      c.nextDishonestTest (.leaderFeignDeath 1000) (fun c ↦ some (c, [])) item round
    | .malicious (.leaderSendDuplicateMessage round _) =>
      c.nextDishonestTest (.leaderSendDuplicateMessages 1000) (fun c ↦ some (c, [])) item round
    | .malicious (.leaderSendAmbiguousMessage round _ field count) =>
      c.nextDishonestTest (.leaderSendAmbiguousMessage 1000 · field count)
        (configureAnalyzerAndConsensusNode walk) item round
    | .malicious (.replicaNodeConspireForgeMessages round _ field dishonestCount) =>
      c.nextConspireTest walk item round field dishonestCount
    | .crash crashCount _ => c.nextCrashTest walk item crashCount
    | _ => some (c, [])
  | none => c.configureAnalyzerAndConsensusNode walk

/-! ## Reset -/

/-- `need_reset`, with the truncation of the length to 16 bits. -/
def needReset (c : Controller) : Bool := UInt16.ofNat c.consensusNodes.card != c.crashResetSuccessCount

/-- What both callers of `next_test` do before it. -/
def clearResetCounts (c : Controller) : Controller :=
  { c with resetSuccessCount := 0, crashResetSuccessCount := 0 }

def resetConsensusNode (walk : Walk PeerId) (c : Controller) : Result :=
  if c.needReset then some (c, sendMessages (walk.order c.consensusNodes) .reset)
  else c.clearResetCounts.nextTest walk

def checkResetAllSuccess (walk : Walk PeerId) (c : Controller) : Result := do
  let count ← checkedAdd16 c.resetSuccessCount c.crashResetSuccessCount
  if UInt16.ofNat c.consensusNodes.card = count then c.clearResetCounts.nextTest walk
  else return (c, [])

/-! ## Starting a test -/

def protocolStart (walk : Walk PeerId) (c : Controller) : List Action :=
  sendMessages (walk.order c.consensusNodes) .protocolStart

def startTest (c : Controller) : List Action := [.sendMessage c.analyzerId .startTest]

/-- The two calls that every feedback ends with that completes the preparation of a test. -/
def start (walk : Walk PeerId) (c : Controller) : List Action := c.protocolStart walk ++ c.startTest

def queryConsensusPhases (walk : Walk PeerId) (c : Controller) : List Action :=
  ((walk.last c.waitingConsensusNodes).map (.sendMessage · .maliciousTestPreparation)).toList

def makeConsensusRequests (walk : Walk PeerId) (count : ℕ) (c : Controller) : List Action :=
  sendMessages (walk.order c.consensusNodes)
    (.makeConsensusRequests ((List.range count).map fun i ↦ ⟨"Request_" ++ toString i⟩))

def sendConspireRequest (walk : Walk PeerId) (c : Controller) : Option (List Action) := do
  let request ← c.conspireRequest
  return sendMessages (walk.order c.consensusNodes) (.makeAConsensusRequest request)

/-! ## Messages of the analyzer -/

/-- `malicious_test_next_field`: the code panics without a list of fields for the phase, and removes a list
that is empty. -/
def maliciousTestNextField (c : Controller) (phase : UInt8) : Option (Controller × List String) := do
  let fieldVec ← c.fields.lookup phase
  match fieldVec.getLast? with
  | some field => return ({ c with fields := c.fields.insert phase fieldVec.dropLast }, field)
  | none => return ({ c with fields := c.fields.erase phase }, [])

def setNextMidTestItem (c : Controller) (item : Option TestItem) : Controller := { c with nextMidTestItem := item }

/-- The next middle item of a behaviour that is tested once in each phase. -/
def completePhase (behaviour : Round → UInt8 → MaliciousBehaviour) (round : Round) (maxPhase : UInt8)
    (c : Controller) : Option Controller :=
  match round with
  | .firstRound =>
    if 0 < maxPhase then some (c.setNextMidTestItem (some (.malicious (behaviour (.otherRound 1) maxPhase))))
    else some (c.setNextMidTestItem none)
  | .otherRound phase =>
    if phase < maxPhase then do
      let phase ← checkedAdd8 phase 1
      return c.setNextMidTestItem (some (.malicious (behaviour (.otherRound phase) maxPhase)))
    else some (c.setNextMidTestItem none)

/-- The next middle item of a behaviour that is tested in each phase with every field and every number of
nodes. -/
def completeField (behaviour : Round → UInt8 → List String → UInt16 → MaliciousBehaviour) (round : Round)
    (maxPhase : UInt8) (field : List String) (count : UInt16) (c : Controller) : Option Controller :=
  match round with
  | .firstRound =>
    if 0 < maxPhase then do
      let (c, nextField) ← c.maliciousTestNextField 1
      return c.setNextMidTestItem (some (.malicious (behaviour (.otherRound 1) maxPhase nextField 1)))
    else some (c.setNextMidTestItem none)
  | .otherRound phase =>
    if count.toNat = c.waitingConsensusNodes.card then do
      let (c, nextField) ← c.maliciousTestNextField phase
      if nextField.length = 0 then
        if phase = maxPhase then return c.setNextMidTestItem none
        else
          let nextPhase ← checkedAdd8 phase 1
          let (c, nextField) ← c.maliciousTestNextField nextPhase
          return c.setNextMidTestItem
            (some (.malicious (behaviour (.otherRound nextPhase) maxPhase nextField 1)))
      else return c.setNextMidTestItem (some (.malicious (behaviour (.otherRound phase) maxPhase nextField 1)))
    else do
      let count ← checkedAdd16 count 1
      return c.setNextMidTestItem (some (.malicious (behaviour (.otherRound phase) maxPhase field count)))

/-- What the handler of `CompletedTest` does to `next_mid_test_item`. -/
def completeTest (c : Controller) : TestItem → Option Controller
  | .scalability count max internal => do
    let next ← checkedAdd16 count internal
    return c.setNextMidTestItem (if next ≤ max then some (.scalability next max internal) else none)
  | .crash count max => do
    let next ← checkedAdd16 count 1
    return c.setNextMidTestItem (if next ≤ max then some (.crash next max) else none)
  | .malicious (.leaderFeignDeath round maxPhase) => c.completePhase .leaderFeignDeath round maxPhase
  | .malicious (.leaderDelaySendMessage round maxPhase) =>
    c.completePhase .leaderDelaySendMessage round maxPhase
  | .malicious (.leaderSendDuplicateMessage round maxPhase) =>
    c.completePhase .leaderSendDuplicateMessage round maxPhase
  | .malicious (.leaderSendAmbiguousMessage round maxPhase field count) =>
    c.completeField .leaderSendAmbiguousMessage round maxPhase field count
  | .malicious (.replicaNodeConspireForgeMessages round maxPhase field count) =>
    c.completeField .replicaNodeConspireForgeMessages round maxPhase field count
  | _ => some c

/-- An analyzer has announced itself: it is no consensus node. -/
def addAnalyzer (walk : Walk PeerId) (analyzerId : PeerId) (c : Controller) : Controller :=
  let waiting := c.waitingConsensusNodes.erase analyzerId
  { c with
    waitingConsensusNodes := waiting
    optionalDishonestConsensusNodes := walk.order waiting
    analyzerId := analyzerId }

variable (X : Externals)

def analyzerMessageHandler (walk : Walk PeerId) (message : InteractiveMessage) (c : Controller) : Result :=
  match message with
  | .componentInfo (.controller idBytes) => do
    let _ ← X.peerIdFromBytes idBytes
    return (c, [])
  | .componentInfo (.analyzer idBytes) => do
    let analyzerId ← X.peerIdFromBytes idBytes
    return (c.addAnalyzer walk analyzerId, [])
  | .completedTest testItem => do
    let c ← c.completeTest testItem
    c.resetConsensusNode walk
  | _ => some (c, [])

/-! ## Messages of the consensus nodes -/

def parseConsensusPhaseMessage (phase : UInt8) (msg : Bytes) (c : Controller) : Option Controller := do
  let msgMap ← X.parseObject msg
  let (_, fields) := mapIntoStringTree (toString phase.toNat) msgMap
  return { c with fields := c.fields.insert phase fields }

/-- A node takes part in the consensus and may be chosen to crash. -/
def admitConsensusNode (peerId : PeerId) (c : Controller) : Controller :=
  { c with
    consensusNodes := insert peerId c.consensusNodes
    optionalCrashConsensusNodes := insert peerId c.optionalCrashConsensusNodes }

/-- The handler of `ResetSuccess`. -/
def resetSuccess (walk : Walk PeerId) (peerId : PeerId) (mode : ConsensusNodeMode) (c : Controller) : Result :=
  match mode with
  | .uninitialized => some (c, [])
  | .honest _ | .dishonest _ => do
    let count ← checkedAdd16 c.resetSuccessCount 1
    { c with resetSuccessCount := count }.checkResetAllSuccess walk
  | .crash _ => do
    let count ← checkedAdd16 c.crashResetSuccessCount 1
    let c := { c with
      crashResetSuccessCount := count
      crashConsensusNodes := insert peerId c.crashConsensusNodes }
    if c.consensusNodes.card = c.crashResetSuccessCount.toNat then
      return (c, (walk.order c.crashConsensusNodes).map (setConsensusNodeMode · .uninitialized))
    else c.checkResetAllSuccess walk

/-- The answer of a node to `ConfigureConsensusNode(Other)`. -/
def honestOtherSuccess (walk : Walk PeerId) (peerId : PeerId) (c : Controller) : Result := do
  let c := c.admitConsensusNode peerId
  let count ← checkedAdd16 c.consensusNodeConfigureCount 1
  let c := { c with consensusNodeConfigureCount := count }
  if UInt16.ofNat c.waitingConsensusNodes.card = c.consensusNodeConfigureCount ∨
      1 = c.feedbackScalabilityFirstCount then
    let c := { c with feedbackScalabilityFirstCount := 0, consensusNodeConfigureCount := 0 }
    return (c, c.start walk)
  else return (c, [])

/-- The answer of a node to a dishonest mode. -/
def dishonestSuccess (walk : Walk PeerId) (peerId : PeerId) (mode : MaliciousMode) (c : Controller) : Result :=
  match mode with
  | .replicaNodeConspireForgeMessages _ _ _ _ => do
    let count ← checkedAdd16 c.feedbackDishonestNodeSuccessCount 1
    let c := { c with feedbackDishonestNodeSuccessCount := count }
    if c.feedbackDishonestNodeCount = c.feedbackDishonestNodeSuccessCount then
      let c := { c with feedbackDishonestNodeSuccessCount := 0 }
      return (c, c.start walk ++ [.conspireRequestSendTimerStart])
    else return (c, [])
  | _ => if c.feedbackDishonestNode = peerId then some (c, c.start walk) else some (c, [])

/-- The handler of `ConsensusNodeModeSuccess`. -/
def consensusNodeModeSuccess (walk : Walk PeerId) (peerId : PeerId) (mode : ConsensusNodeMode)
    (c : Controller) : Result :=
  match mode with
  | .uninitialized => some (c, [])
  | .honest .first => some (c.admitConsensusNode peerId, [])
  | .honest .other => c.honestOtherSuccess walk peerId
  | .dishonest mode => c.dishonestSuccess walk peerId mode
  | .crash _ => if c.feedbackCrashNode = peerId then some (c, c.start walk) else some (c, [])

def consensusNodeMessageHandler (walk : Walk PeerId) (peerId : PeerId) (message : InteractiveMessage)
    (c : Controller) : Result :=
  match message with
  | .consensusPhase phase msg => do
    let c ← c.parseConsensusPhaseMessage X phase msg
    return (c, [])
  | .joinConsensusSuccess =>
    if c.feedbackScalabilityNode = peerId then
      let c := { c with consensusNodes := insert peerId c.consensusNodes }
      some (c, c.start walk)
    else some (c, [])
  | .configureConsensusNodeSuccess _ => some (c.admitConsensusNode peerId, [])
  | .resetSuccess mode => c.resetSuccess walk peerId mode
  | .consensusNodeModeSuccess mode => c.consensusNodeModeSuccess walk peerId mode
  | _ => some (c, [])

/-! ## The event loop -/

/-- The commands of the client, without those that only print. -/
inductive Command where
  | init
  | startTest
  | protocolStart
  | configureConsensusNode
  | configureAnalyzer
  | queryProtocolPhases
  | sendConsensusRequests
deriving DecidableEq

/-- What the event loop selects. -/
inductive Input where
  | command (command : Command)
  /-- `conspire_notify`: the timer of the conspire request has fired. -/
  | conspire
  | unicast (source : PeerId) (message : InteractiveMessage)
  | gossip (message : InteractiveMessage)
  | discovered (peers : List PeerId)
deriving DecidableEq

/-- An input with the walks that are made for it. -/
structure Event where
  input : Input
  walk : Walk PeerId

def cmdMatch (walk : Walk PeerId) (command : Command) (c : Controller) : Result :=
  match command with
  | .init => some (c, [.publish (.componentInfo (.controller c.id))])
  | .startTest => some (c, c.startTest)
  | .protocolStart => some (c, c.protocolStart walk)
  | .configureConsensusNode => c.configureConsensusNode walk .first
  | .configureAnalyzer =>
    let (c, announced, _) := c.configureAnalyzer
    some (c, announced)
  | .queryProtocolPhases => some (c, c.queryConsensusPhases walk)
  | .sendConsensusRequests => some (c, c.makeConsensusRequests walk 10)

/-- A message that one peer sent to the controller. -/
def unicastMessage (walk : Walk PeerId) (source : PeerId) (message : InteractiveMessage) (c : Controller) :
    Result :=
  if c.analyzerId = source then c.analyzerMessageHandler X walk message
  else if source ∈ c.waitingConsensusNodes ∨ source ∈ c.consensusNodes then
    c.consensusNodeMessageHandler X walk source message
  else some (c, [])

/-- One turn of `message_handler_start`. -/
def step (c : Controller) (event : Event) : Result :=
  match event.input with
  | .command command => c.cmdMatch event.walk command
  | .conspire => do
    let actions ← c.sendConspireRequest event.walk
    return (c, actions)
  | .unicast source message => c.unicastMessage X event.walk source message
  | .gossip message => c.analyzerMessageHandler X event.walk message
  | .discovered peers =>
    some ({ c with waitingConsensusNodes := c.waitingConsensusNodes ∪ peers.toFinset }, [])

/-- A run of the controller. -/
abbrev Run := List (Transition Controller Event (List Action))

end Controller

end BFTDiagnosis
