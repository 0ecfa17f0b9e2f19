import BFTDiagnosis.Components.ProtocolActuator
import BFTDiagnosis.Controller.Turns
import BFTDiagnosis.Lib.Star

/-!
# The handshake before a malicious test

The controller sets the mode of the nodes that it has selected and starts the test when they have answered. A
node that is in the mode already does not answer, and the controller goes on counting where it stopped when a
test was started before all selected nodes had answered. So the handshake completes exactly when the nodes in
another mode are enough to reach the number that the controller waits for.
-/

namespace BFTDiagnosis.Controller

open Components Word

variable {X : Externals} {walk : Walk PeerId}

/-! ## Controller and nodes -/

/-- The controller, the nodes and the messages between them. -/
abbrev Network := Star Controller ProtocolActuator PeerId InteractiveMessage Action

/-- The message that an action sends to a node. The analyzer is no node. -/
def sendsToNode (c : Controller) : Action → Option (PeerId × InteractiveMessage)
  | .sendMessage receiver message => if receiver = c.analyzerId then none else some (receiver, message)
  | _ => none

variable (X) in
def handlers : Star.Handlers Controller ProtocolActuator PeerId InteractiveMessage Action (Walk PeerId) where
  hub c peerId message walk := step X c ⟨.unicast peerId message, walk⟩
  spoke := ProtocolActuator.controllerMessageHandler
  sends := sendsToNode

/-- The controller has just acted, and nothing else is in flight. -/
def announced (c : Controller) (actions : List Action) (nodes : PeerId → ProtocolActuator) : Network where
  hub := c
  spokes := nodes
  toSpokes := ↑(actions.filterMap c.sendsToNode)
  toHub := 0
  record := actions

variable (X) in
/-- Whatever the order of delivery: the controller does not panic, and when nothing is in flight it has sent
`ProtocolStart` to the nodes of the test and one `StartTest` to the analyzer. -/
def Completes (w₀ : Network) : Prop :=
  ∀ w, Star.Reachable (handlers X) w₀ w →
    (∀ x ∈ w.toHub, ∀ walk, (step X w.hub ⟨.unicast x.1 x.2, walk⟩).isSome = true) ∧
    (w.toSpokes = 0 → w.toHub = 0 →
      (∀ peerId ∈ w.hub.consensusNodes, .sendMessage peerId .protocolStart ∈ w.record) ∧
        w.record.countP isStartTest = 1)

/-- The mode that the nodes of a middle item are set to. -/
def requestedMode : TestItem → Option MaliciousMode
  | .malicious (.replicaNodeConspireForgeMessages (.otherRound phase) _ field _) =>
    some (.replicaNodeConspireForgeMessages 1000 phase field ⟨"Conspire"⟩)
  | item => dishonestMode item

/-- The nodes that `next_test` selects for a middle item. -/
def selectedNodes (c : Controller) : TestItem → List PeerId
  | .malicious (.replicaNodeConspireForgeMessages _ _ _ count) =>
    if c.optionalDishonestConsensusNodes.length < count.toNat then []
    else c.optionalDishonestConsensusNodes.take count.toNat
  | item => if (dishonestMode item).isSome then c.optionalDishonestConsensusNodes.getLast?.toList else []

/-- How many of the selected nodes are in another mode. -/
def otherModes (nodes : PeerId → ProtocolActuator) (mode : MaliciousMode) (selected : List PeerId) : ℕ :=
  selected.countP fun peerId ↦ (nodes peerId).mode ≠ .dishonest mode

/-- The selected nodes in another mode are enough to start the test: the one that is selected, or as many as are
missing of the number of selected nodes. -/
def RepliesSuffice (c : Controller) (nodes : PeerId → ProtocolActuator) (mode : MaliciousMode)
    (selected : List PeerId) : Prop :=
  if isConspire mode then c.feedbackDishonestNodeSuccessCount.toNat < selected.length ∧
    selected.length ≤ c.feedbackDishonestNodeSuccessCount.toNat + otherModes nodes mode selected
  else 0 < otherModes nodes mode selected

/-! ## What the controller waits for -/

def request (mode : MaliciousMode) : InteractiveMessage := .consensusNodeMode (.dishonest mode)

def reply (mode : MaliciousMode) : InteractiveMessage := .consensusNodeModeSuccess (.dishonest mode)

/-- The number of replies that are missing before the controller starts the test. -/
def missing (mode : MaliciousMode) (c : Controller) : ℕ :=
  if isConspire mode then c.feedbackDishonestNodeCount.toNat - c.feedbackDishonestNodeSuccessCount.toNat else 1

/-- The controller listens to the selected nodes and waits for as many of them. -/
structure Awaits (mode : MaliciousMode) (selected : List PeerId) (c : Controller) : Prop where
  members : ∀ peerId ∈ selected, peerId ∈ c.waitingConsensusNodes ∧ c.analyzerId ≠ peerId
  conspire : isConspire mode = true → c.feedbackDishonestNodeCount.toNat = selected.length
  single : isConspire mode = false → selected = [c.feedbackDishonestNode]

/-- What the controller sends when it starts a test. -/
structure SendsStart (c : Controller) (actions : List Action) : Prop where
  toNodes : ∀ x ∈ actions.filterMap c.sendsToNode, x.2 = .protocolStart
  all : ∀ peerId ∈ c.consensusNodes, .sendMessage peerId .protocolStart ∈ actions
  once : actions.countP isStartTest = 1

theorem route_of_mem {c : Controller} {peerId : PeerId} {message : InteractiveMessage}
    (h : peerId ∈ c.waitingConsensusNodes ∧ c.analyzerId ≠ peerId) :
    c.route (.unicast peerId message) = .node peerId message := by
  rw [route, if_neg h.2, if_pos (.inl h.1)]

theorem missing_of_conspire {mode : MaliciousMode} {c : Controller} (h : isConspire mode = true) :
    c.missing mode = c.feedbackDishonestNodeCount.toNat - c.feedbackDishonestNodeSuccessCount.toNat := if_pos h

theorem missing_of_single {mode : MaliciousMode} {c : Controller} (h : isConspire mode = false) :
    c.missing mode = 1 := by
  rw [missing, h, if_neg Bool.false_ne_true]

theorem sendsStart_start (c : Controller) (walk : Walk PeerId) {later : List Action}
    (hsends : later.filterMap c.sendsToNode = []) (hstarts : later.countP isStartTest = 0) :
    SendsStart c (c.start walk ++ later) := by
  constructor
  · intro x hx
    rw [List.filterMap_append, hsends, List.append_nil] at hx
    obtain ⟨action, haction, hx⟩ := List.mem_filterMap.1 hx
    rcases List.mem_append.1 haction with hprotocol | hstart
    · obtain ⟨receiver, -, rfl⟩ := List.mem_map.1 hprotocol
      unfold sendsToNode at hx
      dsimp only at hx
      split at hx
      · cases hx
      · rw [← Option.some.inj hx]
    · rw [List.mem_singleton.1 hstart, sendsToNode, if_pos rfl] at hx
      cases hx
  · intro peerId hmem
    refine List.mem_append_left _ (List.mem_append_left _ ?_)
    exact List.mem_map.2 ⟨peerId, walk.mem_order.2 hmem, rfl⟩
  · rw [List.countP_append, hstarts, countP_isStartTest_start]

/-- The reply of a selected node: the test is started when one reply was missing. -/
theorem Awaits.reply_cases {mode : MaliciousMode} {selected : List PeerId} {c c' : Controller} {peerId : PeerId}
    {out : List Action} (h : Awaits mode selected c) (hmem : peerId ∈ selected)
    (htaken : step X c ⟨.unicast peerId (reply mode), walk⟩ = some (c', out)) :
    Awaits mode selected c' ∧ c'.consensusNodes = c.consensusNodes ∧
      (c.missing mode = 1 ∧ c'.missing mode = selected.length ∧ SendsStart c' out ∨
        c.missing mode ≠ 1 ∧ c'.missing mode = c.missing mode - 1 ∧ out = []) := by
  have heffect := step_effect htaken
  rw [route_of_mem (h.members peerId hmem), reply] at heffect
  cases heffect with
  | @conspired _ _ count kind counted waits =>
    have hcount := checkedAdd16_eq_some_iff.1 counted
    refine ⟨⟨h.members, h.conspire, h.single⟩, rfl, .inr ⟨?_, ?_, rfl⟩⟩
    · rw [missing_of_conspire kind]
      intro hone
      apply waits
      rw [← UInt16.toNat_inj, hcount, UInt16.toNat_one]
      omega
    · rw [missing_of_conspire kind, missing_of_conspire kind]
      dsimp only
      rw [hcount, UInt16.toNat_one]
      omega
  | @conspiredLast _ _ count kind counted complete =>
    have hcount := checkedAdd16_eq_some_iff.1 counted
    refine ⟨⟨h.members, h.conspire, h.single⟩, rfl, .inl ⟨?_, ?_, ?_⟩⟩
    · rw [missing_of_conspire kind, complete, hcount, UInt16.toNat_one]
      omega
    · rw [missing_of_conspire kind]
      exact h.conspire kind
    · exact sendsStart_start _ walk rfl rfl
  | expected peerId_eq =>
    have hsingle : isConspire mode = false := by
      by_contra htrue
      rw [Bool.not_eq_false] at htrue
      simp [expectedPeer, htrue] at peerId_eq
    refine ⟨h, rfl, .inl ⟨missing_of_single hsingle, ?_, ?_⟩⟩
    · rw [missing_of_single hsingle, h.single hsingle]
      rfl
    · have hstart : SendsStart c (c.start walk ++ []) := sendsStart_start c walk rfl rfl
      rwa [List.append_nil] at hstart
  | @unexpected _ _ other other_eq ne =>
    have hsingle : isConspire mode = false := by
      by_contra htrue
      rw [Bool.not_eq_false] at htrue
      simp [expectedPeer, htrue] at other_eq
    rw [h.single hsingle, List.mem_singleton] at hmem
    simp only [expectedPeer, hsingle, Bool.false_eq_true, if_false, Option.some.injEq] at other_eq
    exact absurd (other_eq.symm.trans hmem.symm) ne
  | unusedFeedback kind => cases kind

/-- While replies are missing the counter does not overflow. -/
theorem Awaits.isSome_reply {mode : MaliciousMode} {selected : List PeerId} {c : Controller} {peerId : PeerId}
    (h : Awaits mode selected c) (hmem : peerId ∈ selected) (hmissing : 0 < c.missing mode) (walk : Walk PeerId) :
    (step X c ⟨.unicast peerId (reply mode), walk⟩).isSome = true := by
  obtain ⟨hwaiting, hanalyzer⟩ := h.members peerId hmem
  have hstep : step X c ⟨.unicast peerId (reply mode), walk⟩ = c.dishonestSuccess walk peerId mode := by
    dsimp only [step]
    rw [unicastMessage, if_neg hanalyzer, if_pos (.inl hwaiting)]
    rfl
  rw [hstep]
  cases mode with
  | replicaNodeConspireForgeMessages interval phase field request =>
    rw [missing_of_conspire rfl] at hmissing
    have hlt := c.feedbackDishonestNodeCount.toNat_lt
    have hcount : checkedAdd16 c.feedbackDishonestNodeSuccessCount 1 =
        some (c.feedbackDishonestNodeSuccessCount + 1) := by
      rw [checkedAdd16_eq_some_iff, UInt16.toNat_add, UInt16.toNat_one]
      exact Nat.mod_eq_of_lt (by omega)
    rw [dishonestSuccess, hcount]
    dsimp only [bind, Option.bind_some, pure]
    split <;> rfl
  | leaderFeignDeath | leaderSendAmbiguousMessage | leaderDelaySendMessage | leaderSendDuplicateMessages =>
    unfold dishonestSuccess
    dsimp only
    split <;> rfl

/-! ## The messages in flight -/

/-- A request that its node will answer. -/
def Answered (mode : MaliciousMode) (nodes : PeerId → ProtocolActuator) (x : PeerId × InteractiveMessage) : Prop :=
  x.2 = request mode ∧ (nodes x.1).running = false ∧ (nodes x.1).mode ≠ .dishonest mode

instance Answered.decidable (mode : MaliciousMode) (nodes : PeerId → ProtocolActuator) :
    DecidablePred (Answered mode nodes) :=
  fun x ↦ inferInstanceAs (Decidable
    (x.2 = request mode ∧ (nodes x.1).running = false ∧ (nodes x.1).mode ≠ .dishonest mode))

/-- The number of replies that the controller will still receive, as long as no node starts. -/
def outstanding (mode : MaliciousMode) (w : Network) : ℕ :=
  w.toSpokes.countP (Answered mode w.spokes) + w.toHub.card

/-- Nothing but the messages of the handshake is in flight. -/
structure Handshaking (mode : MaliciousMode) (selected : List PeerId) (w : Network) : Prop where
  awaits : Awaits mode selected w.hub
  toNodes : ∀ x ∈ w.toSpokes, x.2 = request mode ∧ x.1 ∈ selected ∨ x.2 = .protocolStart
  once : ∀ peerId, w.toSpokes.count (peerId, request mode) ≤ 1
  toController : ∀ x ∈ w.toHub, x.2 = reply mode ∧ x.1 ∈ selected
  bounded : outstanding mode w ≤ selected.length

/-- No node has been started. -/
structure NobodyStarts (w : Network) : Prop where
  idle : ∀ peerId, (w.spokes peerId).running = false
  toNodes : ∀ x ∈ w.toSpokes, x.2 ≠ .protocolStart

/-- Every delivery takes two steps from a request and one from a reply. -/
def weight (w : Network) : ℕ := 2 * w.toSpokes.card + w.toHub.card

/-- What a delivery does to the handshake. -/
inductive Progress (mode : MaliciousMode) (selected : List PeerId) (w w' : Network) : Prop
  | node (hub_eq : w'.hub = w.hub) (record_eq : w'.record = w.record)
      (outstanding_le : outstanding mode w' ≤ outstanding mode w)
      (kept : NobodyStarts w → NobodyStarts w' ∧ outstanding mode w' = outstanding mode w)
      (weight_lt : weight w' < weight w)
  | waits (missing_ne : w.hub.missing mode ≠ 1) (missing_eq : w'.hub.missing mode = w.hub.missing mode - 1)
      (nodes_eq : w'.hub.consensusNodes = w.hub.consensusNodes) (record_eq : w'.record = w.record)
      (outstanding_eq : outstanding mode w' + 1 = outstanding mode w)
      (kept : NobodyStarts w → NobodyStarts w') (weight_lt : weight w' < weight w)
  | starts {out : List Action} (missing_eq : w.hub.missing mode = 1)
      (missing_eq' : w'.hub.missing mode = selected.length)
      (outstanding_eq : outstanding mode w' + 1 = outstanding mode w) (record_eq : w'.record = w.record ++ out)
      (sent : SendsStart w'.hub out)

theorem request_ne_protocolStart (mode : MaliciousMode) : request mode ≠ .protocolStart := fun heq ↦ by cases heq

theorem countP_answered_of_protocolStart {mode : MaliciousMode} {nodes : PeerId → ProtocolActuator}
    {messages : Multiset (PeerId × InteractiveMessage)} (h : ∀ x ∈ messages, x.2 = .protocolStart) :
    messages.countP (Answered mode nodes) = 0 := by
  refine Multiset.countP_eq_zero.2 fun x hx hanswered ↦ ?_
  exact request_ne_protocolStart mode (hanswered.1.symm.trans (h x hx))

/-- What is left of the messages of the handshake when one of them is delivered to a node. -/
theorem Handshaking.of_toSpoke {mode : MaliciousMode} {selected : List PeerId} {w : Network} {peerId : PeerId}
    {message : InteractiveMessage} {rest : Multiset (PeerId × InteractiveMessage)} (h : Handshaking mode selected w)
    (hflight : w.toSpokes = (peerId, message) ::ₘ rest)
    (hreplies : ∀ answer ∈ ((w.spokes peerId).controllerMessageHandler message).2,
      answer = reply mode ∧ peerId ∈ selected)
    (hbounded : outstanding mode (w.toSpoke (handlers X) peerId message rest) ≤ outstanding mode w) :
    Handshaking mode selected (w.toSpoke (handlers X) peerId message rest) where
  awaits := h.awaits
  toNodes x hx := h.toNodes x (hflight ▸ Multiset.mem_cons_of_mem hx)
  once peerId' := le_trans (Multiset.count_le_of_le _ (hflight ▸ Multiset.le_cons_self _ _)) (h.once peerId')
  toController x hx := by
    rcases Multiset.mem_add.1 hx with hx | hx
    · exact h.toController x hx
    · obtain ⟨answer, hanswer, rfl⟩ := List.mem_map.1 (Multiset.mem_coe.1 hx)
      exact hreplies answer hanswer
  bounded := le_trans hbounded h.bounded

theorem request_handled (mode : MaliciousMode) (node : ProtocolActuator) :
    (node.controllerMessageHandler (request mode)).1.running = node.running ∧
      (node.controllerMessageHandler (request mode)).2 =
        if node.running = false ∧ node.mode ≠ .dishonest mode then [reply mode] else [] := by
  by_cases hanswers : node.running = false ∧ node.mode ≠ .dishonest mode
  · rw [request, ProtocolActuator.controllerMessageHandler_of_ne hanswers.1 hanswers.2, if_pos hanswers]
    exact ⟨rfl, rfl⟩
  · rw [request, ProtocolActuator.controllerMessageHandler_of_eq hanswers, if_neg hanswers]
    exact ⟨rfl, rfl⟩

/-- A node does not count for the requests to other nodes. -/
theorem countP_answered_update {mode : MaliciousMode} {peerId : PeerId}
    {rest : Multiset (PeerId × InteractiveMessage)} (habsent : (peerId, request mode) ∉ rest)
    (nodes : PeerId → ProtocolActuator) (node : ProtocolActuator) :
    rest.countP (Answered mode (Function.update nodes peerId node)) = rest.countP (Answered mode nodes) := by
  refine Multiset.countP_congr rfl fun x hx ↦ ?_
  by_cases heq : x.1 = peerId
  · have hne : x.2 ≠ request mode := fun hrequest ↦ habsent (by rw [← heq, ← hrequest]; exact hx)
    simp only [Answered, hne, false_and]
  · simp only [Answered, Function.update_of_ne heq]

theorem card_toHub_request (mode : MaliciousMode) (w : Network) (peerId : PeerId)
    (rest : Multiset (PeerId × InteractiveMessage)) :
    (w.toSpoke (handlers X) peerId (request mode) rest).toHub.card =
      w.toHub.card + if Answered mode w.spokes (peerId, request mode) then 1 else 0 := by
  rw [Star.toSpoke_toHub, Multiset.card_add, Multiset.coe_card, List.length_map]
  change w.toHub.card + ((w.spokes peerId).controllerMessageHandler (request mode)).2.length = _
  simp only [(request_handled mode (w.spokes peerId)).2, Answered, true_and]
  split <;> rfl

/-- A request is delivered: whether the node answers it or not, as many replies are to come. -/
theorem Handshaking.request_delivered {mode : MaliciousMode} {selected : List PeerId} {w : Network} {peerId : PeerId}
    {rest : Multiset (PeerId × InteractiveMessage)} (h : Handshaking mode selected w)
    (hflight : w.toSpokes = (peerId, request mode) ::ₘ rest) (hmem : peerId ∈ selected) :
    Handshaking mode selected (w.toSpoke (handlers X) peerId (request mode) rest) ∧
      Progress mode selected w (w.toSpoke (handlers X) peerId (request mode) rest) := by
  have habsent : (peerId, request mode) ∉ rest := by
    have honce := h.once peerId
    rw [hflight, Multiset.count_cons_self] at honce
    exact Multiset.count_eq_zero.1 (by omega)
  obtain ⟨hrunning, hreplies⟩ := request_handled mode (w.spokes peerId)
  have hcards : w.toSpokes.card = rest.card + 1 := by rw [hflight, Multiset.card_cons]
  have hreplied := card_toHub_request (X := X) mode w peerId rest
  have hsame : outstanding mode (w.toSpoke (handlers X) peerId (request mode) rest) = outstanding mode w := by
    have hcount : w.toSpokes.countP (Answered mode w.spokes) = rest.countP (Answered mode w.spokes) +
        if Answered mode w.spokes (peerId, request mode) then 1 else 0 := by
      rw [hflight, Multiset.countP_cons]
    have hrest : (w.toSpoke (handlers X) peerId (request mode) rest).toSpokes.countP
        (Answered mode (w.toSpoke (handlers X) peerId (request mode) rest).spokes) =
          rest.countP (Answered mode w.spokes) := countP_answered_update habsent w.spokes _
    rw [outstanding, outstanding, hreplied, hcount, hrest]
    omega
  refine ⟨h.of_toSpoke hflight ?_ hsame.le, .node rfl rfl hsame.le ?_ ?_⟩
  · intro answer hanswer
    rw [hreplies] at hanswer
    split at hanswer
    · exact ⟨List.mem_singleton.1 hanswer, hmem⟩
    · cases hanswer
  · intro hnobody
    refine ⟨⟨fun peerId' ↦ ?_, fun x hx ↦ hnobody.toNodes x (hflight ▸ Multiset.mem_cons_of_mem hx)⟩, hsame⟩
    rw [Star.toSpoke_spokes]
    by_cases heq : peerId' = peerId
    · rw [heq, Function.update_self]
      exact hrunning.trans (hnobody.idle peerId)
    · rw [Function.update_of_ne heq]
      exact hnobody.idle peerId'
  · have hle : (if Answered mode w.spokes (peerId, request mode) then 1 else 0) ≤ 1 := by split <;> omega
    rw [weight, weight, hreplied, hcards, Star.toSpoke_toSpokes]
    omega

/-- `ProtocolStart` is delivered: the node does not answer requests any more. -/
theorem Handshaking.start_delivered {mode : MaliciousMode} {selected : List PeerId} {w : Network} {peerId : PeerId}
    {rest : Multiset (PeerId × InteractiveMessage)} (h : Handshaking mode selected w)
    (hflight : w.toSpokes = (peerId, .protocolStart) ::ₘ rest) :
    Handshaking mode selected (w.toSpoke (handlers X) peerId .protocolStart rest) ∧
      Progress mode selected w (w.toSpoke (handlers X) peerId .protocolStart rest) := by
  have hhandler : (handlers X).spoke (w.spokes peerId) .protocolStart =
      ({ w.spokes peerId with running := true }, []) :=
    ProtocolActuator.controllerMessageHandler_protocolStart _
  have hreplied : (w.toSpoke (handlers X) peerId .protocolStart rest).toHub = w.toHub := by
    rw [Star.toSpoke_toHub, hhandler]
    exact add_zero _
  have hle : outstanding mode (w.toSpoke (handlers X) peerId .protocolStart rest) ≤ outstanding mode w := by
    rw [outstanding, outstanding, hreplied, hflight, Star.toSpoke_toSpokes]
    refine Nat.add_le_add_right (le_trans ?_ (Multiset.countP_le_of_le _ (Multiset.le_cons_self _ _))) _
    rw [Multiset.countP_eq_card_filter, Multiset.countP_eq_card_filter]
    refine Multiset.card_le_card (Multiset.monotone_filter_right _ ?_)
    rintro x ⟨hrequest, hidle, hmode⟩
    rw [Star.toSpoke_spokes] at hidle hmode
    by_cases heq : x.1 = peerId
    · rw [heq, Function.update_self, hhandler] at hidle
      cases hidle
    · rw [Function.update_of_ne heq] at hidle hmode
      exact ⟨hrequest, hidle, hmode⟩
  refine ⟨h.of_toSpoke hflight ?_ hle, .node rfl rfl hle ?_ ?_⟩
  · intro answer hanswer
    rw [ProtocolActuator.controllerMessageHandler_protocolStart] at hanswer
    cases hanswer
  · intro hnobody
    exact absurd rfl (hnobody.toNodes (peerId, .protocolStart) (hflight ▸ Multiset.mem_cons_self _ _))
  · rw [weight, weight, hreplied, hflight, Star.toSpoke_toSpokes, Multiset.card_cons]
    omega

/-- A reply is delivered to the controller. -/
theorem Handshaking.reply_delivered {mode : MaliciousMode} {selected : List PeerId} {w : Network} {peerId : PeerId}
    {message : InteractiveMessage} {rest : Multiset (PeerId × InteractiveMessage)} {c' : Controller}
    {out : List Action} (h : Handshaking mode selected w) (hflight : w.toHub = (peerId, message) ::ₘ rest)
    (htaken : step X w.hub ⟨.unicast peerId message, walk⟩ = some (c', out)) :
    Handshaking mode selected (w.handled (handlers X) rest c' out) ∧
      Progress mode selected w (w.handled (handlers X) rest c' out) := by
  obtain ⟨hreply, hmem⟩ := h.toController (peerId, message) (hflight ▸ Multiset.mem_cons_self _ _)
  dsimp only at hreply hmem
  subst hreply
  obtain ⟨hawaits, hnodes, houtcome⟩ := h.awaits.reply_cases hmem htaken
  have hcards : w.toHub.card = rest.card + 1 := by rw [hflight, Multiset.card_cons]
  -- what the controller sends is no request
  have hsent : ∀ x ∈ (↑(out.filterMap c'.sendsToNode) : Multiset (PeerId × InteractiveMessage)),
      x.2 = .protocolStart := by
    rcases houtcome with ⟨-, -, hstart⟩ | ⟨-, -, rfl⟩
    · exact fun x hx ↦ hstart.toNodes x (Multiset.mem_coe.1 hx)
    · exact fun x hx ↦ absurd hx (Multiset.notMem_zero x)
  have houtstanding : outstanding mode (w.handled (handlers X) rest c' out) + 1 = outstanding mode w := by
    have hcount : (w.handled (handlers X) rest c' out).toSpokes.countP (Answered mode w.spokes) =
        w.toSpokes.countP (Answered mode w.spokes) := by
      rw [Star.handled_toSpokes, Multiset.countP_add]
      exact (congrArg _ (countP_answered_of_protocolStart hsent)).trans (add_zero _)
    calc outstanding mode (w.handled (handlers X) rest c' out) + 1
      _ = (w.handled (handlers X) rest c' out).toSpokes.countP (Answered mode w.spokes) + rest.card + 1 := rfl
      _ = outstanding mode w := by rw [hcount, outstanding, hcards, Nat.add_assoc]
  have hshaking : Handshaking mode selected (w.handled (handlers X) rest c' out) := by
    refine ⟨hawaits, ?_, ?_, fun x hx ↦ h.toController x (hflight ▸ Multiset.mem_cons_of_mem hx), ?_⟩
    · intro x hx
      rcases Multiset.mem_add.1 hx with hx | hx
      · exact h.toNodes x hx
      · exact .inr (hsent x hx)
    · intro peerId'
      have hnone : Multiset.count (peerId', request mode)
          (↑(out.filterMap c'.sendsToNode) : Multiset (PeerId × InteractiveMessage)) = 0 :=
        Multiset.count_eq_zero.2 fun hrequest ↦ request_ne_protocolStart mode (hsent _ hrequest)
      rw [Star.handled_toSpokes, Multiset.count_add]
      exact (congrArg _ hnone).le.trans ((add_zero _).le.trans (h.once peerId'))
    · have hbounded := h.bounded
      omega
  refine ⟨hshaking, ?_⟩
  rcases houtcome with ⟨hone, hall, hstart⟩ | ⟨hne, hmissing, rfl⟩
  · exact .starts hone hall houtstanding rfl hstart
  · have htoSpokes : (w.handled (handlers X) rest c' []).toSpokes = w.toSpokes := add_zero _
    refine .waits hne hmissing hnodes (List.append_nil _) houtstanding ?_ ?_
    · intro hnobody
      exact ⟨hnobody.idle, by rw [htoSpokes]; exact hnobody.toNodes⟩
    · rw [weight, weight, htoSpokes, hcards]
      exact Nat.add_lt_add_left (Nat.lt_succ_self _) _

theorem Handshaking.step {mode : MaliciousMode} {selected : List PeerId} {w w' : Network}
    (h : Handshaking mode selected w) (htaken : Star.Step (handlers X) w w') :
    Handshaking mode selected w' ∧ Progress mode selected w w' := by
  cases htaken with
  | @spoke peerId message rest flight =>
    rcases h.toNodes (peerId, message) (flight ▸ Multiset.mem_cons_self _ _) with ⟨hrequest, hmem⟩ | hstart
    · obtain rfl : message = request mode := hrequest
      exact h.request_delivered flight hmem
    · obtain rfl : message = .protocolStart := hstart
      exact h.start_delivered flight
  | hub flight taken => exact h.reply_delivered flight taken

/-! ## Handshakes that complete and handshakes that do not -/

/-- The replies that are to come are enough, or the test has been started and they are not enough to start it
again. -/
structure Completing (mode : MaliciousMode) (selected : List PeerId) (w : Network) : Prop where
  shaking : Handshaking mode selected w
  starts : (w.record.countP isStartTest = 0 ∧ NobodyStarts w ∧ 0 < w.hub.missing mode ∧
      w.hub.missing mode ≤ outstanding mode w) ∨
    (w.record.countP isStartTest = 1 ∧ outstanding mode w < w.hub.missing mode ∧
      ∀ peerId ∈ w.hub.consensusNodes, .sendMessage peerId .protocolStart ∈ w.record)

theorem Completing.step {mode : MaliciousMode} {selected : List PeerId} {w w' : Network}
    (h : Completing mode selected w) (htaken : Star.Step (handlers X) w w') : Completing mode selected w' := by
  obtain ⟨hshaking, hprogress⟩ := h.shaking.step htaken
  refine ⟨hshaking, ?_⟩
  have hbounded := h.shaking.bounded
  cases hprogress with
  | node hub_eq record_eq outstanding_le kept =>
    rw [hub_eq, record_eq]
    rcases h.starts with ⟨hzero, hnobody, hpositive, henough⟩ | ⟨hone, hfew, hall⟩
    · obtain ⟨hnobody', hsame⟩ := kept hnobody
      exact .inl ⟨hzero, hnobody', hpositive, hsame ▸ henough⟩
    · exact .inr ⟨hone, lt_of_le_of_lt outstanding_le hfew, hall⟩
  | waits missing_ne missing_eq nodes_eq record_eq outstanding_eq kept =>
    rw [record_eq, missing_eq, nodes_eq]
    rcases h.starts with ⟨hzero, hnobody, hpositive, henough⟩ | ⟨hone, hfew, hall⟩
    · exact .inl ⟨hzero, kept hnobody, by omega, by omega⟩
    · exact .inr ⟨hone, by omega, hall⟩
  | @starts out missing_eq missing_eq' outstanding_eq record_eq sent =>
    rcases h.starts with ⟨hzero, -⟩ | ⟨-, hfew, -⟩
    · refine .inr ⟨?_, by omega, ?_⟩
      · rw [record_eq, List.countP_append, hzero, sent.once]
      · intro peerId hmem
        rw [record_eq]
        exact List.mem_append_right _ (sent.all peerId hmem)
    · omega

/-- The replies that are to come are not enough, and the test is not started. -/
structure Stalled (mode : MaliciousMode) (selected : List PeerId) (w : Network) : Prop where
  shaking : Handshaking mode selected w
  notStarted : w.record.countP isStartTest = 0
  nobody : NobodyStarts w
  few : w.hub.missing mode = 0 ∨ outstanding mode w < w.hub.missing mode

theorem Stalled.step {mode : MaliciousMode} {selected : List PeerId} {w w' : Network} (h : Stalled mode selected w)
    (htaken : Star.Step (handlers X) w w') : Stalled mode selected w' ∧ weight w' < weight w := by
  obtain ⟨hshaking, hprogress⟩ := h.shaking.step htaken
  have hfew := h.few
  cases hprogress with
  | node hub_eq record_eq outstanding_le kept weight_lt =>
    obtain ⟨hnobody, hsame⟩ := kept h.nobody
    exact ⟨⟨hshaking, record_eq ▸ h.notStarted, hnobody, by rwa [hub_eq, hsame]⟩, weight_lt⟩
  | waits missing_ne missing_eq nodes_eq record_eq outstanding_eq kept weight_lt =>
    refine ⟨⟨hshaking, record_eq ▸ h.notStarted, kept h.nobody, ?_⟩, weight_lt⟩
    rw [missing_eq]
    omega
  | starts missing_eq missing_eq' outstanding_eq => omega

theorem Completing.completes {mode : MaliciousMode} {selected : List PeerId} {w₀ : Network}
    (h : Completing mode selected w₀) : Completes X w₀ := by
  intro w hreachable
  have hw : Completing mode selected w := hreachable.invariant (fun _ _ hw htaken ↦ hw.step htaken) h
  constructor
  · intro x hx walk
    obtain ⟨hreply, hmem⟩ := hw.shaking.toController x hx
    rw [hreply]
    apply hw.shaking.awaits.isSome_reply hmem
    rcases hw.starts with ⟨-, -, hpositive, -⟩ | ⟨-, hfew, -⟩ <;> omega
  · intro hnodes hcontroller
    have hnone : outstanding mode w = 0 := by
      rw [outstanding, hnodes, hcontroller]
      rfl
    rcases hw.starts with ⟨-, -, hpositive, henough⟩ | ⟨hone, -, hall⟩
    · omega
    · exact ⟨hall, hone⟩

/-- The deliveries of a stalled handshake come to an end. -/
theorem Stalled.not_completes {mode : MaliciousMode} {selected : List PeerId} {w₀ : Network}
    (h : Stalled mode selected w₀) (walk : Walk PeerId) : ¬ Completes X w₀ := by
  intro hcompletes
  obtain ⟨w, hreachable, hw, hfinal⟩ :=
    Star.exists_final (H := handlers X) weight (fun _ _ hw htaken ↦ hw.step htaken) h
  obtain ⟨hnodes, haborts⟩ := Star.eq_zero_of_final hfinal
  obtain ⟨hsome, hstarted⟩ := hcompletes w hreachable
  by_cases hcontroller : w.toHub = 0
  · have hone := (hstarted hnodes hcontroller).2
    rw [hw.notStarted] at hone
    cases hone
  · obtain ⟨x, hx⟩ := Multiset.exists_mem_of_ne_zero hcontroller
    have hnone : Controller.step X w.hub ⟨.unicast x.1 x.2, walk⟩ = none := haborts x hx walk
    have hx := hsome x hx walk
    rw [hnone] at hx
    cases hx

/-! ## The candidates -/

/-- The candidates for dishonest nodes are different nodes that the controller listens to. -/
structure CandidatesHeard (c : Controller) : Prop where
  nodup : c.optionalDishonestConsensusNodes.Nodup
  members : ∀ peerId ∈ c.optionalDishonestConsensusNodes, peerId ∈ c.waitingConsensusNodes ∧ c.analyzerId ≠ peerId

theorem CandidatesHeard.of_eq {c c' : Controller} (h : CandidatesHeard c)
    (hdishonest : c'.optionalDishonestConsensusNodes = c.optionalDishonestConsensusNodes)
    (hwaiting : c.waitingConsensusNodes ⊆ c'.waitingConsensusNodes) (hanalyzer : c'.analyzerId = c.analyzerId) :
    CandidatesHeard c' := by
  refine ⟨hdishonest ▸ h.nodup, fun peerId hmem ↦ ?_⟩
  rw [hdishonest] at hmem
  exact ⟨hwaiting (h.members peerId hmem).1, hanalyzer ▸ (h.members peerId hmem).2⟩

theorem Configured.candidatesHeard {c c' : Controller} {actions : List Action} (h : Configured walk c c' actions)
    (hc : CandidatesHeard c) : CandidatesHeard c' :=
  hc.of_eq h.frame.dishonest h.frame.waiting.ge h.frame.analyzer

theorem NextTest.candidatesHeard {c c' : Controller} {actions : List Action} (h : NextTest walk c c' actions)
    (hc : CandidatesHeard c) : CandidatesHeard c' := by
  cases h with
  | configured _ next | nobodyJoined _ _ next => exact next.candidatesHeard hc
  | notEnoughConspire _ _ next =>
    exact (next.candidatesHeard hc).of_eq rfl (Finset.Subset.refl _) rfl
  | joined | dishonest | nobodyDishonest | conspire | noCrash | crash | ignored =>
    exact hc.of_eq rfl (Finset.Subset.refl _) rfl

theorem step_candidatesHeard {c c' : Controller} {event : Event} {actions : List Action}
    (h : step X c event = some (c', actions)) (hc : CandidatesHeard c) : CandidatesHeard c' := by
  have heffect := step_effect h
  generalize c.route event.input = route at heffect
  cases heffect with
  | analyzerInfo =>
    refine ⟨event.walk.nodup_order, fun peerId hmem ↦ ?_⟩
    have herase := event.walk.mem_order.1 hmem
    exact ⟨herase, (Finset.ne_of_mem_erase herase).symm⟩
  | discovered => exact hc.of_eq rfl Finset.subset_union_left rfl
  | @configureAnalyzer rest item => cases item <;> exact hc.of_eq rfl (Finset.Subset.refl _) rfl
  | configureNobody _ _ next => exact next.candidatesHeard (hc.of_eq rfl (Finset.Subset.refl _) rfl)
  | completedReset completed =>
    obtain ⟨middle, fields, rfl⟩ := completeTest_frame completed
    exact hc.of_eq rfl (Finset.Subset.refl _) rfl
  | completedNext completed _ next =>
    obtain ⟨middle, fields, rfl⟩ := completeTest_frame completed
    exact next.candidatesHeard (hc.of_eq rfl (Finset.Subset.refl _) rfl)
  | resetNext _ _ _ _ next | crashResetNext _ _ _ _ next =>
    exact next.candidatesHeard (hc.of_eq rfl (Finset.Subset.refl _) rfl)
  | _ => exact hc.of_eq rfl (Finset.Subset.refl _) rfl

theorem candidatesHeard_of_isRun {config : BFTDiagnosisConfig} {c₀ c : Controller} {run : Run}
    (h : Configuration config c₀) (hrun : IsRun (step X) c₀ run c) : CandidatesHeard c := by
  have hinitial : CandidatesHeard c₀ := by
    obtain ⟨id, analyzerId, crashNode, scalabilityNode, dishonestNode, testItems, rfl⟩ := h.exists_eq_new
    exact ⟨List.nodup_nil, List.forall_mem_nil _⟩
  apply hrun.invariant_of_forall CandidatesHeard hinitial _ fun _ _ ↦ trivial
  intro t hc _ htaken
  exact step_candidatesHeard htaken hc

/-! ## The announcement of an item -/

theorem requestedMode_of_dishonestMode {item : TestItem} {mode : MaliciousMode} (h : dishonestMode item = some mode) :
    requestedMode item = some mode ∧ isConspire mode = false ∧
      ∀ c : Controller, c.selectedNodes item = c.optionalDishonestConsensusNodes.getLast?.toList := by
  unfold dishonestMode at h
  split at h
  case h_4 => cases h
  all_goals
    obtain rfl := Option.some.inj h
    exact ⟨rfl, rfl, fun _ ↦ rfl⟩

/-- The handshake begins: the requests to the selected nodes are in flight. -/
theorem completes_iff_of_awaits {mode : MaliciousMode} {selected : List PeerId} {c : Controller}
    {actions : List Action} {nodes : PeerId → ProtocolActuator} (hawaits : Awaits mode selected c)
    (hnodup : selected.Nodup) (hsends : actions.filterMap c.sendsToNode = selected.map (·, request mode))
    (hstarts : actions.countP isStartTest = 0) (hidle : ∀ peerId, (nodes peerId).running = false)
    (walk : Walk PeerId) : Completes X (announced c actions nodes) ↔
      0 < c.missing mode ∧ c.missing mode ≤ otherModes nodes mode selected := by
  have houtstanding : outstanding mode (announced c actions nodes) = otherModes nodes mode selected := by
    change Multiset.countP (Answered mode nodes) ↑(actions.filterMap c.sendsToNode) + 0 = _
    rw [hsends, Multiset.coe_countP, List.countP_map, Nat.add_zero]
    refine List.countP_congr fun peerId _ ↦ ?_
    simp [Answered, hidle]
  have hnobody : NobodyStarts (announced c actions nodes) := by
    refine ⟨hidle, fun x hx ↦ ?_⟩
    rw [announced, hsends] at hx
    obtain ⟨peerId, -, rfl⟩ := List.mem_map.1 (Multiset.mem_coe.1 hx)
    exact request_ne_protocolStart mode
  have hshaking : Handshaking mode selected (announced c actions nodes) := by
    refine ⟨hawaits, ?_, ?_, fun x hx ↦ absurd hx (Multiset.notMem_zero x), ?_⟩
    · intro x hx
      rw [announced, hsends] at hx
      obtain ⟨peerId, hmem, rfl⟩ := List.mem_map.1 (Multiset.mem_coe.1 hx)
      exact .inl ⟨rfl, hmem⟩
    · intro peerId
      rw [announced, hsends]
      have hrequests : (selected.map (·, request mode)).Nodup :=
        hnodup.map fun a b heq ↦ (Prod.mk.inj heq).1
      exact Multiset.nodup_iff_count_le_one.1 (Multiset.coe_nodup.2 hrequests) _
    · rw [houtstanding]
      exact List.countP_le_length
  by_cases hsuffice : 0 < c.missing mode ∧ c.missing mode ≤ otherModes nodes mode selected
  · have hcompleting : Completing mode selected (announced c actions nodes) :=
      ⟨hshaking, .inl ⟨hstarts, hnobody, hsuffice.1, by rw [houtstanding]; exact hsuffice.2⟩⟩
    exact iff_of_true hcompleting.completes hsuffice
  · have hstalled : Stalled mode selected (announced c actions nodes) := by
      refine ⟨hshaking, hstarts, hnobody, ?_⟩
      rw [houtstanding]
      change c.missing mode = 0 ∨ _ < c.missing mode
      omega
    exact iff_of_false (hstalled.not_completes walk) hsuffice

/-- The replies suffice when they are as many as are missing. -/
theorem Awaits.repliesSuffice_iff {mode : MaliciousMode} {selected : List PeerId} {c c' : Controller}
    {nodes : PeerId → ProtocolActuator} (h : Awaits mode selected c')
    (hcount : c'.feedbackDishonestNodeSuccessCount = c.feedbackDishonestNodeSuccessCount) :
    RepliesSuffice c nodes mode selected ↔
      0 < c'.missing mode ∧ c'.missing mode ≤ otherModes nodes mode selected := by
  unfold RepliesSuffice
  cases hkind : isConspire mode with
  | true =>
    rw [if_pos rfl, missing_of_conspire hkind, h.conspire hkind, hcount]
    omega
  | false =>
    rw [if_neg Bool.false_ne_true, missing_of_single hkind]
    omega

/-- What `next_test` sends to the nodes that it has selected. -/
structure Requests (mode : MaliciousMode) (selected : List PeerId) (c c' : Controller) (actions : List Action) :
    Prop where
  awaits : Awaits mode selected c'
  nodup : selected.Nodup
  sends : actions.filterMap c'.sendsToNode = selected.map (·, request mode)
  count_eq : c'.feedbackDishonestNodeSuccessCount = c.feedbackDishonestNodeSuccessCount

theorem requests_of_dishonest {c : Controller} {item : TestItem} {mode : MaliciousMode} {peerId : PeerId}
    (hheard : CandidatesHeard c) (hsingle : isConspire mode = false)
    (hchosen : c.optionalDishonestConsensusNodes.getLast? = some peerId) :
    Requests mode [peerId] c { c with feedbackDishonestNode := peerId }
      [setConsensusNodeMode peerId (.dishonest mode), .sendMessage c.analyzerId (.testItem item),
        .sendMessage c.analyzerId (.dishonestNode peerId)] := by
  have hmember := hheard.members peerId (List.mem_of_getLast? hchosen)
  refine ⟨⟨List.forall_mem_singleton.2 hmember, ?_, fun _ ↦ rfl⟩, List.nodup_singleton _, ?_, rfl⟩
  · rw [hsingle]
    exact fun hfalse ↦ absurd hfalse Bool.false_ne_true
  · simp [sendsToNode, setConsensusNodeMode, hmember.2.symm, request]

theorem requests_of_conspire {c : Controller} {phase maxPhase : UInt8} {field : List String} {count : UInt16}
    (hheard : CandidatesHeard c) (henough : count.toNat ≤ c.optionalDishonestConsensusNodes.length) :
    Requests (.replicaNodeConspireForgeMessages 1000 phase field ⟨"Conspire"⟩)
      (c.optionalDishonestConsensusNodes.take count.toNat) c (c.awaitConspire ⟨"Conspire"⟩ count.toNat)
      ((c.optionalDishonestConsensusNodes.take count.toNat).map (setConsensusNodeMode ·
          (.dishonest (.replicaNodeConspireForgeMessages 1000 phase field ⟨"Conspire"⟩))) ++
        [.sendMessage c.analyzerId (.testItem
          (.malicious (.replicaNodeConspireForgeMessages (.otherRound phase) maxPhase field count)))]) := by
  have hmembers : ∀ peerId ∈ c.optionalDishonestConsensusNodes.take count.toNat,
      peerId ∈ c.waitingConsensusNodes ∧ c.analyzerId ≠ peerId :=
    fun peerId hmem ↦ hheard.members peerId (List.mem_of_mem_take hmem)
  refine ⟨⟨hmembers, fun _ ↦ ?_, fun hfalse ↦ by cases hfalse⟩, hheard.nodup.sublist (List.take_sublist _ _), ?_, rfl⟩
  · rw [List.length_take_of_le henough]
    exact UInt16.toNat_ofNat_of_lt' count.toNat_lt
  · have hanalyzer : [Action.sendMessage c.analyzerId (.testItem (.malicious
        (.replicaNodeConspireForgeMessages (.otherRound phase) maxPhase field count)))].filterMap
          (c.awaitConspire ⟨"Conspire"⟩ count.toNat).sendsToNode = [] := by
      simp [sendsToNode, awaitConspire]
    rw [List.filterMap_append, hanalyzer, List.append_nil, List.filterMap_map]
    refine List.filterMap_eq_map_iff_forall_eq_some.2 fun peerId hmem ↦ ?_
    exact if_neg (hmembers peerId hmem).2.symm

/-- Where `next_test` goes on with the plan instead, it has selected nobody. -/
theorem selectedNodes_of_movesOn {c : Controller} {item : TestItem} {mode : MaliciousMode} (h : c.MovesOn)
    (hitem : c.nextMidTestItem = some item) (hmode : requestedMode item = some mode) : c.selectedNodes item = [] := by
  rw [MovesOn, hitem] at h
  cases item with
  | throughput | latency | throughputAndLatency | scalability | crash => cases hmode
  | malicious behaviour =>
    cases behaviour with
    | leaderFeignDeath | leaderDelaySendMessage | leaderSendDuplicateMessage => exact h.elim
    | leaderSendAmbiguousMessage round =>
      cases round with
      | firstRound => exact h.elim
      | otherRound phase =>
        change c.optionalDishonestConsensusNodes.getLast?.toList = []
        rw [show c.optionalDishonestConsensusNodes = [] from h]
        rfl
    | replicaNodeConspireForgeMessages round maxPhase field count =>
      cases round with
      | firstRound => exact h.elim
      | otherRound phase =>
        rw [selectedNodes, show count = 0 from h, UInt16.toNat_zero, if_neg (Nat.not_lt_zero _), List.take_zero]

theorem NextTest.requests {c c' : Controller} {actions : List Action} {item : TestItem} {mode : MaliciousMode}
    (h : NextTest walk c c' actions) (hheard : CandidatesHeard c) (hitem : c.nextMidTestItem = some item)
    (hmode : requestedMode item = some mode) (hselected : c.selectedNodes item ≠ []) :
    Requests mode (c.selectedNodes item) c c' actions := by
  cases h with
  | @dishonest item' mode' peerId middle kind chosen =>
    obtain rfl := Option.some.inj (hitem.symm.trans middle)
    obtain ⟨hrequested, hsingle, hnodes⟩ := requestedMode_of_dishonestMode kind
    obtain rfl := Option.some.inj (hmode.symm.trans hrequested)
    rw [hnodes, chosen]
    exact requests_of_dishonest hheard hsingle chosen
  | @conspire phase maxPhase field count middle positive enough =>
    obtain rfl := Option.some.inj (hitem.symm.trans middle)
    obtain rfl := Option.some.inj hmode
    rw [selectedNodes, if_neg enough.not_gt]
    exact requests_of_conspire hheard enough
  | configured movesOn => exact absurd (selectedNodes_of_movesOn movesOn hitem hmode) hselected
  | nobodyDishonest middle kind _ nobody =>
    obtain rfl := Option.some.inj (hitem.symm.trans middle)
    refine absurd ?_ hselected
    rw [(requestedMode_of_dishonestMode kind).2.2, nobody]
    rfl
  | notEnoughConspire middle short =>
    obtain rfl := Option.some.inj (hitem.symm.trans middle)
    exact absurd (if_pos short) hselected
  | joined middle | nobodyJoined middle | noCrash middle | crash middle =>
    rw [Option.some.inj (hitem.symm.trans middle)] at hmode
    cases hmode
  | ignored middle kind =>
    obtain rfl := Option.some.inj (hitem.symm.trans middle)
    cases item with
    | malicious behaviour => cases behaviour <;> first | cases hmode | cases kind
    | throughput | latency | throughputAndLatency | scalability | crash => cases hmode

/-- In every controller that a run has led to and with every node idle, in whatever mode: after `next_test` has
announced an item and selected nodes for it, the handshake completes exactly when the selected nodes in another
mode suffice. -/
theorem completes_iff {config : BFTDiagnosisConfig} {c₀ c c₁ c' : Controller} {run : Run} {event : Event}
    {actions : List Action} {item : TestItem} {mode : MaliciousMode} {nodes : PeerId → ProtocolActuator}
    (h : Configuration config c₀) (hrun : IsRun (step X) c₀ run c) (hcall : CallsNextTest c event c₁)
    (htaken : step X c event = some (c', actions)) (hitem : c₁.nextMidTestItem = some item)
    (hmode : requestedMode item = some mode) (hselected : c₁.selectedNodes item ≠ [])
    (hidle : ∀ peerId, (nodes peerId).running = false) :
    Completes X (announced c' actions nodes) ↔ RepliesSuffice c₁ nodes mode (c₁.selectedNodes item) := by
  have hheard : CandidatesHeard c₁ := by
    obtain ⟨middle, fields, crashNodes, rfl⟩ := hcall.exists_eq
    exact (candidatesHeard_of_isRun h hrun).of_eq rfl (Finset.Subset.refl _) rfl
  have hnext := nextTest_spec ((hcall.step_eq (X := X)).symm.trans htaken)
  have hrequests := hnext.requests hheard hitem hmode hselected
  have hstarts := countP_isStartTest_eq_zero hnext.starts
  rw [hrequests.awaits.repliesSuffice_iff hrequests.count_eq]
  exact completes_iff_of_awaits hrequests.awaits hrequests.nodup hrequests.sends hstarts hidle event.walk

/-! ## Two conspiracies in a row -/

def conspireConfig : BFTDiagnosisConfig where
  throughput := none
  latency := none
  scalability := none
  crash := none
  malicious := some ⟨some true, some 1, some ["ReplicaNodeConspireForgeMessages"]⟩

def conspireItem (round : Round) (field : List String) (count : UInt16) : TestItem :=
  .malicious (.replicaNodeConspireForgeMessages round 1 field count)

def conspireMode : MaliciousMode := .replicaNodeConspireForgeMessages 1000 1 ["view"] ⟨"Conspire"⟩

/-- The nodes are honest in the first test and report the fields of a phase; after the test one of the two has
answered the reset. -/
def firstConspireEvents : List Event :=
  [(Input.discovered [[1], [2]]).sorted, (Input.gossip (.componentInfo (.analyzer [101]))).sorted,
    (Input.command .configureAnalyzer).sorted, (Input.command .configureConsensusNode).sorted,
    (Input.unicast [1] (.consensusNodeModeSuccess (.honest .first))).sorted,
    (Input.unicast [2] (.consensusNodeModeSuccess (.honest .first))).sorted,
    (Input.unicast [1] (.consensusPhase 1 [])).sorted,
    (Input.gossip (.completedTest (conspireItem .firstRound [] 0))).sorted,
    (Input.unicast [1] (.resetSuccess (.honest .first))).sorted]

/-- The second node answers the reset. -/
def lastReset : Event := (Input.unicast [2] (.resetSuccess (.honest .first))).sorted

/-- A test with one conspiring node follows, and after it that node has answered the reset. -/
def secondConspireEvents : List Event :=
  firstConspireEvents ++ [lastReset, (Input.unicast [1] (reply conspireMode)).sorted,
    (Input.gossip (.completedTest (conspireItem (.otherRound 1) ["view"] 1))).sorted,
    (Input.unicast [1] (.resetSuccess (.dishonest conspireMode))).sorted]

def afterConspireEvents (events : List Event) : Controller :=
  final (step Externals.transparent) (freshWith conspireConfig) events

/-- The controller that has announced the next test, and what it has sent. -/
def announcedAfter (events : List Event) : Controller × List Action :=
  (step Externals.transparent (afterConspireEvents events) lastReset).getD (afterConspireEvents events, [])

theorem step_lastReset {events : List Event}
    (h : (step Externals.transparent (afterConspireEvents events) lastReset).isSome = true) :
    step Externals.transparent (afterConspireEvents events) lastReset =
      some ((announcedAfter events).1, (announcedAfter events).2) := by
  obtain ⟨result, hresult⟩ := Option.isSome_iff_exists.1 h
  rw [announcedAfter, hresult]
  rfl

theorem callsNextTest_lastReset {events : List Event}
    (hroute : (afterConspireEvents events).route lastReset.input = .node [2] (.resetSuccess (.honest .first)))
    (hcounted : checkedAdd16 (afterConspireEvents events).resetSuccessCount 1 = some 2)
    (hsummed : checkedAdd16 2 (afterConspireEvents events).crashResetSuccessCount = some 2)
    (hcomplete : UInt16.ofNat (afterConspireEvents events).consensusNodes.card = 2) :
    CallsNextTest (afterConspireEvents events) lastReset (afterConspireEvents events).clearResetCounts :=
  .reset hroute rfl hcounted hsummed hcomplete

/-- All nodes are idle, and those in the list are in the mode of the conspiracy. -/
def conspireNodes (conspiring : List PeerId) (peerId : PeerId) : ProtocolActuator where
  mode := if peerId ∈ conspiring then .dishonest conspireMode else .honest .first
  running := false
  protocolPhases := []

theorem completes_iff_firstConspire :
    (afterConspireEvents firstConspireEvents).clearResetCounts.selectedNodes (conspireItem (.otherRound 1) ["view"] 1) =
        [[1]] ∧
      Completes Externals.transparent (announced (announcedAfter firstConspireEvents).1
        (announcedAfter firstConspireEvents).2 (conspireNodes [])) := by
  have hrun : IsRun (step Externals.transparent) (freshWith conspireConfig)
      (transitions (step Externals.transparent) (freshWith conspireConfig) firstConspireEvents)
      (afterConspireEvents firstConspireEvents) := IsRun.of_isSome (by decide +kernel)
  have hcall : CallsNextTest (afterConspireEvents firstConspireEvents) lastReset
      (afterConspireEvents firstConspireEvents).clearResetCounts :=
    callsNextTest_lastReset (by decide +kernel) (by decide +kernel) (by decide +kernel) (by decide +kernel)
  have hselected : (afterConspireEvents firstConspireEvents).clearResetCounts.selectedNodes
      (conspireItem (.otherRound 1) ["view"] 1) = [[1]] := by decide +kernel
  have hitem : (afterConspireEvents firstConspireEvents).clearResetCounts.nextMidTestItem =
      some (conspireItem (.otherRound 1) ["view"] 1) := by decide +kernel
  have hsuffice : RepliesSuffice (afterConspireEvents firstConspireEvents).clearResetCounts (conspireNodes [])
      conspireMode [[1]] := by
    rw [RepliesSuffice, if_pos (show isConspire conspireMode = true from rfl)]
    decide +kernel
  refine ⟨hselected, (completes_iff (configuration_freshWith (by decide)) hrun hcall
    (step_lastReset (by decide +kernel)) hitem rfl ?_ fun _ ↦ rfl).2 (hselected ▸ hsuffice)⟩
  rw [hselected]
  exact List.cons_ne_nil _ _

/-- The second test waits for two nodes, and one of them is in the mode already. -/
def secondConspire : Network :=
  announced (announcedAfter secondConspireEvents).1 (announcedAfter secondConspireEvents).2 (conspireNodes [[1]])

/-- Both requests are delivered. -/
def requestsDelivered : Network :=
  (secondConspire.toSpoke (handlers Externals.transparent) [1] (request conspireMode)
    {([2], request conspireMode)}).toSpoke (handlers Externals.transparent) [2] (request conspireMode) 0

/-- The controller counts the only reply. -/
def replyCounted : Controller × List Action :=
  (step Externals.transparent requestsDelivered.hub (Input.unicast [2] (reply conspireMode)).sorted).getD
    (requestsDelivered.hub, [])

theorem not_completes_secondConspire :
    (Configuration conspireConfig (freshWith conspireConfig) ∧
      IsRun (step Externals.transparent) (freshWith conspireConfig)
        (transitions (step Externals.transparent) (freshWith conspireConfig) secondConspireEvents)
        (afterConspireEvents secondConspireEvents)) ∧
      CallsNextTest (afterConspireEvents secondConspireEvents) lastReset
        (afterConspireEvents secondConspireEvents).clearResetCounts ∧
      step Externals.transparent (afterConspireEvents secondConspireEvents) lastReset =
        some ((announcedAfter secondConspireEvents).1, (announcedAfter secondConspireEvents).2) ∧
      (afterConspireEvents secondConspireEvents).clearResetCounts.nextMidTestItem =
        some (conspireItem (.otherRound 1) ["view"] 2) ∧
      (afterConspireEvents secondConspireEvents).clearResetCounts.selectedNodes
        (conspireItem (.otherRound 1) ["view"] 2) = [[1], [2]] ∧
      ¬ Completes Externals.transparent secondConspire := by
  refine ⟨⟨configuration_freshWith (by decide), IsRun.of_isSome (by decide +kernel)⟩,
    callsNextTest_lastReset (by decide +kernel) (by decide +kernel) (by decide +kernel) (by decide +kernel),
    step_lastReset (by decide +kernel), by decide +kernel, by decide +kernel, fun hcompletes ↦ ?_⟩
  have htaken : step Externals.transparent requestsDelivered.hub (Input.unicast [2] (reply conspireMode)).sorted =
      some (replyCounted.1, replyCounted.2) := by
    obtain ⟨result, hresult⟩ := Option.isSome_iff_exists.1 (show (step Externals.transparent requestsDelivered.hub
      (Input.unicast [2] (reply conspireMode)).sorted).isSome = true by decide +kernel)
    rw [replyCounted, hresult]
    rfl
  have hrequests : Star.Reachable (handlers Externals.transparent) secondConspire requestsDelivered := by
    refine .tail (.single (.spoke ?_)) (.spoke ?_)
    · decide +kernel
    · rfl
  have hreachable : Star.Reachable (handlers Externals.transparent) secondConspire
      (requestsDelivered.handled (handlers Externals.transparent) 0 replyCounted.1 replyCounted.2) :=
    .tail hrequests (.hub (show requestsDelivered.toHub = ([2], reply conspireMode) ::ₘ 0 by decide +kernel) htaken)
  have hone := ((hcompletes _ hreachable).2 (by decide +kernel) rfl).2
  exact absurd hone (by decide +kernel)

end BFTDiagnosis.Controller
