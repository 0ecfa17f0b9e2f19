import BFTDiagnosis.Controller.Turns
import BFTDiagnosis.Lib.Quorum

/-!
# The barrier before a configured test

After the nodes have been configured for an item of the plan, the test is started by the answer of the last of
them. The answers are only counted, and a flag of the first scalability test opens the barrier as well, so the
barrier holds as long as the counter and the flag are clear when the nodes are configured and every node
answers once.
-/

namespace BFTDiagnosis.Controller

open Components Word

variable {X : Externals} {walk : Walk PeerId}

/-! ## The configuration that is under way -/

/-- A turn that calls `configure_consensus_node(Other)` for an item of the plan other than scalability. The
command that announces an item does not configure the nodes. -/
def configuresNodes (t : Transition Controller Event (List Action)) : Bool :=
  takesItem t && t.event.input != .command .configureAnalyzer && t.post.nextTestItem.any (!isScalability ·)

/-- The peer that answers `ConfigureConsensusNode(Other)`. -/
def answeringPeer : Route → Option PeerId
  | .node peerId (.consensusNodeModeSuccess (.honest .other)) => some peerId
  | _ => none

/-- The peer that announces itself as the analyzer. -/
def announcedAnalyzer : Route → Option PeerId
  | .analyzer (.componentInfo (.analyzer peerId)) => some peerId
  | _ => none

def isProtocolStart : Action → Bool
  | .sendMessage _ .protocolStart => true
  | _ => false

/-- Who has answered a configuration and how often the test was started since. -/
structure Configuring where
  answers : List PeerId
  startTests : ℕ
  protocolStarts : ℕ
deriving DecidableEq

/-- The configuration after one more turn, which may bring an answer to it. -/
def Configuring.next (answersIt : Bool) (t : Transition Controller Event (List Action)) (configuring : Configuring) :
    Configuring where
  answers := configuring.answers ++ if answersIt then (answeringPeer (t.pre.route t.event.input)).toList else []
  startTests := configuring.startTests + t.out.countP isStartTest
  protocolStarts := configuring.protocolStarts + if t.out.any isProtocolStart then 1 else 0

/-- The configuration that is under way: it ends with the next test. Which of the turns brings an answer to the
configuration that is under way, and not to an earlier one, the controller cannot see. -/
def configuring (answersIt : ℕ → Bool) (run : Run) : Option Configuring :=
  run.zipIdx.foldl (fun configuring (t, n) ↦
    if configuresNodes t then some ⟨[], 0, 0⟩
    else if callsNextTest t then none
    else configuring.map (Configuring.next (answersIt n) t)) none

theorem configuring_concat (answersIt : ℕ → Bool) (run : Run) (t : Transition Controller Event (List Action)) :
    configuring answersIt (run ++ [t]) =
      if configuresNodes t then some ⟨[], 0, 0⟩
      else if callsNextTest t then none
      else (configuring answersIt run).map (Configuring.next (answersIt run.length) t) := by
  rw [configuring, List.zipIdx_append, List.foldl_append, Nat.zero_add]
  rfl

/-- `protocol_start` and `start_test` are called when all waiting nodes have answered the configuration that is
under way, and exactly once for it. -/
def ConfigurationBarrier (answersIt : ℕ → Bool) (run : Run) : Prop :=
  ∀ before t after configuration, run = before ++ t :: after →
    configuring answersIt (before ++ [t]) = some configuration →
    (t.out.any (·.starts) = true → ∀ peerId ∈ t.post.waitingConsensusNodes, peerId ∈ configuration.answers) ∧
    configuration.startTests ≤ 1 ∧ configuration.protocolStarts ≤ 1 ∧
    ((∀ peerId ∈ t.post.waitingConsensusNodes, peerId ∈ configuration.answers) →
      configuration.startTests = 1 ∧ configuration.protocolStarts = 1)

/-- The counter and the flag are clear when nodes are configured. Then every counted answer is an answer to this
configuration and the first one of a waiting node, nothing else starts a test, and the operator and the
analyzer leave the configuration alone. -/
structure AnswersOnce (answersIt : ℕ → Bool) (before : Run) (t : Transition Controller Event (List Action)) : Prop where
  clear : configuresNodes t = true → t.event.input ≠ .command .configureConsensusNode ∧
    t.pre.consensusNodeConfigureCount = 0 ∧ t.pre.feedbackScalabilityFirstCount ≠ 1 ∧
    t.pre.waitingConsensusNodes ≠ ∅
  first : ∀ configuration ∈ configuring answersIt before, ∀ peerId ∈ answeringPeer (t.pre.route t.event.input),
    answersIt before.length = true ∧ peerId ∈ t.pre.waitingConsensusNodes ∧ peerId ∉ configuration.answers ∧
      t.pre.waitingConsensusNodes.card < 2 ^ 16
  started : configuring answersIt before ≠ none →
    t.pre.startsTest (t.pre.route t.event.input) = true ∨ t.event.input = .command .protocolStart →
      (answeringPeer (t.pre.route t.event.input)).isSome = true
  kept : configuring answersIt before ≠ none → isConfiguring t.event.input = false ∧
    ∀ peerId ∈ announcedAnalyzer (t.pre.route t.event.input), peerId ∉ t.pre.waitingConsensusNodes

/-! ## What a turn does to the barrier -/

/-- Configuring waiting nodes for another item than scalability does not set the flag. -/
theorem Configured.firstCount_eq {c c' : Controller} {actions : List Action} {item : TestItem}
    (h : Configured walk c c' actions) (hwaiting : c.waitingConsensusNodes ≠ ∅) (hitem : c'.nextTestItem = some item)
    (hkind : isScalability item = false) : c'.feedbackScalabilityFirstCount = c.feedbackScalabilityFirstCount := by
  cases h with
  | exhausted => cases hitem
  | @plain _ rest item' => cases item' <;> rfl
  | scalability =>
    rw [← Option.some.inj hitem] at hkind
    cases hkind
  | skipped _ nobody => exact absurd nobody hwaiting

/-- A turn that configures the nodes in the course of `next_test`. -/
theorem barrier_of_configuresNodes {t : Transition Controller Event (List Action)}
    (htaken : step X t.pre t.event = some (t.post, t.out)) (hconfigures : configuresNodes t = true)
    (hcommand : t.event.input ≠ .command .configureConsensusNode) (hwaiting : t.pre.waitingConsensusNodes ≠ ∅) :
    t.post.consensusNodeConfigureCount = t.pre.consensusNodeConfigureCount ∧
      t.post.feedbackScalabilityFirstCount = t.pre.feedbackScalabilityFirstCount ∧
      t.post.waitingConsensusNodes = t.pre.waitingConsensusNodes := by
  have hturn := step_turn htaken
  obtain ⟨c, event, actions, c'⟩ := t
  dsimp only at hturn hcommand hwaiting ⊢
  simp only [configuresNodes, Bool.and_eq_true, bne_iff_ne, Option.any_eq_true, Bool.not_eq_true'] at hconfigures
  obtain ⟨⟨htakes, hannounce⟩, item, hitem, hkind⟩ := hconfigures
  have hlength : c.testItems.length ≠ c'.testItems.length := bne_iff_ne.1 htakes
  cases hturn with
  | unprepared _ unprepared => exact absurd (congrArg List.length unprepared.testItems.symm) hlength
  | planExhausted command | itemAnnounced command => exact absurd command hannounce
  | nodesConfigured command | firstConfigured command | nobodyConfigured command => exact absurd command hcommand
  | called call next =>
    obtain ⟨middle, fields, crashNodes, rfl⟩ := call.exists_eq
    cases next with
    | configured _ next | nobodyJoined _ _ next | notEnoughConspire _ _ next =>
      exact ⟨next.frame.configureCount, next.firstCount_eq hwaiting hitem hkind, next.frame.waiting⟩
    | joined | dishonest | nobodyDishonest | conspire | noCrash | crash | ignored => exact absurd rfl hlength

theorem starts_of_configuresNodes {t : Transition Controller Event (List Action)}
    (htaken : step X t.pre t.event = some (t.post, t.out)) (h : configuresNodes t = true) :
    ∀ action ∈ t.out, action.starts = false := by
  simp only [configuresNodes, Bool.and_eq_true] at h
  have hlength : t.pre.testItems.length ≠ t.post.testItems.length := bne_iff_ne.1 h.1.1
  have hstarts := step_starts htaken
  have hunprepared := unprepared_of_startsTest htaken
  obtain ⟨c, event, actions, c'⟩ := t
  dsimp only at hlength hstarts hunprepared ⊢
  cases hstarts with
  | feedback starts => exact absurd (congrArg List.length (hunprepared starts).testItems.symm) hlength
  | startTestCommand | protocolStartCommand => exact absurd rfl hlength
  | nothing _ sent => exact sent

theorem answeringPeer_eq_some_iff {route : Route} {peerId : PeerId} :
    answeringPeer route = some peerId ↔ route = .node peerId (.consensusNodeModeSuccess (.honest .other)) := by
  constructor
  · intro h
    unfold answeringPeer at h
    split at h
    · rw [Option.some.inj h]
    · cases h
  · rintro rfl
    rfl

/-- A turn that brings no answer leaves the counter and the flag alone. -/
theorem barrier_of_silent {c c' : Controller} {event : Event} {actions : List Action}
    (h : step X c event = some (c', actions)) (hcommand : isConfiguring event.input = false)
    (hcall : ∀ c₁, ¬ CallsNextTest c event c₁) (hanswer : answeringPeer (c.route event.input) = none)
    (hanalyzer : ∀ peerId ∈ announcedAnalyzer (c.route event.input), peerId ∉ c.waitingConsensusNodes) :
    c'.consensusNodeConfigureCount = c.consensusNodeConfigureCount ∧
      c'.feedbackScalabilityFirstCount = c.feedbackScalabilityFirstCount ∧
      c.waitingConsensusNodes ⊆ c'.waitingConsensusNodes := by
  have heffect := step_effect h
  generalize hroute : c.route event.input = route at heffect
  cases heffect with
  | completedNext completed reset => exact absurd (.completed hroute completed reset) (hcall _)
  | resetNext kind counted summed complete => exact absurd (.reset hroute kind counted summed complete) (hcall _)
  | crashResetNext counted summed notAll complete =>
    exact absurd (.crashReset hroute counted summed notAll complete) (hcall _)
  | configureExhausted | configureAnalyzer | configureNodes | configureFirst | configureNobody =>
    rw [input_of_route_command hroute] at hcommand
    cases hcommand
  | admittedOther | admittedLast =>
    rw [hroute] at hanswer
    cases hanswer
  | @analyzerInfo id =>
    have habsent := hanalyzer id (by rw [hroute]; rfl)
    exact ⟨rfl, rfl, fun peerId hmem ↦ Finset.mem_erase.2 ⟨fun heq ↦ habsent (heq ▸ hmem), hmem⟩⟩
  | completedReset completed =>
    obtain ⟨middle, fields, rfl⟩ := completeTest_frame completed
    exact ⟨rfl, rfl, Finset.Subset.refl _⟩
  | discovered => exact ⟨rfl, rfl, Finset.subset_union_left⟩
  | _ => exact ⟨rfl, rfl, Finset.Subset.refl _⟩

/-! ## The invariant -/

/-- Until the test is started the counter is the number of answers and some node has not answered. After that
it is smaller than their number, so that it does not open the barrier again. -/
structure CountsConfigured (configuration : Configuring) (c : Controller) : Prop where
  flag : c.feedbackScalabilityFirstCount ≠ 1
  nodup : configuration.answers.Nodup
  members : ∀ peerId ∈ configuration.answers, peerId ∈ c.waitingConsensusNodes
  counts : (configuration.startTests = 0 ∧ configuration.protocolStarts = 0 ∧
      c.consensusNodeConfigureCount.toNat = configuration.answers.length ∧
      configuration.answers.length < c.waitingConsensusNodes.card) ∨
    (configuration.startTests = 1 ∧ configuration.protocolStarts = 1 ∧
      c.consensusNodeConfigureCount.toNat < configuration.answers.length)

theorem CountsConfigured.of_clear {c : Controller} (hcount : c.consensusNodeConfigureCount = 0)
    (hflag : c.feedbackScalabilityFirstCount ≠ 1) (hwaiting : c.waitingConsensusNodes ≠ ∅) :
    CountsConfigured ⟨[], 0, 0⟩ c where
  flag := hflag
  nodup := List.nodup_nil
  members := List.forall_mem_nil _
  counts := .inl ⟨rfl, rfl, by rw [hcount]; rfl, Finset.card_pos.2 (Finset.nonempty_iff_ne_empty.2 hwaiting)⟩

/-- All waiting nodes have answered only after the test was started. -/
theorem CountsConfigured.started_of_forall {configuration : Configuring} {c : Controller}
    (h : CountsConfigured configuration c)
    (hall : ∀ peerId ∈ c.waitingConsensusNodes, peerId ∈ configuration.answers) :
    configuration.startTests = 1 ∧ configuration.protocolStarts = 1 := by
  rcases h.counts with ⟨-, -, -, hlt⟩ | ⟨hstart, hprotocol, -⟩
  · have hcard : c.waitingConsensusNodes.card ≤ configuration.answers.length := by
      refine le_trans (Finset.card_le_card fun peerId hmem ↦ ?_) (List.toFinset_card_le configuration.answers)
      exact List.mem_toFinset.2 (hall peerId hmem)
    omega
  · exact ⟨hstart, hprotocol⟩

theorem any_isProtocolStart_eq_false {actions : List Action} (h : ∀ action ∈ actions, action.starts = false) :
    actions.any isProtocolStart = false := by
  refine List.any_eq_false.2 fun action haction hstart ↦ ?_
  have hstarts := h action haction
  unfold isProtocolStart at hstart
  split at hstart
  · cases hstarts
  · cases hstart

/-- A turn without an answer starts nothing. -/
theorem starts_of_silent {t : Transition Controller Event (List Action)}
    (htaken : step X t.pre t.event = some (t.post, t.out))
    (hstarted : t.pre.startsTest (t.pre.route t.event.input) = true ∨ t.event.input = .command .protocolStart →
      (answeringPeer (t.pre.route t.event.input)).isSome = true)
    (hanswer : answeringPeer (t.pre.route t.event.input) = none) : ∀ action ∈ t.out, action.starts = false := by
  rw [hanswer] at hstarted
  have hnone (hstart : t.pre.startsTest (t.pre.route t.event.input) = true ∨
      t.event.input = .command .protocolStart) : False := Bool.false_ne_true (hstarted hstart)
  have hstarts := step_starts htaken
  obtain ⟨c, event, actions, c'⟩ := t
  dsimp only at hstarts hnone
  cases hstarts with
  | feedback starts => exact (hnone (.inl starts)).elim
  | startTestCommand command => exact (hnone (.inl (by rw [command]; rfl))).elim
  | protocolStartCommand command => exact (hnone (.inr command)).elim
  | nothing _ sent => exact sent

theorem CountsConfigured.of_silent {configuration : Configuring} {t : Transition Controller Event (List Action)}
    (h : CountsConfigured configuration t.pre) (answersIt : Bool)
    (hanswer : answeringPeer (t.pre.route t.event.input) = none) (hsent : ∀ action ∈ t.out, action.starts = false)
    (hcount : t.post.consensusNodeConfigureCount = t.pre.consensusNodeConfigureCount)
    (hflag : t.post.feedbackScalabilityFirstCount = t.pre.feedbackScalabilityFirstCount)
    (hwaiting : t.pre.waitingConsensusNodes ⊆ t.post.waitingConsensusNodes) :
    CountsConfigured (configuration.next answersIt t) t.post := by
  have hsame : configuration.next answersIt t = configuration := by
    rw [Configuring.next, hanswer, countP_isStartTest_eq_zero hsent, any_isProtocolStart_eq_false hsent]
    cases answersIt <;> simp
  rw [hsame]
  refine ⟨hflag ▸ h.flag, h.nodup, fun peerId hmem ↦ hwaiting (h.members peerId hmem), ?_⟩
  rw [hcount]
  refine h.counts.imp_left fun hcounts ↦ ⟨hcounts.1, hcounts.2.1, hcounts.2.2.1, ?_⟩
  exact lt_of_lt_of_le hcounts.2.2.2 (Finset.card_le_card hwaiting)

theorem any_isProtocolStart_start (c : Controller) (walk : Walk PeerId) {peerId : PeerId}
    (h : peerId ∈ c.consensusNodes) : (c.start walk).any isProtocolStart = true := by
  refine List.any_eq_true.2 ⟨.sendMessage peerId .protocolStart, List.mem_append_left _ ?_, rfl⟩
  exact List.mem_map.2 ⟨peerId, walk.mem_order.2 h, rfl⟩

/-- One more answer that does not open the barrier. -/
theorem CountsConfigured.of_shut {configuration next : Configuring} {c c' : Controller}
    (h : CountsConfigured configuration c) (hnodup : next.answers.Nodup)
    (hmembers : ∀ peerId ∈ next.answers, peerId ∈ c'.waitingConsensusNodes)
    (hlength : next.answers.length = configuration.answers.length + 1)
    (hstart : next.startTests = configuration.startTests)
    (hprotocol : next.protocolStarts = configuration.protocolStarts)
    (hflag : c'.feedbackScalabilityFirstCount = c.feedbackScalabilityFirstCount)
    (hcount : c'.consensusNodeConfigureCount.toNat = c.consensusNodeConfigureCount.toNat + 1)
    (hle : next.answers.length ≤ c'.waitingConsensusNodes.card)
    (hshut : c'.waitingConsensusNodes.card ≠ c'.consensusNodeConfigureCount.toNat) : CountsConfigured next c' := by
  refine ⟨hflag ▸ h.flag, hnodup, hmembers, ?_⟩
  rw [hstart, hprotocol]
  rcases h.counts with ⟨hzero, hzero', hcounts, -⟩ | ⟨hone, hone', hcounts⟩
  · exact .inl ⟨hzero, hzero', by omega, by omega⟩
  · exact .inr ⟨hone, hone', by omega⟩

/-- When one more answer makes the counter the number of waiting nodes, the test has not been started yet and
this answer is the last one. -/
theorem CountsConfigured.of_opened {configuration : Configuring} {c : Controller}
    (h : CountsConfigured configuration c)
    (hle : configuration.answers.length + 1 ≤ c.waitingConsensusNodes.card)
    (hopen : c.waitingConsensusNodes.card = c.consensusNodeConfigureCount.toNat + 1) :
    configuration.startTests = 0 ∧ configuration.protocolStarts = 0 ∧
      c.waitingConsensusNodes.card = configuration.answers.length + 1 := by
  rcases h.counts with ⟨hstart, hprotocol, hcounts, -⟩ | ⟨-, -, hcounts⟩
  · exact ⟨hstart, hprotocol, by rw [hopen, hcounts]⟩
  · omega

/-- The answer of a waiting node that has not answered before. -/
theorem CountsConfigured.of_answer {configuration : Configuring} {t : Transition Controller Event (List Action)}
    {peerId : PeerId} (h : CountsConfigured configuration t.pre)
    (htaken : step X t.pre t.event = some (t.post, t.out))
    (hroute : t.pre.route t.event.input = .node peerId (.consensusNodeModeSuccess (.honest .other)))
    (hmember : peerId ∈ t.pre.waitingConsensusNodes) (hfresh : peerId ∉ configuration.answers)
    (hfits : t.pre.waitingConsensusNodes.card < 2 ^ 16) :
    CountsConfigured (configuration.next true t) t.post ∧ (t.out.any (·.starts) = true →
      ∀ peerId ∈ t.post.waitingConsensusNodes, peerId ∈ (configuration.next true t).answers) := by
  have hnodup : (configuration.answers ++ [peerId]).Nodup := by
    rw [← List.concat_eq_append]
    exact List.Nodup.concat hfresh h.nodup
  have hmembers : ∀ a ∈ configuration.answers ++ [peerId], a ∈ t.pre.waitingConsensusNodes :=
    List.forall_mem_append.2 ⟨h.members, List.forall_mem_singleton.2 hmember⟩
  have hle : configuration.answers.length + 1 ≤ t.pre.waitingConsensusNodes.card := by
    have hcard := Finset.card_le_card fun a ha ↦ hmembers a (List.mem_toFinset.1 ha)
    rw [List.toFinset_card_of_nodup hnodup, List.length_append] at hcard
    exact hcard
  have heffect := step_effect htaken
  rw [hroute] at heffect
  obtain ⟨c, event, actions, c'⟩ := t
  have hanswers : (configuration.next true ⟨c, event, actions, c'⟩).answers = configuration.answers ++ [peerId] := by
    rw [Configuring.next, hroute]
    rfl
  have hlength : (configuration.answers ++ [peerId]).length = configuration.answers.length + 1 := List.length_append
  dsimp only at heffect hmembers hle hfits
  cases heffect with
  | @admittedOther _ count counted waits =>
    have hcount : count.toNat = c.consensusNodeConfigureCount.toNat + 1 := checkedAdd16_eq_some_iff.1 counted
    have hshut : c.waitingConsensusNodes.card ≠ count.toNat := fun heq ↦
      waits (.inl ((ofNat16_eq_iff hfits).2 heq))
    refine ⟨h.of_shut (hanswers ▸ hnodup) (hanswers ▸ hmembers) (hanswers ▸ hlength) rfl rfl rfl hcount ?_ hshut,
      fun hfalse ↦ by cases hfalse⟩
    rw [hanswers, hlength]
    exact hle
  | @admittedLast _ count counted complete =>
    have hcount : count.toNat = c.consensusNodeConfigureCount.toNat + 1 := checkedAdd16_eq_some_iff.1 counted
    have hopen : c.waitingConsensusNodes.card = count.toNat :=
      (ofNat16_eq_iff hfits).1 (complete.resolve_right fun hset ↦ h.flag hset.symm)
    obtain ⟨hstart, hprotocol, hall⟩ := h.of_opened hle (hopen.trans hcount)
    have hprotocols : ((c.admitConsensusNode peerId).start event.walk).any isProtocolStart = true :=
      any_isProtocolStart_start _ event.walk (Finset.mem_insert_self peerId c.consensusNodes)
    refine ⟨⟨fun hone ↦ (by cases hone), hanswers ▸ hnodup, hanswers ▸ hmembers, .inr ⟨?_, ?_, ?_⟩⟩, ?_⟩
    · rw [Configuring.next, countP_isStartTest_start, hstart]
    · rw [Configuring.next, hprotocols, hprotocol]
      rfl
    · rw [hanswers, hlength]
      exact Nat.succ_pos _
    · intro _ other hother
      rw [hanswers]
      exact Quorum.mem_of_card_le_length hnodup hmembers (hall.trans hlength.symm).le hother
  | expected peerId_eq => cases peerId_eq
  | unexpected other_eq => cases other_eq
  | unusedFeedback kind => cases kind

theorem CountsConfigured.step {answersIt : ℕ → Bool} {run : Run} {t : Transition Controller Event (List Action)}
    (h : ∀ configuration ∈ configuring answersIt run, CountsConfigured configuration t.pre)
    (hmet : AnswersOnce answersIt run t) (htaken : Controller.step X t.pre t.event = some (t.post, t.out)) :
    ∀ configuration ∈ configuring answersIt (run ++ [t]), CountsConfigured configuration t.post ∧
      (t.out.any (·.starts) = true →
        ∀ peerId ∈ t.post.waitingConsensusNodes, peerId ∈ configuration.answers) := by
  intro configuration hconfiguration
  rw [configuring_concat] at hconfiguration
  have hquiet (hsent : ∀ action ∈ t.out, action.starts = false) (hstart : t.out.any (·.starts) = true) : False := by
    obtain ⟨action, haction, hkind⟩ := List.any_eq_true.1 hstart
    exact Bool.false_ne_true ((hsent action haction).symm.trans hkind)
  cases hconfigures : configuresNodes t with
  | true =>
    rw [hconfigures, if_pos rfl, Option.mem_some_iff] at hconfiguration
    subst hconfiguration
    obtain ⟨hcommand, hcount, hflag, hwaiting⟩ := hmet.clear hconfigures
    obtain ⟨hcount', hflag', hwaiting'⟩ := barrier_of_configuresNodes htaken hconfigures hcommand hwaiting
    refine ⟨.of_clear (hcount'.trans hcount) (hflag' ▸ hflag) (hwaiting' ▸ hwaiting), fun hstart ↦ ?_⟩
    exact (hquiet (starts_of_configuresNodes htaken hconfigures) hstart).elim
  | false =>
    rw [hconfigures, if_neg Bool.false_ne_true] at hconfiguration
    cases hcall : callsNextTest t with
    | true =>
      rw [hcall, if_pos rfl] at hconfiguration
      cases hconfiguration
    | false =>
      rw [hcall, if_neg Bool.false_ne_true, Option.mem_def, Option.map_eq_some_iff] at hconfiguration
      obtain ⟨previous, hprevious, rfl⟩ := hconfiguration
      have hnone : configuring answersIt run ≠ none := by
        rw [hprevious]
        exact Option.some_ne_none _
      have hcounts := h previous hprevious
      cases hanswer : answeringPeer (t.pre.route t.event.input) with
      | none =>
        obtain ⟨hcommand, hanalyzer⟩ := hmet.kept hnone
        have hsent := starts_of_silent htaken (hmet.started hnone) hanswer
        have hnoCall (c₁ : Controller) : ¬ CallsNextTest t.pre t.event c₁ := fun hcalls ↦
          Bool.false_ne_true (hcall.symm.trans (callsNextTest_iff.2 ⟨c₁, hcalls⟩))
        obtain ⟨hcount, hflag, hwaiting⟩ := barrier_of_silent htaken hcommand hnoCall hanswer hanalyzer
        exact ⟨hcounts.of_silent _ hanswer hsent hcount hflag hwaiting, fun hstart ↦ (hquiet hsent hstart).elim⟩
      | some peerId =>
        obtain ⟨hanswersIt, hmember, hfresh, hfits⟩ := hmet.first previous hprevious peerId hanswer
        rw [hanswersIt]
        exact hcounts.of_answer htaken (answeringPeer_eq_some_iff.1 hanswer) hmember hfresh hfits

/-- In every run in which the counter and the flag are clear when nodes are configured and every waiting node
answers this once, the barrier holds. -/
theorem configurationBarrier_of_answersOnce {answersIt : ℕ → Bool} {c₀ c : Controller} {run : Run}
    (hrun : IsRun (step X) c₀ run c)
    (hcondition : ∀ before t after, run = before ++ t :: after → AnswersOnce answersIt before t) :
    ConfigurationBarrier answersIt run := by
  intro before t after configuration hsplit hconfiguration
  obtain ⟨hbefore, htaken⟩ := hrun.before hsplit
  have hcounts : ∀ configuration ∈ configuring answersIt before, CountsConfigured configuration t.pre := by
    refine IsRun.induction_of_split (motive := fun run c ↦
      ∀ configuration ∈ configuring answersIt run, CountsConfigured configuration c) ?_ ?_ hbefore
      (forall_split_of_append hcondition hsplit)
    · intro configuration hnone
      cases hnone
    · intro run s event out s' hcounts hmet htaken configuration hconfiguration
      exact (CountsConfigured.step hcounts hmet htaken configuration hconfiguration).1
  obtain ⟨hcounted, hstarts⟩ :=
    CountsConfigured.step hcounts (hcondition before t after hsplit) htaken configuration hconfiguration
  refine ⟨hstarts, ?_, ?_, hcounted.started_of_forall⟩
  · rcases hcounted.counts with ⟨hstart, -⟩ | ⟨hstart, -⟩ <;> omega
  · rcases hcounted.counts with ⟨-, hprotocol, -⟩ | ⟨-, hprotocol, -⟩ <;> omega

instance AnswersOnce.decidable (answersIt : ℕ → Bool) (before : Run) (t : Transition Controller Event (List Action)) :
    Decidable (AnswersOnce answersIt before t) :=
  decidable_of_iff ((configuresNodes t = true → t.event.input ≠ .command .configureConsensusNode ∧
      t.pre.consensusNodeConfigureCount = 0 ∧ t.pre.feedbackScalabilityFirstCount ≠ 1 ∧
      t.pre.waitingConsensusNodes ≠ ∅) ∧
    (∀ configuration ∈ configuring answersIt before, ∀ peerId ∈ answeringPeer (t.pre.route t.event.input),
      answersIt before.length = true ∧ peerId ∈ t.pre.waitingConsensusNodes ∧ peerId ∉ configuration.answers ∧
        t.pre.waitingConsensusNodes.card < 2 ^ 16) ∧
    (configuring answersIt before ≠ none →
      t.pre.startsTest (t.pre.route t.event.input) = true ∨ t.event.input = .command .protocolStart →
        (answeringPeer (t.pre.route t.event.input)).isSome = true) ∧
    (configuring answersIt before ≠ none → isConfiguring t.event.input = false ∧
      ∀ peerId ∈ announcedAnalyzer (t.pre.route t.event.input), peerId ∉ t.pre.waitingConsensusNodes))
    ⟨fun h ↦ ⟨h.1, h.2.1, h.2.2.1, h.2.2.2⟩, fun h ↦ ⟨h.clear, h.first, h.started, h.kept⟩⟩

/-- A crash test after another test. -/
def secondCrashConfig (scalability : Bool) : BFTDiagnosisConfig where
  throughput := some ⟨some !scalability⟩
  latency := none
  scalability := some ⟨some scalability, some 1, some 1⟩
  crash := some ⟨some true, some 1⟩
  malicious := none

/-- Nodes answer the configuration of the first test, and after the test that of the crash test. -/
def secondCrashEvents (item : TestItem) (nodes answers : List PeerId) : List Event :=
  [(Input.discovered [[1], [2]]).sorted, (Input.command .configureAnalyzer).sorted,
    (Input.command .configureConsensusNode).sorted] ++
  nodes.map (fun peerId ↦ (Input.unicast peerId (.consensusNodeModeSuccess (.honest .first))).sorted) ++
  [(Input.gossip (.completedTest item)).sorted] ++
  nodes.map (fun peerId ↦ (Input.unicast peerId (.resetSuccess (.honest .first))).sorted) ++
  answers.map fun peerId ↦ (Input.unicast peerId (.consensusNodeModeSuccess (.honest .other))).sorted

/-- After a throughput test with both nodes, both answer. -/
def afterThroughputEvents : List Event := secondCrashEvents .throughput [[1], [2]] [[1], [2]]

def afterThroughputRun : Run :=
  transitions (step Externals.transparent) (freshWith (secondCrashConfig false)) afterThroughputEvents

theorem configurationBarrier_of_answersOnce_afterThroughput :
    configuring (fun _ ↦ true) afterThroughputRun = some ⟨[[1], [2]], 1, 1⟩ ∧
      ConfigurationBarrier (fun _ ↦ true) afterThroughputRun := by
  have hrun : IsRun (step Externals.transparent) (freshWith (secondCrashConfig false)) afterThroughputRun
      (final (step Externals.transparent) (freshWith (secondCrashConfig false)) afterThroughputEvents) :=
    IsRun.of_isSome (by decide +kernel)
  have hcondition : ∀ before t after, afterThroughputRun = before ++ t :: after →
      AnswersOnce (fun _ ↦ true) before t := forall_split_of_forall (by decide +kernel)
  exact ⟨by decide +kernel, configurationBarrier_of_answersOnce hrun hcondition⟩

/-- After a scalability test with one node, the flag of that test is still set and one of two nodes answers. -/
def afterScalabilityEvents : List Event := secondCrashEvents (.scalability 1 1 1) [[2]] [[1]]

def afterScalabilityRun : Run :=
  transitions (step Externals.transparent) (freshWith (secondCrashConfig true)) afterScalabilityEvents

theorem not_configurationBarrier_afterScalability :
    Configuration (secondCrashConfig true) (freshWith (secondCrashConfig true)) ∧
      IsRun (step Externals.transparent) (freshWith (secondCrashConfig true)) afterScalabilityRun
        (final (step Externals.transparent) (freshWith (secondCrashConfig true)) afterScalabilityEvents) ∧
      configuring (fun _ ↦ true) afterScalabilityRun = some ⟨[[1]], 1, 1⟩ ∧
      (final (step Externals.transparent) (freshWith (secondCrashConfig true))
        afterScalabilityEvents).waitingConsensusNodes = {[1], [2]} ∧
      ¬ ConfigurationBarrier (fun _ ↦ true) afterScalabilityRun := by
  refine ⟨configuration_freshWith (by decide), IsRun.of_isSome (by decide +kernel), by decide +kernel,
    by decide +kernel, ?_⟩
  intro hbarrier
  have hanswered := (hbarrier _ _ _ ⟨[[1]], 1, 1⟩ (eq_take_append_cons_drop afterScalabilityRun 6 (by decide +kernel))
    (by decide +kernel)).1 (by decide +kernel) [2] (by decide +kernel)
  exact absurd hanswered (by decide)

end BFTDiagnosis.Controller
