import BFTDiagnosis.Controller.NextTest
import BFTDiagnosis.Lib.Quorum

/-!
# The reset barrier

Between two tests the controller waits until the nodes of the test have been reset. It counts the answers and
does not look at who sent them, so the barrier holds as long as every node of the test answers once.
-/

namespace BFTDiagnosis.Controller

open Components Word

variable {X : Externals} {walk : Walk PeerId}

/-! ## Counted answers -/

/-- Whether a turn of the event loop calls `next_test`. -/
def callsNextTest (t : Transition Controller Event (List Action)) : Bool :=
  match t.pre.route t.event.input with
  | .analyzer (.completedTest item) => (t.pre.completeTest item).any fun c ↦ !c.needReset
  | .node _ (.resetSuccess (.crash _)) => (checkedAdd16 t.pre.crashResetSuccessCount 1).any fun count ↦
      t.pre.consensusNodes.card != count.toNat &&
        (checkedAdd16 t.pre.resetSuccessCount count).any (UInt16.ofNat t.pre.consensusNodes.card == ·)
  | .node _ (.resetSuccess mode) => isHonestOrDishonest mode &&
      (checkedAdd16 t.pre.resetSuccessCount 1).any fun count ↦
        (checkedAdd16 count t.pre.crashResetSuccessCount).any (UInt16.ofNat t.pre.consensusNodes.card == ·)
  | _ => false

theorem callsNextTest_iff {t : Transition Controller Event (List Action)} :
    callsNextTest t = true ↔ ∃ c₁, CallsNextTest t.pre t.event c₁ := by
  unfold callsNextTest
  constructor
  · intro h
    split at h
    case h_1 item hroute =>
      obtain ⟨c₁, hcompleted, hreset⟩ := (Option.any_eq_true _ _).1 h
      exact ⟨_, .completed hroute hcompleted (by simpa using hreset)⟩
    case h_2 peerId interval hroute =>
      obtain ⟨count, hcounted, hrest⟩ := (Option.any_eq_true _ _).1 h
      obtain ⟨hnotAll, hany⟩ := Bool.and_eq_true_iff.1 hrest
      obtain ⟨sum, hsummed, hcomplete⟩ := (Option.any_eq_true _ _).1 hany
      exact ⟨_, .crashReset hroute hcounted hsummed (by simpa using hnotAll) (by simpa using hcomplete)⟩
    case h_3 peerId mode _ hroute =>
      obtain ⟨hkind, hany⟩ := Bool.and_eq_true_iff.1 h
      obtain ⟨count, hcounted, hrest⟩ := (Option.any_eq_true _ _).1 hany
      obtain ⟨sum, hsummed, hcomplete⟩ := (Option.any_eq_true _ _).1 hrest
      exact ⟨_, .reset hroute hkind hcounted hsummed (by simpa using hcomplete)⟩
    case h_4 => cases h
  · rintro ⟨c₁, hcall⟩
    cases hcall with
    | completed hroute hcompleted hreset => simp [hroute, hcompleted, hreset]
    | @reset peerId mode count sum hroute hkind hcounted hsummed hcomplete =>
      cases mode <;> simp_all [isHonestOrDishonest]
    | crashReset hroute hcounted hsummed hnotAll hcomplete =>
      simp [hroute, hcounted, hsummed, hnotAll, hcomplete]

/-- The peer that has sent `ResetSuccess`. -/
def resetPeer : Input → Option PeerId
  | .unicast peerId (.resetSuccess _) => some peerId
  | _ => none

/-- The peer whose `ResetSuccess` is counted in a turn. -/
def countedPeer (t : Transition Controller Event (List Action)) : Option PeerId :=
  match t.pre.route t.event.input with
  | .node _ (.resetSuccess .uninitialized) => none
  | .node peerId (.resetSuccess _) => some peerId
  | _ => none

def countedPeers (run : Run) : List PeerId := run.filterMap countedPeer

theorem resetPeer_of_countedPeer {t : Transition Controller Event (List Action)} {peerId : PeerId}
    (h : countedPeer t = some peerId) : resetPeer t.event.input = some peerId := by
  unfold countedPeer at h
  split at h
  case h_1 => cases h
  case h_2 peerId' mode _ hroute =>
    obtain rfl := Option.some.inj h
    rw [input_of_route_node hroute]
    rfl
  case h_3 => cases h

theorem exists_resetPeer_of_mem {run : Run} {peerId : PeerId} (h : peerId ∈ countedPeers run) :
    ∃ t ∈ run, resetPeer t.event.input = some peerId := by
  obtain ⟨t, ht, hpeer⟩ := List.mem_filterMap.1 h
  exact ⟨t, ht, resetPeer_of_countedPeer hpeer⟩

/-! ## The barrier -/

/-- Whenever `next_test` is called, every node of the test has sent `ResetSuccess` since the call before. -/
def ResetBarrier (run : Run) : Prop :=
  ∀ before t after c₁, run = before ++ t :: after → CallsNextTest t.pre t.event c₁ →
    ∀ peerId ∈ c₁.consensusNodes,
      ∃ t' ∈ sinceLast callsNextTest before ++ [t], resetPeer t'.event.input = some peerId

/-- Every counted answer is the first one of a node of the test, the nodes are not replaced while answers are
awaited, and there are not more of them than a counter can hold. -/
structure ResetsOnce (before : Run) (t : Transition Controller Event (List Action)) : Prop where
  first : ∀ peerId ∈ countedPeer t,
    peerId ∈ t.pre.consensusNodes ∧ peerId ∉ countedPeers (sinceLast callsNextTest before)
  kept : t.event.input = .command .configureConsensusNode →
    countedPeers (sinceLast callsNextTest before) = []
  fits : t.pre.consensusNodes.card < 2 ^ 16

/-- The counters are the number of nodes that have answered since the last call. -/
structure CountsAnswers (run : Run) (c : Controller) : Prop where
  sum_eq : c.resetSuccessCount.toNat + c.crashResetSuccessCount.toNat =
    (countedPeers (sinceLast callsNextTest run)).length
  nodup : (countedPeers (sinceLast callsNextTest run)).Nodup
  members : ∀ peerId ∈ countedPeers (sinceLast callsNextTest run), peerId ∈ c.consensusNodes

theorem CallsNextTest.consensusNodes_eq {c c₁ : Controller} {event : Event} (h : CallsNextTest c event c₁) :
    c₁.consensusNodes = c.consensusNodes := by
  cases h with
  | completed _ completed =>
    obtain ⟨middle, fields, rfl⟩ := completeTest_frame completed
    rfl
  | reset | crashReset => rfl

/-- Configuring and choosing the next test leave the counters alone. -/
theorem NextTest.counts_eq {c c' : Controller} {actions : List Action} (h : NextTest walk c c' actions) :
    c'.resetSuccessCount = c.resetSuccessCount ∧ c'.crashResetSuccessCount = c.crashResetSuccessCount := by
  cases h with
  | configured _ next => exact ⟨next.frame.resetCount, next.frame.crashResetCount⟩
  | nobodyJoined _ _ next => exact ⟨next.frame.resetCount, next.frame.crashResetCount⟩
  | notEnoughConspire _ _ next => exact ⟨next.frame.resetCount, next.frame.crashResetCount⟩
  | joined | dishonest | nobodyDishonest | conspire | noCrash | crash | ignored => exact ⟨rfl, rfl⟩

theorem CallsNextTest.counts_eq_zero {c c₁ : Controller} {event : Event} (h : CallsNextTest c event c₁) :
    c₁.resetSuccessCount = 0 ∧ c₁.crashResetSuccessCount = 0 := by
  cases h with
  | completed | reset | crashReset => exact ⟨rfl, rfl⟩

/-- A turn that neither calls `next_test` nor counts an answer keeps the invariant when it keeps the counters
and the nodes of the test. -/
theorem CountsAnswers.of_frame {run : Run} {t : Transition Controller Event (List Action)}
    (h : CountsAnswers run t.pre) (hcall : callsNextTest t = false) (hcounted : countedPeer t = none)
    (hreset : t.post.resetSuccessCount = t.pre.resetSuccessCount)
    (hcrash : t.post.crashResetSuccessCount = t.pre.crashResetSuccessCount)
    (hnodes : countedPeers (sinceLast callsNextTest run) = [] ∨ t.pre.consensusNodes ⊆ t.post.consensusNodes) :
    CountsAnswers (run ++ [t]) t.post := by
  have hpeers : countedPeers (sinceLast callsNextTest (run ++ [t])) =
      countedPeers (sinceLast callsNextTest run) := by
    rw [sinceLast_concat, hcall, if_neg Bool.false_ne_true, countedPeers, filterMap_concat, hcounted]
    exact List.append_nil _
  refine ⟨?_, ?_, ?_⟩
  · rw [hpeers, hreset, hcrash, h.sum_eq]
  · rw [hpeers]
    exact h.nodup
  · rw [hpeers]
    rcases hnodes with hnil | hsubset
    · rw [hnil]
      exact List.forall_mem_nil _
    · exact fun peerId hpeer ↦ hsubset (h.members peerId hpeer)

theorem CountsAnswers.of_counted {run : Run} {t : Transition Controller Event (List Action)} {peerId : PeerId}
    (h : CountsAnswers run t.pre) (hcondition : ResetsOnce run t) (hcall : callsNextTest t = false)
    (hcounted : countedPeer t = some peerId)
    (hsum : t.post.resetSuccessCount.toNat + t.post.crashResetSuccessCount.toNat =
      t.pre.resetSuccessCount.toNat + t.pre.crashResetSuccessCount.toNat + 1)
    (hnodes : t.post.consensusNodes = t.pre.consensusNodes) : CountsAnswers (run ++ [t]) t.post := by
  have hpeers : countedPeers (sinceLast callsNextTest (run ++ [t])) =
      countedPeers (sinceLast callsNextTest run) ++ [peerId] := by
    rw [sinceLast_concat, hcall, if_neg Bool.false_ne_true, countedPeers, filterMap_concat, hcounted]
    rfl
  obtain ⟨hmember, hfresh⟩ := hcondition.first peerId hcounted
  refine ⟨?_, ?_, ?_⟩
  · rw [hpeers, hsum, h.sum_eq, List.length_append]
    rfl
  · rw [hpeers, ← List.concat_eq_append]
    exact List.Nodup.concat hfresh h.nodup
  · rw [hpeers, hnodes]
    exact List.forall_mem_append.2 ⟨h.members, List.forall_mem_singleton.2 hmember⟩

theorem countedPeer_of_isUnusedFeedback {t : Transition Controller Event (List Action)} {peerId : PeerId}
    {message : InteractiveMessage} (hroute : t.pre.route t.event.input = .node peerId message)
    (h : isUnusedFeedback message = true) : countedPeer t = none := by
  rw [countedPeer, hroute]
  split
  case h_1 => rfl
  case h_2 mode hne heq =>
    obtain ⟨-, rfl⟩ := Route.node.inj heq
    cases mode with
    | uninitialized => exact (hne rfl).elim
    | honest | dishonest | crash => cases h
  case h_3 => rfl

theorem countedPeer_of_expectedPeer {t : Transition Controller Event (List Action)} {peerId other : PeerId}
    {message : InteractiveMessage} (hroute : t.pre.route t.event.input = .node peerId message)
    (h : t.pre.expectedPeer message = some other) : countedPeer t = none := by
  rw [countedPeer, hroute]
  split
  case h_1 => rfl
  case h_2 mode hne heq =>
    obtain ⟨-, rfl⟩ := Route.node.inj heq
    cases h
  case h_3 => rfl

/-- A call of `next_test` starts the counting anew. -/
theorem CountsAnswers.of_call {run : Run} {t : Transition Controller Event (List Action)} {c₁ : Controller}
    (hcall : CallsNextTest t.pre t.event c₁) (hnext : NextTest walk c₁ t.post t.out) :
    CountsAnswers (run ++ [t]) t.post := by
  have hempty : countedPeers (sinceLast callsNextTest (run ++ [t])) = [] := by
    rw [sinceLast_concat, callsNextTest_iff.2 ⟨c₁, hcall⟩, if_pos rfl]
    rfl
  refine ⟨?_, ?_, ?_⟩
  · rw [hempty, hnext.counts_eq.1, hnext.counts_eq.2, hcall.counts_eq_zero.1, hcall.counts_eq_zero.2]
    rfl
  · rw [hempty]
    exact List.nodup_nil
  · rw [hempty]
    exact List.forall_mem_nil _

/-- One turn of the event loop. -/
theorem CountsAnswers.step {run : Run} {t : Transition Controller Event (List Action)}
    (h : CountsAnswers run t.pre) (hcondition : ResetsOnce run t)
    (htaken : Controller.step X t.pre t.event = some (t.post, t.out)) : CountsAnswers (run ++ [t]) t.post := by
  obtain ⟨c, event, actions, c'⟩ := t
  cases hcall : callsNextTest ⟨c, event, actions, c'⟩ with
  | true =>
    obtain ⟨c₁, hcalls⟩ := callsNextTest_iff.1 hcall
    exact .of_call hcalls (nextTest_spec ((hcalls.step_eq (X := X)).symm.trans htaken))
  | false =>
    have hnoCall {c₁ : Controller} : ¬ CallsNextTest c event c₁ := fun hcalls ↦ by
      rw [callsNextTest_iff.2 ⟨c₁, hcalls⟩] at hcall
      cases hcall
    have heffect := step_effect htaken
    dsimp only at heffect
    generalize hroute : c.route event.input = route at heffect
    cases heffect with
    | completedNext completed reset => exact absurd (.completed hroute completed reset) hnoCall
    | resetNext kind counted summed complete => exact absurd (.reset hroute kind counted summed complete) hnoCall
    | crashResetNext counted summed notAll complete =>
      exact absurd (.crashReset hroute counted summed notAll complete) hnoCall
    | @reset peerId mode count sum kind counted summed waits =>
      have hvalue : count.toNat = c.resetSuccessCount.toNat + 1 := checkedAdd16_eq_some_iff.1 counted
      apply h.of_counted hcondition hcall
      · rw [countedPeer, hroute]
        cases mode <;> first | rfl | cases kind
      · dsimp only
        omega
      · rfl
    | @crashReset peerId interval count sum counted summed notAll waits =>
      have hvalue : count.toNat = c.crashResetSuccessCount.toNat + 1 := checkedAdd16_eq_some_iff.1 counted
      apply h.of_counted hcondition hcall
      · rw [countedPeer, hroute]
      · dsimp only
        omega
      · rfl
    | @allCrashed peerId interval count counted all =>
      have hvalue : count.toNat = c.crashResetSuccessCount.toNat + 1 := checkedAdd16_eq_some_iff.1 counted
      apply h.of_counted hcondition hcall
      · rw [countedPeer, hroute]
      · dsimp only
        omega
      · rfl
    | completedReset completed =>
      obtain ⟨middle, fields, rfl⟩ := completeTest_frame completed
      exact h.of_frame hcall (by rw [countedPeer, hroute]) rfl rfl (.inr (Finset.Subset.refl _))
    | unusedFeedback kind =>
      exact h.of_frame hcall (countedPeer_of_isUnusedFeedback hroute kind) rfl rfl (.inr (Finset.Subset.refl _))
    | expected peerId_eq =>
      exact h.of_frame hcall (countedPeer_of_expectedPeer hroute peerId_eq) rfl rfl (.inr (Finset.Subset.refl _))
    | unexpected other_eq =>
      exact h.of_frame hcall (countedPeer_of_expectedPeer hroute other_eq) rfl rfl (.inr (Finset.Subset.refl _))
    | configureNodes | configureFirst =>
      exact h.of_frame hcall (by rw [countedPeer, hroute]) rfl rfl
        (.inl (hcondition.kept (input_of_route_command hroute)))
    | configureNobody item_eq nobody next =>
      exact h.of_frame hcall (by rw [countedPeer, hroute]) next.frame.resetCount next.frame.crashResetCount
        (.inl (hcondition.kept (input_of_route_command hroute)))
    | @configureAnalyzer rest item =>
      apply h.of_frame hcall (by rw [countedPeer, hroute])
      · cases item <;> rfl
      · cases item <;> rfl
      · right
        cases item <;> exact Finset.Subset.refl _
    | joined | admitted | admittedFirst | admittedOther | admittedLast =>
      exact h.of_frame hcall (by rw [countedPeer, hroute]) rfl rfl (.inr (Finset.subset_insert _ _))
    | calmCommand | startTestCommand | protocolStartCommand | configureExhausted | conspireRequest | analyzerInfo
    | unusedReport | phase | notJoined | conspired | conspiredLast | dropped | discovered =>
      exact h.of_frame hcall (by rw [countedPeer, hroute]) rfl rfl (.inr (Finset.Subset.refl _))

/-- At a call of `next_test` as many nodes have answered as take part in the test. -/
theorem CountsAnswers.exists_resetPeer {before : Run} {t : Transition Controller Event (List Action)}
    {c₁ : Controller} (h : CountsAnswers before t.pre) (hcondition : ResetsOnce before t)
    (hcall : CallsNextTest t.pre t.event c₁) {peerId : PeerId} (hpeer : peerId ∈ c₁.consensusNodes) :
    ∃ t' ∈ sinceLast callsNextTest before ++ [t], resetPeer t'.event.input = some peerId := by
  have hcard {count : UInt16} (heq : UInt16.ofNat t.pre.consensusNodes.card = count) :
      t.pre.consensusNodes.card = count.toNat := (ofNat16_eq_iff hcondition.fits).1 heq
  -- the answer that is counted in this turn is the last one
  have hlast {sender : PeerId} (hcounted : countedPeer t = some sender)
      (hlength : t.pre.consensusNodes.card = (countedPeers (sinceLast callsNextTest before)).length + 1)
      (hmember : peerId ∈ t.pre.consensusNodes) :
      ∃ t' ∈ sinceLast callsNextTest before ++ [t], resetPeer t'.event.input = some peerId := by
    obtain ⟨hsender, hfresh⟩ := hcondition.first sender hcounted
    apply exists_resetPeer_of_mem
    rw [countedPeers, filterMap_concat, hcounted, Option.toList_some]
    refine Quorum.mem_of_card_le_length ?_ ?_ ?_ hmember
    · rw [← List.concat_eq_append]
      exact List.Nodup.concat hfresh h.nodup
    · exact List.forall_mem_append.2 ⟨h.members, List.forall_mem_singleton.2 hsender⟩
    · rw [List.length_append, hlength]
      rfl
  have hsum := h.sum_eq
  cases hcall with
  | @completed item c₂ route completed reset =>
    obtain ⟨middle, fields, rfl⟩ := completeTest_frame completed
    have hcount : t.pre.consensusNodes.card = t.pre.crashResetSuccessCount.toNat :=
      hcard (by simpa [needReset, setNextMidTestItem] using reset)
    have hmem : peerId ∈ countedPeers (sinceLast callsNextTest before) :=
      Quorum.mem_of_card_le_length h.nodup h.members (by omega) hpeer
    obtain ⟨t', ht', hreset⟩ := exists_resetPeer_of_mem hmem
    exact ⟨t', List.mem_append_left _ ht', hreset⟩
  | @reset sender mode count sum route kind counted summed complete =>
    have hcount : count.toNat = t.pre.resetSuccessCount.toNat + 1 := checkedAdd16_eq_some_iff.1 counted
    have htotal : sum.toNat = count.toNat + t.pre.crashResetSuccessCount.toNat :=
      checkedAdd16_eq_some_iff.1 summed
    have hcounted : countedPeer t = some sender := by
      rw [countedPeer, route]
      cases mode <;> first | rfl | cases kind
    exact hlast hcounted (by rw [hcard complete]; omega) hpeer
  | @crashReset sender interval count sum route counted summed notAll complete =>
    have hcount : count.toNat = t.pre.crashResetSuccessCount.toNat + 1 := checkedAdd16_eq_some_iff.1 counted
    have htotal : sum.toNat = t.pre.resetSuccessCount.toNat + count.toNat := checkedAdd16_eq_some_iff.1 summed
    have hcounted : countedPeer t = some sender := by rw [countedPeer, route]
    exact hlast hcounted (by rw [hcard complete]; omega) hpeer

theorem Configuration.counts_eq_zero {config : BFTDiagnosisConfig} {c : Controller} (h : Configuration config c) :
    c.resetSuccessCount = 0 ∧ c.crashResetSuccessCount = 0 := by
  obtain ⟨id, analyzerId, crashNode, scalabilityNode, dishonestNode, testItems, rfl⟩ := h.exists_eq_new
  exact ⟨rfl, rfl⟩

/-- In every run from an accepted configuration in which the nodes of a test answer a reset once, the barrier
holds. -/
theorem resetBarrier_of_resetsOnce {config : BFTDiagnosisConfig} {c₀ c : Controller} {run : Run}
    (h : Configuration config c₀) (hrun : IsRun (step X) c₀ run c)
    (hcondition : ∀ before t after, run = before ++ t :: after → ResetsOnce before t) : ResetBarrier run := by
  intro before t after c₁ hsplit hcall peerId hpeer
  have hcounts : CountsAnswers before t.pre := by
    refine IsRun.induction_of_split (motive := CountsAnswers) ?_ ?_ (hrun.before hsplit).1
      (forall_split_of_append hcondition hsplit)
    · refine ⟨?_, List.nodup_nil, List.forall_mem_nil _⟩
      rw [h.counts_eq_zero.1, h.counts_eq_zero.2]
      rfl
    · intro run s event out s' hcounts hmet htaken
      exact hcounts.step hmet htaken
  exact hcounts.exists_resetPeer (hcondition before t after hsplit) hcall hpeer

instance ResetsOnce.decidable (before : Run) (t : Transition Controller Event (List Action)) :
    Decidable (ResetsOnce before t) :=
  decidable_of_iff ((∀ peerId ∈ countedPeer t,
      peerId ∈ t.pre.consensusNodes ∧ peerId ∉ countedPeers (sinceLast callsNextTest before)) ∧
    (t.event.input = .command .configureConsensusNode →
      countedPeers (sinceLast callsNextTest before) = []) ∧ t.pre.consensusNodes.card < 2 ^ 16)
    ⟨fun h ↦ ⟨h.1, h.2.1, h.2.2⟩, fun h ↦ ⟨h.first, h.kept, h.fits⟩⟩

def throughputConfig : BFTDiagnosisConfig where
  throughput := some ⟨some true⟩
  latency := none
  scalability := none
  crash := none
  malicious := none

/-- A throughput test with two nodes that is completed, and the answers to the reset. -/
def resetEvents (answers : List PeerId) : List Event :=
  [(Input.discovered [[1], [2]]).sorted, (Input.command .configureAnalyzer).sorted,
    (Input.command .configureConsensusNode).sorted,
    (Input.unicast [1] (.consensusNodeModeSuccess (.honest .first))).sorted,
    (Input.unicast [2] (.consensusNodeModeSuccess (.honest .first))).sorted,
    (Input.gossip (.completedTest .throughput)).sorted] ++
  answers.map fun peerId ↦ (Input.unicast peerId (.resetSuccess (.honest .first))).sorted

def resetRun (answers : List PeerId) : Run :=
  transitions (step Externals.transparent) (freshWith throughputConfig) (resetEvents answers)

/-- Both nodes answer. -/
theorem resetBarrier_of_resetsOnce_both : (resetRun [[1], [2]]).map callsNextTest =
      [false, false, false, false, false, false, false, true] ∧ ResetBarrier (resetRun [[1], [2]]) := by
  have hrun : IsRun (step Externals.transparent) (freshWith throughputConfig) (resetRun [[1], [2]])
      (final (step Externals.transparent) (freshWith throughputConfig) (resetEvents [[1], [2]])) :=
    IsRun.of_isSome (by decide)
  have hcondition : ∀ before t after, resetRun [[1], [2]] = before ++ t :: after → ResetsOnce before t :=
    forall_split_of_forall (by decide)
  exact ⟨by decide, resetBarrier_of_resetsOnce (configuration_freshWith (by decide)) hrun hcondition⟩

/-- The first node answers twice, and the second one is not waited for. -/
theorem not_resetBarrier_of_duplicate :
    Configuration throughputConfig (freshWith throughputConfig) ∧
      IsRun (step Externals.transparent) (freshWith throughputConfig) (resetRun [[1], [1]])
        (final (step Externals.transparent) (freshWith throughputConfig) (resetEvents [[1], [1]])) ∧
      ¬ ResetBarrier (resetRun [[1], [1]]) := by
  refine ⟨configuration_freshWith (by decide), IsRun.of_isSome (by decide), fun hbarrier ↦ ?_⟩
  have hsplit : resetRun [[1], [1]] = (resetRun [[1], [1]]).take 7 ++
      (resetRun [[1], [1]]).get ⟨7, by decide⟩ :: (resetRun [[1], [1]]).drop 8 :=
    eq_take_append_cons_drop _ 7 (by decide)
  have hcalls : callsNextTest ((resetRun [[1], [1]]).get ⟨7, by decide⟩) = true := by decide
  have hmember : [2] ∈ ((resetRun [[1], [1]]).get ⟨7, by decide⟩).pre.consensusNodes := by decide
  have hsilent : ∀ t ∈ sinceLast callsNextTest ((resetRun [[1], [1]]).take 7) ++
      [(resetRun [[1], [1]]).get ⟨7, by decide⟩], resetPeer t.event.input ≠ some [2] := by decide
  obtain ⟨c₁, hcall⟩ := callsNextTest_iff.1 hcalls
  rw [← hcall.consensusNodes_eq] at hmember
  obtain ⟨t, ht, hreset⟩ := hbarrier _ _ _ c₁ hsplit hcall [2] hmember
  exact hsilent t ht hreset

end BFTDiagnosis.Controller
