import BFTDiagnosis.Controller.Turns

/-!
# Crash rounds

In every round of a crash test one more node is told to crash, taken from the candidates. The handlers of the
answers of nodes put their sender back among the candidates, so different nodes are chosen as long as no node
that has been told to crash answers once more. As many nodes have then been told to crash as the item that is
announced says, if the analyzer completes the items in their order.
-/

namespace BFTDiagnosis.Controller

open Components Word

variable {X : Externals} {walk : Walk PeerId}

/-! ## The nodes that are told to crash -/

/-- The node that a message tells to crash. -/
def crashPeer : Action → Option PeerId
  | .sendMessage peerId (.consensusNodeMode (.crash _)) => some peerId
  | _ => none

/-- The nodes that are told to crash, in their order. -/
def crashPeers (run : Run) : List PeerId := run.flatMap fun t ↦ t.out.filterMap crashPeer

/-- The nodes that have been told to crash since the last item was taken from the plan. -/
def crashedPeers (run : Run) : List PeerId := crashPeers (sinceLast takesItem run)

theorem crashedPeers_concat (run : Run) (t : Transition Controller Event (List Action)) :
    crashedPeers (run ++ [t]) = if takesItem t then [] else crashedPeers run ++ t.out.filterMap crashPeer := by
  rw [crashedPeers, sinceLast_concat]
  split
  case isTrue => rfl
  case isFalse => simp [crashedPeers, crashPeers]

/-- Within every test of the plan, no node is told to crash twice. -/
def CrashesDistinct (run : Run) : Prop := ∀ before after, run = before ++ after → (crashedPeers before).Nodup

/-- Whenever a crash item of the crash test is announced, as many different nodes have been told to crash as
it says. -/
def CrashesCounted (run : Run) : Prop :=
  ∀ before t after count max max', run = before ++ t :: after → t.post.nextTestItem = some (.crash 0 max) →
    .crash count max' ∈ announcedItems t.pre.analyzerId t.out →
    (crashedPeers (before ++ [t])).toFinset.card = count.toNat

/-- No node is admitted to the test that has been told to crash in it. -/
def NotReadmitted (before : Run) (t : Transition Controller Event (List Action)) : Prop :=
  ∀ peerId ∈ admittedPeer (t.pre.route t.event.input), peerId ∉ crashedPeers before

/-- The candidates are none of the nodes that have been told to crash. -/
structure CrashRounds (run : Run) (c : Controller) : Prop where
  nodup : (crashedPeers run).Nodup
  fresh : ∀ peerId ∈ c.optionalCrashConsensusNodes, peerId ∉ crashedPeers run

theorem filterMap_crashPeer_of_prepares {actions : List Action}
    (h : ∀ action ∈ actions, action.prepares = false) : actions.filterMap crashPeer = [] := by
  apply List.filterMap_eq_nil_iff.2
  intro action haction
  have hprepares := h action haction
  cases action with
  | sendMessage receiver message =>
    cases message with
    | consensusNodeMode mode => cases mode <;> first | rfl | cases hprepares
    | _ => rfl
  | publish => rfl
  | conspireRequestSendTimerStart => rfl

theorem filterMap_crashPeer_map {receivers : List PeerId} {action : PeerId → Action}
    (h : ∀ receiver, crashPeer (action receiver) = none) : (receivers.map action).filterMap crashPeer = [] := by
  apply List.filterMap_eq_nil_iff.2
  intro act hact
  obtain ⟨receiver, -, rfl⟩ := List.mem_map.1 hact
  exact h receiver

/-- A turn that tells nobody to crash keeps the invariant when its new candidates are fresh. -/
theorem CrashRounds.of_silent {run : Run} {t : Transition Controller Event (List Action)}
    (h : CrashRounds run t.pre) (htakes : takesItem t = false) (hsilent : t.out.filterMap crashPeer = [])
    (hcandidates : ∀ peerId ∈ t.post.optionalCrashConsensusNodes,
      peerId ∈ t.pre.optionalCrashConsensusNodes ∨ peerId ∉ crashedPeers run) :
    CrashRounds (run ++ [t]) t.post := by
  have hpeers : crashedPeers (run ++ [t]) = crashedPeers run := by
    rw [crashedPeers_concat, htakes, if_neg Bool.false_ne_true, hsilent, List.append_nil]
  refine ⟨by rw [hpeers]; exact h.nodup, ?_⟩
  intro peerId hpeer
  rw [hpeers]
  rcases hcandidates peerId hpeer with hold | hnew
  · exact h.fresh peerId hold
  · exact hnew

/-- The chosen node was a candidate and is none any more. -/
theorem CrashRounds.of_chosen {run : Run} {t : Transition Controller Event (List Action)} {peerId : PeerId}
    (h : CrashRounds run t.pre) (htakes : takesItem t = false) (hout : t.out.filterMap crashPeer = [peerId])
    (hcandidate : peerId ∈ t.pre.optionalCrashConsensusNodes)
    (hpost : t.post.optionalCrashConsensusNodes = t.pre.optionalCrashConsensusNodes.erase peerId) :
    CrashRounds (run ++ [t]) t.post := by
  have hpeers : crashedPeers (run ++ [t]) = crashedPeers run ++ [peerId] := by
    rw [crashedPeers_concat, htakes, if_neg Bool.false_ne_true, hout]
  refine ⟨?_, ?_⟩
  · rw [hpeers, ← List.concat_eq_append]
    exact List.Nodup.concat (h.fresh peerId hcandidate) h.nodup
  · intro other hother
    rw [hpost, Finset.mem_erase] at hother
    rw [hpeers, List.mem_append, List.mem_singleton]
    rintro (hbefore | heq)
    · exact h.fresh other hother.2 hbefore
    · exact hother.1 heq

theorem CrashRounds.step {run : Run} {t : Transition Controller Event (List Action)}
    (h : CrashRounds run t.pre) (hcondition : NotReadmitted run t)
    (htaken : Controller.step X t.pre t.event = some (t.post, t.out)) : CrashRounds (run ++ [t]) t.post := by
  obtain ⟨c, event, actions, c'⟩ := t
  cases htakes : takesItem ⟨c, event, actions, c'⟩ with
  | true =>
    have hnobody : crashedPeers (run ++ [⟨c, event, actions, c'⟩]) = [] := by
      rw [crashedPeers_concat, htakes, if_pos rfl]
    exact ⟨by rw [hnobody]; exact List.nodup_nil, fun _ _ ↦ by rw [hnobody]; exact List.not_mem_nil⟩
  | false =>
    have hlength : c.testItems.length = c'.testItems.length := by simpa [takesItem] using htakes
    have hsame {peerId : PeerId} (hpeer : peerId ∈ c.optionalCrashConsensusNodes) :
        peerId ∈ c.optionalCrashConsensusNodes ∨ peerId ∉ crashedPeers run := .inl hpeer
    have hturn : Turn c event c' actions := step_turn htaken
    cases hturn with
    | unprepared _ unprepared =>
      refine h.of_silent htakes (filterMap_crashPeer_of_prepares unprepared.sent) ?_
      intro peerId hpeer
      rw [unprepared.crashCandidates, Finset.mem_union, Option.mem_toFinset] at hpeer
      exact hpeer.imp_right fun hadmitted ↦ hcondition peerId hadmitted
    | planExhausted => exact h.of_silent htakes rfl fun _ ↦ hsame
    | itemAnnounced _ plan => simp [plan] at hlength
    | nodesConfigured => exact h.of_silent htakes (filterMap_crashPeer_map fun _ ↦ rfl) fun _ ↦ hsame
    | firstConfigured =>
      exact h.of_silent htakes ((List.filterMap_cons_none rfl).trans (filterMap_crashPeer_map fun _ ↦ rfl))
        fun _ ↦ hsame
    | nobodyConfigured _ _ _ next =>
      obtain ⟨rfl, rfl⟩ := next.eq_of_length hlength
      exact h.of_silent htakes (filterMap_crashPeer_map fun _ ↦ rfl) fun _ ↦ hsame
    | called call next =>
      obtain ⟨middle, fields, crashNodes, rfl⟩ := call.exists_eq
      cases next with
      | configured _ next =>
        obtain ⟨rfl, rfl⟩ := next.eq_of_length hlength
        exact h.of_silent htakes rfl fun _ ↦ hsame
      | nobodyJoined _ _ next =>
        obtain ⟨rfl, rfl⟩ := next.eq_of_length hlength
        exact h.of_silent htakes rfl fun _ ↦ hsame
      | notEnoughConspire _ _ next =>
        obtain ⟨rfl, rfl⟩ := next.eq_of_length hlength
        exact h.of_silent htakes rfl fun _ ↦ hsame
      | conspire =>
        refine h.of_silent htakes ?_ fun _ ↦ hsame
        rw [List.filterMap_append, filterMap_crashPeer_map fun _ ↦ rfl]
        rfl
      | joined | dishonest | nobodyDishonest | noCrash | ignored => exact h.of_silent htakes rfl fun _ ↦ hsame
      | crash _ _ chosen => exact h.of_chosen htakes rfl (Walk.mem_of_last chosen) rfl

/-! ## Counting the rounds -/

def isPerformance : TestItem → Bool
  | .throughput => true
  | .latency => true
  | .throughputAndLatency => true
  | _ => false

/-- The item that is announced counts the nodes that have been told to crash, and the middle item counts one
more as soon as the test is completed. -/
structure CountsCrashes (run : Run) (c : Controller) : Prop where
  announced : ∃ item, (announcement run).item = some item ∧ isPerformance item = false ∧
    ∀ count max, item = .crash count max → (crashedPeers run).length = count.toNat
  middle : (announcement run).completed = true → ∀ count max, c.nextMidTestItem = some (.crash count max) →
    count.toNat = (crashedPeers run).length + 1

/-- A middle crash item follows the crash item before it. -/
theorem completeTest_crash {c c₁ : Controller} {item : TestItem} {count max : UInt16}
    (h : c.completeTest item = some c₁) (hkind : isPerformance item = false)
    (hmiddle : c₁.nextMidTestItem = some (.crash count max)) :
    ∃ count' max', item = .crash count' max' ∧ count.toNat = count'.toNat + 1 := by
  cases item with
  | throughput | latency | throughputAndLatency => cases hkind
  | scalability =>
    obtain ⟨next, -, hresult⟩ := Option.bind_eq_some_iff.1 h
    rw [← Option.some.inj hresult, setNextMidTestItem] at hmiddle
    dsimp only at hmiddle
    split at hmiddle <;> cases hmiddle
  | crash count' max' =>
    obtain ⟨next, hadd, hresult⟩ := Option.bind_eq_some_iff.1 h
    rw [← Option.some.inj hresult, setNextMidTestItem] at hmiddle
    dsimp only at hmiddle
    split at hmiddle
    · obtain ⟨rfl, -⟩ := TestItem.crash.inj (Option.some.inj hmiddle)
      exact ⟨count', max', rfl, checkedAdd16_eq_some_iff.1 hadd⟩
    · cases hmiddle
  | malicious behaviour =>
    obtain ⟨behaviour', hbehaviour⟩ := completeTest_malicious h _ hmiddle
    cases hbehaviour

/-- A turn that takes an item from the plan begins with nobody crashed. -/
theorem CountsCrashes.of_takes {run : Run} {t : Transition Controller Event (List Action)} {item : TestItem}
    (htakes : takesItem t = true) (hlast : (announcedItems t.pre.analyzerId t.out).getLast? = some item)
    (hkind : isPerformance item = false) (hzero : ∀ count max, item = .crash count max → count = 0) :
    CountsCrashes (run ++ [t]) t.post := by
  have hnobody : crashedPeers (run ++ [t]) = [] := by rw [crashedPeers_concat, htakes, if_pos rfl]
  have hannounced : announcement (run ++ [t]) = ⟨some item, false⟩ := by
    rw [announcement_concat, Announcement.next_of_some hlast]
  constructor
  · refine ⟨item, by rw [hannounced], hkind, ?_⟩
    intro count max hcrash
    rw [hnobody, hzero count max hcrash]
    rfl
  · intro hcompleted
    rw [hannounced] at hcompleted
    cases hcompleted

/-- A turn that announces a middle item. -/
theorem CountsCrashes.of_announced {run : Run} {t : Transition Controller Event (List Action)} {item : TestItem}
    (htakes : takesItem t = false) (hlast : (announcedItems t.pre.analyzerId t.out).getLast? = some item)
    (hkind : isPerformance item = false)
    (hcount : ∀ count max, item = .crash count max →
      (crashedPeers run ++ t.out.filterMap crashPeer).length = count.toNat) :
    CountsCrashes (run ++ [t]) t.post := by
  have hpeers : crashedPeers (run ++ [t]) = crashedPeers run ++ t.out.filterMap crashPeer := by
    rw [crashedPeers_concat, htakes, if_neg Bool.false_ne_true]
  have hannounced : announcement (run ++ [t]) = ⟨some item, false⟩ := by
    rw [announcement_concat, Announcement.next_of_some hlast]
  constructor
  · refine ⟨item, by rw [hannounced], hkind, ?_⟩
    intro count max hcrash
    rw [hpeers]
    exact hcount count max hcrash
  · intro hcompleted
    rw [hannounced] at hcompleted
    cases hcompleted

/-- A turn that announces nothing. -/
theorem CountsCrashes.of_silent {run : Run} {t : Transition Controller Event (List Action)}
    (h : CountsCrashes run t.pre) (htakes : takesItem t = false)
    (hsilent : announcedItems t.pre.analyzerId t.out = []) (hout : t.out.filterMap crashPeer = [])
    (hmiddle : (announcement run).completed = true ∨ (completedItem t).isSome = true →
      ∀ count max, t.post.nextMidTestItem = some (.crash count max) →
        count.toNat = (crashedPeers run).length + 1) : CountsCrashes (run ++ [t]) t.post := by
  have hpeers : crashedPeers (run ++ [t]) = crashedPeers run := by
    rw [crashedPeers_concat, htakes, if_neg Bool.false_ne_true, hout, List.append_nil]
  have hannounced : announcement (run ++ [t]) =
      ⟨(announcement run).item, (announcement run).completed || (completedItem t).isSome⟩ := by
    rw [announcement_concat, Announcement.next_of_nil hsilent]
  constructor
  · rw [hannounced, hpeers]
    exact h.announced
  · intro hcompleted
    rw [hannounced, Bool.or_eq_true_iff] at hcompleted
    rw [hpeers]
    exact hmiddle hcompleted

/-- The middle item after the completion of the item that was announced. -/
theorem CountsCrashes.middle_of_completed {run : Run} {t : Transition Controller Event (List Action)}
    {item : TestItem} {c₁ : Controller} (h : CountsCrashes run t.pre) (horder : InOrder run t)
    (hroute : t.pre.route t.event.input = .analyzer (.completedTest item))
    (hcompleted : t.pre.completeTest item = some c₁) {count max : UInt16}
    (hmiddle : c₁.nextMidTestItem = some (.crash count max)) : count.toNat = (crashedPeers run).length + 1 := by
  obtain ⟨item', hitem', hkind, hcount⟩ := h.announced
  obtain rfl := Option.some.inj (hitem'.symm.trans (horder.completed item (completedItem_eq_some_iff.2 hroute)))
  obtain ⟨count', max', rfl, hnext⟩ := completeTest_crash hcompleted hkind hmiddle
  rw [hcount count' max' rfl, hnext]

/-- A call of `next_test` finds the middle item of the test that has been completed. -/
theorem CountsCrashes.middle_of_call {run : Run} {t : Transition Controller Event (List Action)}
    {c₁ : Controller} (h : CountsCrashes run t.pre) (horder : InOrder run t)
    (hcall : CallsNextTest t.pre t.event c₁) {count max : UInt16}
    (hmiddle : c₁.nextMidTestItem = some (.crash count max)) : count.toNat = (crashedPeers run).length + 1 := by
  have hcompleted := horder.called (callsNextTest_iff.2 ⟨c₁, hcall⟩)
  cases hcall with
  | completed route completed => exact h.middle_of_completed horder route completed hmiddle
  | reset route | crashReset route =>
    rw [completedItem, route] at hcompleted
    exact h.middle (hcompleted.resolve_right Bool.false_ne_true) count max hmiddle

theorem CountsCrashes.step_unprepared {run : Run} {t : Transition Controller Event (List Action)}
    (h : CountsCrashes run t.pre) (horder : InOrder run t)
    (htaken : Controller.step X t.pre t.event = some (t.post, t.out))
    (hunprepared : Unprepared t.pre (t.pre.route t.event.input) t.post t.out) :
    CountsCrashes (run ++ [t]) t.post := by
  have htakes : takesItem t = false := by simp [takesItem, hunprepared.testItems]
  apply h.of_silent htakes (announcedItems_of_prepares hunprepared.sent)
    (filterMap_crashPeer_of_prepares hunprepared.sent)
  intro hcompleted count max hmiddle
  rcases step_middle htaken with ⟨hnone, hsame⟩ | ⟨item, c₁, hitem, hdone, hnext⟩
  · rw [hnone] at hcompleted
    exact h.middle (hcompleted.resolve_right Bool.false_ne_true) count max (hsame.symm.trans hmiddle)
  · exact h.middle_of_completed horder (completedItem_eq_some_iff.1 hitem) hdone (hnext.symm.trans hmiddle)

/-- A turn that has taken an item and is now at a crash test. -/
theorem countsCrashes_of_takes {run : Run} {t : Transition Controller Event (List Action)} {max : UInt16}
    (htaken : Controller.step X t.pre t.event = some (t.post, t.out)) (htakes : takesItem t = true)
    (hitem : t.post.nextTestItem = some (.crash 0 max)) : CountsCrashes (run ++ [t]) t.post := by
  obtain ⟨c, event, actions, c'⟩ := t
  have hlength : c.testItems.length ≠ c'.testItems.length := by simpa [takesItem] using htakes
  have hzero : ∀ count max', TestItem.crash 0 max = .crash count max' → count = 0 :=
    fun count max' heq ↦ (TestItem.crash.inj heq).1.symm
  have hturn : Turn c event c' actions := step_turn htaken
  cases hturn with
  | unprepared _ unprepared => exact absurd (congrArg List.length unprepared.testItems.symm) hlength
  | planExhausted => exact absurd rfl hlength
  | @itemAnnounced rest item command plan =>
    obtain rfl := Option.some.inj ((announce_nextTestItem c item rest).symm.trans hitem)
    exact .of_takes htakes (congrArg List.getLast? (announcedItems_cons_testItem c.analyzerId _ [])) rfl hzero
  | nodesConfigured => exact absurd rfl hlength
  | firstConfigured => exact absurd rfl hlength
  | nobodyConfigured _ _ _ next =>
    refine .of_takes htakes ?_ rfl hzero
    have hidle : announcedItems c.analyzerId (c'.idleNodes event.walk) = [] := announcedItems_map_eq_nil fun _ ↦ rfl
    rw [announcedItems_append, hidle, List.append_nil, ← hitem]
    exact next.nextTestItem_eq.resolve_left (by rw [hitem]; exact Option.some_ne_none _)
  | called call next =>
    obtain ⟨middle, fields, crashNodes, rfl⟩ := call.exists_eq
    cases next with
    | configured _ next =>
      refine .of_takes htakes ?_ rfl hzero
      rw [← hitem]
      exact next.nextTestItem_eq.resolve_left (by rw [hitem]; exact Option.some_ne_none _)
    | nobodyJoined | notEnoughConspire =>
      exact .of_takes htakes (getLast?_announcedItems_concat _ _ _) rfl fun _ _ heq ↦ by cases heq
    | joined | dishonest | nobodyDishonest | conspire | noCrash | crash | ignored => exact absurd rfl hlength

/-- A call of `next_test` that takes no item from the plan. -/
theorem CountsCrashes.step_called {run : Run} {t : Transition Controller Event (List Action)} {c₁ : Controller}
    {max : UInt16} (h : ∀ max, t.pre.nextTestItem = some (.crash 0 max) → CountsCrashes run t.pre)
    (horder : InOrder run t) (htakes : takesItem t = false) (hcall : CallsNextTest t.pre t.event c₁)
    (hnext : NextTest t.event.walk c₁ t.post t.out) (hitem : t.post.nextTestItem = some (.crash 0 max)) :
    CountsCrashes (run ++ [t]) t.post := by
  obtain ⟨c, event, actions, c'⟩ := t
  dsimp only at hcall hnext hitem
  have hlength : c.testItems.length = c'.testItems.length := by simpa [takesItem] using htakes
  have hmiddle {count max' : UInt16} (hpre : c.nextTestItem = some (.crash 0 max))
      (heq : c₁.nextMidTestItem = some (.crash count max')) : count.toNat = (crashedPeers run).length + 1 :=
    (h max hpre).middle_of_call horder hcall heq
  obtain ⟨middle, fields, crashNodes, rfl⟩ := hcall.exists_eq
  cases hnext with
  | configured _ next | nobodyJoined _ _ next | notEnoughConspire _ _ next =>
    obtain ⟨rfl, -⟩ := next.eq_of_length hlength
    cases hitem
  | joined =>
    exact .of_announced htakes (getLast?_announcedItems_concat _ [_] _) rfl fun _ _ heq ↦ by cases heq
  | @dishonest item mode id middle_eq kind chosen =>
    have hkind : isPerformance item = false ∧ ∀ count max, item ≠ .crash count max := by
      unfold dishonestMode at kind
      split at kind
      · exact ⟨rfl, fun _ _ heq ↦ by cases heq⟩
      · exact ⟨rfl, fun _ _ heq ↦ by cases heq⟩
      · exact ⟨rfl, fun _ _ heq ↦ by cases heq⟩
      · cases kind
    refine .of_announced htakes ?_ hkind.1 fun count max heq ↦ absurd heq (hkind.2 count max)
    rw [announcedItems_cons_of_none rfl]
    exact congrArg List.getLast? (announcedItems_cons_testItem c.analyzerId item _)
  | conspire =>
    exact .of_announced htakes (getLast?_announcedItems_concat _ _ _) rfl fun _ _ heq ↦ by cases heq
  | noCrash middle_eq =>
    exact absurd (hmiddle hitem middle_eq) (Nat.succ_ne_zero _).symm
  | @crash count max' peerId middle_eq =>
    have hlast : (announcedItems c.analyzerId [setConsensusNodeMode peerId (.crash 1000),
        .sendMessage c.analyzerId (.testItem (.crash count max')),
        .sendMessage c.analyzerId (.crashNode count (some peerId))]).getLast? = some (.crash count max') := by
      rw [announcedItems_cons_of_none rfl, announcedItems_cons_testItem]
      rfl
    refine .of_announced htakes hlast rfl ?_
    intro count' max'' heq
    obtain ⟨rfl, -⟩ := TestItem.crash.inj heq
    rw [List.length_append, hmiddle hitem middle_eq]
    rfl
  | nobodyDishonest middle_eq _ _ _ | ignored middle_eq =>
    refine (h max hitem).of_silent htakes rfl rfl ?_
    intro _ count max' heq
    exact hmiddle hitem heq

theorem countsCrashes_step {run : Run} {t : Transition Controller Event (List Action)} {max : UInt16}
    (h : ∀ max, t.pre.nextTestItem = some (.crash 0 max) → CountsCrashes run t.pre) (horder : InOrder run t)
    (htaken : Controller.step X t.pre t.event = some (t.post, t.out))
    (hitem : t.post.nextTestItem = some (.crash 0 max)) : CountsCrashes (run ++ [t]) t.post := by
  cases htakes : takesItem t with
  | true => exact countsCrashes_of_takes htaken htakes hitem
  | false =>
    obtain ⟨c, event, actions, c'⟩ := t
    have hlength : c.testItems.length = c'.testItems.length := by simpa [takesItem] using htakes
    have hturn : Turn c event c' actions := step_turn htaken
    cases hturn with
    | unprepared _ unprepared =>
      have hpre : c.nextTestItem = some (.crash 0 max) := unprepared.nextTestItem.symm.trans hitem
      exact (h max hpre).step_unprepared horder htaken unprepared
    | planExhausted => cases hitem
    | itemAnnounced _ plan => simp [plan] at hlength
    | nodesConfigured command =>
      refine (h max hitem).of_silent htakes (announcedItems_map_eq_nil fun _ ↦ rfl)
        (filterMap_crashPeer_map fun _ ↦ rfl) ?_
      rw [show completedItem _ = none by simp [completedItem, command, route]]
      exact fun hcompleted ↦ (h max hitem).middle (hcompleted.resolve_right Bool.false_ne_true)
    | firstConfigured _ item_eq => cases item_eq.symm.trans hitem
    | nobodyConfigured _ _ _ next =>
      obtain ⟨rfl, -⟩ := next.eq_of_length hlength
      cases hitem
    | called call next => exact CountsCrashes.step_called h horder htakes call next hitem

/-! ## Crash tests of a run -/

theorem Configured.nextTestItem_of_mem {c c' : Controller} {actions : List Action} {count max : UInt16}
    (h : Configured walk c c' actions) (hcrash : .crash count max ∈ announcedItems c.analyzerId actions) :
    c.testItems.length ≠ c'.testItems.length ∧ c'.nextTestItem = some (.crash count max) := by
  refine ⟨?_, (h.mem_announcedItems hcrash).resolve_left Bool.false_ne_true⟩
  have hne : c.testItems ≠ [] := by
    rw [ne_eq, ← h.announcedItems_eq_nil_iff]
    exact List.ne_nil_of_mem hcrash
  exact Nat.ne_of_gt (h.length_lt hne)

/-- A crash item that is announced is the one of the plan, or it is announced last. -/
theorem crash_of_mem_announcedItems {t : Transition Controller Event (List Action)} {count max : UInt16}
    (htaken : Controller.step X t.pre t.event = some (t.post, t.out))
    (h : .crash count max ∈ announcedItems t.pre.analyzerId t.out) :
    takesItem t = true ∧ t.post.nextTestItem = some (.crash count max) ∨
      (announcedItems t.pre.analyzerId t.out).getLast? = some (.crash count max) := by
  obtain ⟨c, event, actions, c'⟩ := t
  dsimp only at h
  have hturn : Turn c event c' actions := step_turn htaken
  cases hturn with
  | unprepared _ unprepared =>
    rw [announcedItems_of_prepares unprepared.sent] at h
    cases h
  | planExhausted => cases h
  | itemAnnounced =>
    rw [announcedItems_cons_testItem, announcedItems_nil, List.mem_singleton] at h
    right
    rw [announcedItems_cons_testItem, announcedItems_nil, h]
    rfl
  | nodesConfigured =>
    rw [announcedItems_configureNodes] at h
    cases h
  | firstConfigured =>
    rw [announcedItems_cons_of_none rfl, announcedItems_idleNodes] at h
    cases h
  | nobodyConfigured _ _ _ next =>
    rw [announcedItems_append, announcedItems_idleNodes, List.append_nil] at h
    obtain ⟨hlength, hitem⟩ := next.nextTestItem_of_mem h
    exact .inl ⟨bne_iff_ne.2 hlength, hitem⟩
  | called call next =>
    obtain ⟨middle, fields, crashNodes, rfl⟩ := call.exists_eq
    rcases next.announcedItems_cases with ⟨-, -, hannounced⟩ |
      ⟨c₂, configured, later, hconfigured, hplan, hnext, hannounced, hlater⟩
    · right
      obtain ⟨last, hlast⟩ : ∃ last, (announcedItems c.analyzerId actions).getLast? = some last :=
        ⟨_, List.getLast?_eq_some_getLast (List.ne_nil_of_mem h)⟩
      have hsame := (hannounced _ h).1.symm.trans (hannounced last (List.mem_of_getLast? hlast)).1
      rw [hlast, Option.some.inj hsame]
    · rw [show announcedItems c.analyzerId actions = _ from hannounced, List.mem_append] at h
      have hcrash := h.resolve_right fun hmem ↦ Bool.false_ne_true (hlater _ hmem).2.2.symm
      obtain ⟨hlength, hitem⟩ := hconfigured.nextTestItem_of_mem hcrash
      exact .inl ⟨bne_iff_ne.2 (by rw [hplan]; exact hlength), hnext.trans hitem⟩

theorem crashRounds_of_isRun {c₀ c : Controller} {run : Run} (hrun : IsRun (step X) c₀ run c)
    (hcondition : ∀ before t after, run = before ++ t :: after → NotReadmitted before t) : CrashRounds run c := by
  refine IsRun.induction_of_split (motive := CrashRounds) ?_ ?_ hrun hcondition
  · exact ⟨List.nodup_nil, fun _ _ ↦ List.not_mem_nil⟩
  · intro run s event out s' hrounds hmet htaken
    exact hrounds.step hmet htaken

theorem countsCrashes_of_isRun {config : BFTDiagnosisConfig} {c₀ c : Controller} {run : Run}
    (h : Configuration config c₀) (hrun : IsRun (step X) c₀ run c)
    (horder : ∀ before t after, run = before ++ t :: after → InOrder before t) {max : UInt16}
    (hitem : c.nextTestItem = some (.crash 0 max)) : CountsCrashes run c := by
  refine IsRun.induction_of_split (motive := fun run c ↦ ∀ max, c.nextTestItem = some (.crash 0 max) →
    CountsCrashes run c) ?_ ?_ hrun horder max hitem
  · obtain ⟨id, analyzerId, crashNode, scalabilityNode, dishonestNode, testItems, rfl⟩ := h.exists_eq_new
    intro max hnone
    cases hnone
  · intro run s event out s' hcounts hmet htaken max hitem
    exact countsCrashes_step hcounts hmet htaken hitem

/-- In every run from an accepted configuration in which no node is admitted to a test after it has been told
to crash, different nodes are told to crash. If the analyzer completes the items in their order, as many
have been told as the item says. -/
theorem crashesDistinct_of_notReadmitted {config : BFTDiagnosisConfig} {c₀ c : Controller} {run : Run}
    (h : Configuration config c₀) (hrun : IsRun (step X) c₀ run c)
    (hcondition : ∀ before t after, run = before ++ t :: after → NotReadmitted before t) :
    CrashesDistinct run ∧
      ((∀ before t after, run = before ++ t :: after → InOrder before t) → CrashesCounted run) := by
  have hdistinct : CrashesDistinct run := by
    intro before after hsplit
    obtain ⟨c', hbefore⟩ := hrun.exists_of_append hsplit
    exact (crashRounds_of_isRun hbefore (forall_split_of_append hcondition hsplit)).nodup
  refine ⟨hdistinct, ?_⟩
  intro horder before t after count max max' hsplit hitem hcrash
  obtain ⟨hbefore, htaken⟩ := hrun.before hsplit
  have hsplit' : run = (before ++ [t]) ++ after := by rw [hsplit, List.append_assoc, List.singleton_append]
  have hcounts : CountsCrashes (before ++ [t]) t.post :=
    countsCrashes_of_isRun h (hbefore.snoc htaken) (forall_split_of_append horder hsplit') hitem
  rw [List.toFinset_card_of_nodup (hdistinct _ _ hsplit')]
  rcases crash_of_mem_announcedItems htaken hcrash with ⟨htakes, hnext⟩ | hlast
  · obtain ⟨rfl, -⟩ := TestItem.crash.inj (Option.some.inj (hitem.symm.trans hnext))
    rw [crashedPeers_concat, htakes, if_pos rfl]
    rfl
  · obtain ⟨item, hannounced, -, hcount⟩ := hcounts.announced
    rw [announcement_concat, Announcement.next_of_some hlast] at hannounced
    exact hcount count max' (Option.some.inj hannounced).symm

instance NotReadmitted.decidable (before : Run) (t : Transition Controller Event (List Action)) :
    Decidable (NotReadmitted before t) :=
  inferInstanceAs (Decidable (∀ peerId ∈ admittedPeer (t.pre.route t.event.input), peerId ∉ crashedPeers before))

def crashConfig : BFTDiagnosisConfig where
  throughput := none
  latency := none
  scalability := none
  crash := some ⟨some true, some 2⟩
  malicious := none

/-- The crash test is announced and its nodes are configured; those in the list answer. -/
def crashTestEvents (answers : List PeerId) : List Event :=
  [(Input.discovered [[1], [2]]).sorted, (Input.command .configureAnalyzer).sorted,
    (Input.command .configureConsensusNode).sorted] ++
  answers.map fun peerId ↦ (Input.unicast peerId (.consensusNodeModeSuccess (.honest .first))).sorted

/-- A round is completed and the nodes of the test answer the reset. -/
def crashRoundEvents (count : UInt16) (nodes : List PeerId) : List Event :=
  (Input.gossip (.completedTest (.crash count 2))).sorted ::
    nodes.map fun peerId ↦ (Input.unicast peerId (.resetSuccess (.honest .first))).sorted

def crashRun (events : List Event) : Run :=
  transitions (step Externals.transparent) (freshWith crashConfig) events

/-- Both nodes answer before the first round. -/
def orderlyCrashEvents : List Event :=
  crashTestEvents [[1], [2]] ++ crashRoundEvents 0 [[1], [2]] ++ crashRoundEvents 1 [[1], [2]]

theorem crashesDistinct_of_notReadmitted_orderly :
    crashedPeers (crashRun orderlyCrashEvents) = [[2], [1]] ∧ CrashesDistinct (crashRun orderlyCrashEvents) ∧
      CrashesCounted (crashRun orderlyCrashEvents) := by
  have hrun : IsRun (step Externals.transparent) (freshWith crashConfig) (crashRun orderlyCrashEvents)
      (final (step Externals.transparent) (freshWith crashConfig) orderlyCrashEvents) :=
    IsRun.of_isSome (by decide +kernel)
  have hcondition : ∀ before t after, crashRun orderlyCrashEvents = before ++ t :: after →
      NotReadmitted before t := forall_split_of_forall (by decide +kernel)
  have horder : ∀ before t after, crashRun orderlyCrashEvents = before ++ t :: after → InOrder before t :=
    forall_split_of_forall (by decide +kernel)
  obtain ⟨hdistinct, hcounted⟩ :=
    crashesDistinct_of_notReadmitted (configuration_freshWith (by decide)) hrun hcondition
  exact ⟨by decide +kernel, hdistinct, hcounted horder⟩

/-- The second node answers only after it has been told to crash. -/
def lateAnswerEvents : List Event :=
  crashTestEvents [[1]] ++ crashRoundEvents 0 [[1]] ++
    [(Input.unicast [2] (.consensusNodeModeSuccess (.honest .first))).sorted] ++ crashRoundEvents 1 [[1], [2]]

theorem not_crashesDistinct_of_late_answer :
    Configuration crashConfig (freshWith crashConfig) ∧
      IsRun (step Externals.transparent) (freshWith crashConfig) (crashRun lateAnswerEvents)
        (final (step Externals.transparent) (freshWith crashConfig) lateAnswerEvents) ∧
      crashedPeers (crashRun lateAnswerEvents) = [[2], [2]] ∧ ¬ CrashesDistinct (crashRun lateAnswerEvents) := by
  have htwice : crashedPeers (crashRun lateAnswerEvents) = [[2], [2]] := by decide +kernel
  refine ⟨configuration_freshWith (by decide), IsRun.of_isSome (by decide +kernel), htwice, fun hdistinct ↦ ?_⟩
  have hnodup := hdistinct _ [] (List.append_nil _).symm
  rw [htwice] at hnodup
  exact absurd hnodup (by decide)

end BFTDiagnosis.Controller
