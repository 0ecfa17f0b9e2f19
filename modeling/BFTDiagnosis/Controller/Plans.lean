import BFTDiagnosis.Controller.Steps

/-!
# Middle items

A test item of the plan is followed by middle items: when the analyzer has completed one, the handler of
`CompletedTest` computes the next one from it. `Produces` is the list of all of them, whatever else happens in
between. For the items that carry a counter this list is finite when the counter fits into its 16 bits and the
increment is not zero.
-/

namespace BFTDiagnosis.Controller

open Components Word

variable {X : Externals} {walk : Walk PeerId}

/-! ## The cursor of a test item -/

/-- The controllers are at the same middle item, with the same waiting nodes and fields. -/
structure SameCursor (c c' : Controller) : Prop where
  middle : c'.nextMidTestItem = c.nextMidTestItem
  waiting : c'.waitingConsensusNodes = c.waitingConsensusNodes
  fields : c'.fields = c.fields

theorem SameCursor.refl (c : Controller) : SameCursor c c := ⟨rfl, rfl, rfl⟩

theorem SameCursor.trans {c c' c'' : Controller} (h : SameCursor c c') (h' : SameCursor c' c'') :
    SameCursor c c'' :=
  ⟨h'.middle.trans h.middle, h'.waiting.trans h.waiting, h'.fields.trans h.fields⟩

theorem Configured.sameCursor {c c' : Controller} {actions : List Action} (h : Configured walk c c' actions) :
    SameCursor c c' := ⟨h.frame.middle, h.frame.waiting, h.frame.fields⟩

/-- Choosing the next test does not move the cursor. -/
theorem NextTest.sameCursor {c c' : Controller} {actions : List Action} (h : NextTest walk c c' actions) :
    SameCursor c c' := by
  cases h with
  | configured _ next => exact next.sameCursor
  | nobodyJoined _ _ next => exact next.sameCursor
  | notEnoughConspire _ _ next =>
    have hsame := next.sameCursor
    exact ⟨hsame.middle, hsame.waiting, hsame.fields⟩
  | joined | dishonest | nobodyDishonest | conspire | noCrash | crash | ignored => exact ⟨rfl, rfl, rfl⟩

def isCompletion : Input → Bool
  | .unicast _ (.completedTest _) => true
  | .gossip (.completedTest _) => true
  | _ => false

/-- An input that moves no cursor: no test is completed, and nodes and fields stay as they are. -/
def isQuiet : Input → Bool
  | .unicast _ (.completedTest _) => false
  | .gossip (.completedTest _) => false
  | .unicast _ (.componentInfo (.analyzer _)) => false
  | .gossip (.componentInfo (.analyzer _)) => false
  | .unicast _ (.consensusPhase ..) => false
  | .discovered _ => false
  | _ => true

/-- The inputs with a certain message for the analyzer's handler. -/
theorem input_of_route_analyzer {c : Controller} {input : Input} {message : InteractiveMessage}
    (h : c.route input = .analyzer message) :
    (∃ source, input = .unicast source message) ∨ input = .gossip message := by
  cases input with
  | unicast source message' =>
    simp only [route] at h
    split at h
    case isTrue =>
      obtain rfl := Route.analyzer.inj h
      exact .inl ⟨source, rfl⟩
    case isFalse => split at h <;> cases h
  | gossip message' =>
    obtain rfl := Route.analyzer.inj h
    exact .inr rfl
  | command | conspire | discovered => cases h

theorem input_of_route_node {c : Controller} {input : Input} {peerId : PeerId} {message : InteractiveMessage}
    (h : c.route input = .node peerId message) : input = .unicast peerId message := by
  cases input with
  | unicast source message' =>
    simp only [route] at h
    split at h
    case isTrue => cases h
    case isFalse =>
      split at h
      case isTrue =>
        obtain ⟨rfl, rfl⟩ := Route.node.inj h
        rfl
      case isFalse => cases h
  | command | conspire | gossip | discovered => cases h

theorem input_of_route_command {c : Controller} {input : Input} {command : Command}
    (h : c.route input = .command command) : input = .command command := by
  cases input with
  | command command' => rw [Route.command.inj h]
  | unicast source message =>
    simp only [route] at h
    split at h
    case isTrue => cases h
    case isFalse => split at h <;> cases h
  | conspire | gossip | discovered => cases h

/-- Only the completion of a test changes the middle item. -/
theorem Effect.middle_eq {c c' : Controller} {route : Route} {actions : List Action}
    (h : Effect X walk c route c' actions) (hroute : ∀ item, route ≠ .analyzer (.completedTest item)) :
    c'.nextMidTestItem = c.nextMidTestItem := by
  cases h with
  | completedReset | completedNext => exact absurd rfl (hroute _)
  | resetNext _ _ _ _ next => exact next.sameCursor.middle
  | crashResetNext _ _ _ _ next => exact next.sameCursor.middle
  | configureNobody _ _ next => exact next.sameCursor.middle
  | @configureAnalyzer rest item => cases item <;> rfl
  | _ => rfl

/-- Quiet inputs do not move the cursor. -/
theorem step_sameCursor {c c' : Controller} {event : Event} {actions : List Action}
    (h : step X c event = some (c', actions)) (hinput : isQuiet event.input = true) : SameCursor c c' := by
  have heffect := step_effect h
  generalize hroute : c.route event.input = route at heffect
  cases heffect with
  | completedReset | completedNext | analyzerInfo =>
    rcases input_of_route_analyzer hroute with ⟨source, hunicast⟩ | hgossip
    · simp [hunicast, isQuiet] at hinput
    · simp [hgossip, isQuiet] at hinput
  | phase => simp [input_of_route_node hroute, isQuiet] at hinput
  | discovered =>
    cases hevent : event.input with
    | discovered peers => simp [hevent, isQuiet] at hinput
    | unicast source message =>
      simp only [hevent, Controller.route] at hroute
      split at hroute
      case isTrue => cases hroute
      case isFalse => split at hroute <;> cases hroute
    | command | conspire | gossip => simp [hevent, Controller.route] at hroute
  | resetNext _ _ _ _ next => exact ⟨next.sameCursor.middle, next.sameCursor.waiting, next.sameCursor.fields⟩
  | crashResetNext _ _ _ _ next => exact ⟨next.sameCursor.middle, next.sameCursor.waiting, next.sameCursor.fields⟩
  | configureNobody _ _ next => exact ⟨next.sameCursor.middle, next.sameCursor.waiting, next.sameCursor.fields⟩
  | @configureAnalyzer rest item => cases item <;> exact ⟨rfl, rfl, rfl⟩
  | _ => exact ⟨rfl, rfl, rfl⟩

theorem sameCursor_of_isRun {c c' : Controller} {run : Run} (h : IsRun (step X) c run c')
    (hquiet : ∀ t ∈ run, isQuiet t.event.input = true) : SameCursor c c' := by
  apply h.invariant_of_forall (SameCursor c) (.refl c) _ hquiet
  intro t hsame hinput htaken
  exact hsame.trans (step_sameCursor htaken hinput)

/-! ## Producing middle items -/

variable (X) in
/-- Answering the item with `CompletedTest`, and then every middle item, makes exactly these middle items
pending, one after the other, and then none. Inputs of the given kind may come in between; nothing panics. -/
def Produces (between : Input → Bool) (c : Controller) (item : TestItem) : List TestItem → Prop
  | [] => ∀ walk, ∃ c' actions, c.analyzerMessageHandler X walk (.completedTest item) = some (c', actions) ∧
      c'.nextMidTestItem = none
  | next :: items => ∀ walk, ∃ c' actions,
      c.analyzerMessageHandler X walk (.completedTest item) = some (c', actions) ∧
      c'.nextMidTestItem = some next ∧
      ∀ run c'', IsRun (step X) c' run c'' → (∀ t ∈ run, between t.event.input = true) →
        Produces between c'' next items

/-- The handler of `CompletedTest` moves the cursor as `completeTest` does. -/
theorem exists_completedTest {c c₁ : Controller} {item : TestItem} (h : c.completeTest item = some c₁)
    (hphase : ∀ next ∈ c₁.nextMidTestItem, hasPhase next = true) (walk : Walk PeerId) :
    ∃ c' actions, c.analyzerMessageHandler X walk (.completedTest item) = some (c', actions) ∧
      SameCursor c₁ c' := by
  simp only [analyzerMessageHandler, h, bind, Option.bind_some, resetConsensusNode]
  split
  case isTrue => exact ⟨_, _, rfl, .refl c₁⟩
  case isFalse =>
    obtain ⟨c', actions, hnext⟩ := exists_nextTest walk c₁.clearResetCounts hphase
    have hsame := (nextTest_spec hnext).sameCursor
    exact ⟨c', actions, hnext, hsame.middle, hsame.waiting, hsame.fields⟩

theorem completedTest_spec {c c' : Controller} {item : TestItem} {actions : List Action}
    (h : c.analyzerMessageHandler X walk (.completedTest item) = some (c', actions)) :
    ∃ c₁, c.completeTest item = some c₁ ∧ SameCursor c₁ c' := by
  cases analyzerMessageHandler_effect h with
  | completedReset hcompleted => exact ⟨_, hcompleted, .refl _⟩
  | completedNext hcompleted _ next =>
    have hsame := next.sameCursor
    exact ⟨_, hcompleted, hsame.middle, hsame.waiting, hsame.fields⟩
  | unusedReport hkind => cases hkind

/-- The first link: what completing the item does, and what is left to produce after it. -/
theorem Produces.exists_completed {between : Input → Bool} {c : Controller} {item : TestItem}
    {items : List TestItem} (h : Produces X between c item items) :
    ∃ c₁ c', c.completeTest item = some c₁ ∧ SameCursor c₁ c' ∧ c₁.nextMidTestItem = items.head? ∧
      ∀ next rest, items = next :: rest → Produces X between c' next rest := by
  cases items with
  | nil =>
    obtain ⟨c', actions, htaken, hmiddle⟩ := h (Walk.ofKey Bytes.key Bytes.key_injective)
    obtain ⟨c₁, hcompleted, hsame⟩ := completedTest_spec htaken
    exact ⟨c₁, c', hcompleted, hsame, hsame.middle.symm.trans hmiddle, fun _ _ heq ↦ by cases heq⟩
  | cons next items =>
    obtain ⟨c', actions, htaken, hmiddle, hrest⟩ := h (Walk.ofKey Bytes.key Bytes.key_injective)
    obtain ⟨c₁, hcompleted, hsame⟩ := completedTest_spec htaken
    refine ⟨c₁, c', hcompleted, hsame, hsame.middle.symm.trans hmiddle, ?_⟩
    rintro next' rest ⟨⟩
    exact hrest [] c' .nil (List.forall_mem_nil _)

/-! ## Items with a counter -/

def roundNumber : Round → ℕ
  | .firstRound => 0
  | .otherRound phase => phase.toNat

/-- The counter of an item: the number of nodes, of crashed nodes or of the phase. -/
def counter : TestItem → ℕ
  | .scalability count _ _ => count.toNat
  | .crash count _ => count.toNat
  | .malicious (.leaderFeignDeath round _) => roundNumber round
  | .malicious (.leaderDelaySendMessage round _) => roundNumber round
  | .malicious (.leaderSendDuplicateMessage round _) => roundNumber round
  | _ => 0

/-- The bound that the counter must not exceed. -/
def limit : TestItem → ℕ
  | .scalability _ max _ => max.toNat
  | .crash _ max => max.toNat
  | .malicious (.leaderFeignDeath _ maxPhase) => maxPhase.toNat
  | .malicious (.leaderDelaySendMessage _ maxPhase) => maxPhase.toNat
  | .malicious (.leaderSendDuplicateMessage _ maxPhase) => maxPhase.toNat
  | _ => 0

def isCounted : TestItem → Bool
  | .scalability .. => true
  | .crash .. => true
  | .malicious (.leaderFeignDeath ..) => true
  | .malicious (.leaderDelaySendMessage ..) => true
  | .malicious (.leaderSendDuplicateMessage ..) => true
  | _ => false

variable (X) in
/-- The middle items of an item end, and their counters increase up to the limit. -/
structure CountedPlan (c : Controller) (item : TestItem) (items : List TestItem) : Prop where
  produced : Produces X (fun input ↦ !isCompletion input) c item items
  increasing : (item :: items).Pairwise (counter · < counter ·)
  bounded : ∀ next ∈ items, counter next ≤ limit item

theorem CountedPlan.last {item : TestItem}
    (h : ∀ c : Controller, c.completeTest item = some (c.setNextMidTestItem none)) (c : Controller) :
    CountedPlan X c item [] where
  produced walk := by
    obtain ⟨c', actions, htaken, hsame⟩ := exists_completedTest (h c) (by simp [setNextMidTestItem]) walk
    exact ⟨c', actions, htaken, hsame.middle⟩
  increasing := List.pairwise_singleton _ _
  bounded := List.forall_mem_nil _

/-- One more item in front of a plan. -/
theorem CountedPlan.cons {item next : TestItem} {items : List TestItem}
    (h : ∀ c : Controller, c.completeTest item = some (c.setNextMidTestItem (some next)))
    (hphase : hasPhase next = true) (hlt : counter item < counter next) (hle : counter next ≤ limit item)
    (hlimit : limit next = limit item) (hrest : ∀ c, CountedPlan X c next items) (c : Controller) :
    CountedPlan X c item (next :: items) where
  produced walk := by
    have hnext : ∀ next' ∈ (c.setNextMidTestItem (some next)).nextMidTestItem, hasPhase next' = true := by
      rintro next' ⟨⟩
      exact hphase
    obtain ⟨c', actions, htaken, hsame⟩ := exists_completedTest (h c) hnext walk
    exact ⟨c', actions, htaken, hsame.middle, fun _ c'' _ _ ↦ (hrest c'').produced⟩
  increasing := by
    have hincreasing := (hrest c).increasing
    refine List.pairwise_cons.2 ⟨?_, hincreasing⟩
    intro other hother
    rcases List.mem_cons.1 hother with rfl | hmem
    · exact hlt
    · exact hlt.trans ((List.pairwise_cons.1 hincreasing).1 other hmem)
  bounded := by
    refine List.forall_mem_cons.2 ⟨hle, ?_⟩
    rw [← hlimit]
    exact (hrest c).bounded

theorem CountedPlan.completeTest_eq {c : Controller} {item : TestItem} {items : List TestItem}
    (h : CountedPlan X c item items) :
    ∃ c₁, c.completeTest item = some c₁ ∧ c₁.nextMidTestItem = items.head? := by
  obtain ⟨c₁, -, hcompleted, -, hhead, -⟩ := h.produced.exists_completed
  exact ⟨c₁, hcompleted, hhead⟩

/-- The rest of a plan is a plan. -/
theorem CountedPlan.tail {c : Controller} {item next : TestItem} {items : List TestItem}
    (h : CountedPlan X c item (next :: items)) (hlimit : limit next = limit item) :
    ∃ c', CountedPlan X c' next items := by
  obtain ⟨-, c', -, -, -, hrest⟩ := h.produced.exists_completed
  refine ⟨c', hrest next items rfl, (List.pairwise_cons.1 h.increasing).2, ?_⟩
  rw [hlimit]
  exact (List.forall_mem_cons.1 h.bounded).2

/-! ### Counters with an increment -/

/-- A family of items whose counter grows by a fixed increment. -/
structure CounterFamily (make : UInt16 → TestItem) (max increment : UInt16) : Prop where
  complete : ∀ (c : Controller) count, c.completeTest (make count) =
    (checkedAdd16 count increment).map fun next ↦
      c.setNextMidTestItem (if next ≤ max then some (make next) else none)
  phase : ∀ count, hasPhase (make count) = true
  counter : ∀ count, counter (make count) = count.toNat
  limit : ∀ count, limit (make count) = max.toNat

/-- No sum of the counter and the increment leaves the 16 bits. -/
def CounterFits (count max increment : ℕ) : Prop :=
  ∀ n, n = 0 ∨ count + n * increment ≤ max → count + n * increment + increment < 2 ^ 16

variable {make : UInt16 → TestItem} {max increment : UInt16}

theorem CounterFamily.scalability (max increment : UInt16) :
    CounterFamily (TestItem.scalability · max increment) max increment where
  complete c count := by
    simp only [completeTest, bind, pure]
    cases checkedAdd16 count increment <;> rfl
  phase _ := rfl
  counter _ := rfl
  limit _ := rfl

theorem CounterFamily.crash (max : UInt16) : CounterFamily (TestItem.crash · max) max 1 where
  complete c count := by
    simp only [completeTest, bind, pure]
    cases checkedAdd16 count 1 <;> rfl
  phase _ := rfl
  counter _ := rfl
  limit _ := rfl

/-- The counter after one step fits as well. -/
theorem CounterFits.next {count max increment : ℕ} (h : CounterFits count max increment)
    (hle : count + increment ≤ max) : CounterFits (count + increment) max increment := by
  intro n hn
  have hsum : count + increment + n * increment = count + (n + 1) * increment := by
    rw [Nat.add_mul]
    omega
  rw [hsum] at hn ⊢
  apply h (n + 1)
  rcases hn with rfl | hle'
  · exact .inr (by omega)
  · exact .inr hle'

theorem CounterFamily.exists_plan (h : CounterFamily make max increment) (hpositive : 0 < increment.toNat)
    (count : UInt16) (hfits : CounterFits count.toNat max.toNat increment.toNat) :
    ∃ items, ∀ c, CountedPlan X c (make count) items := by
  -- The distance to the limit shrinks by the increment.
  induction hdistance : max.toNat - count.toNat using Nat.strong_induction_on generalizing count with
  | _ distance ih =>
    have hlt : count.toNat + increment.toNat < 2 ^ 16 := by simpa using hfits 0 (.inl rfl)
    obtain ⟨next, hnext⟩ : ∃ next, checkedAdd16 count increment = some next := by
      rw [checkedAdd16, if_pos hlt]
      exact ⟨_, rfl⟩
    have hvalue := checkedAdd16_eq_some_iff.1 hnext
    by_cases hle : next ≤ max
    · have hle' : count.toNat + increment.toNat ≤ max.toNat := hvalue ▸ UInt16.le_iff_toNat_le.1 hle
      obtain ⟨items, hitems⟩ := ih (max.toNat - next.toNat) (by omega) next
        (hvalue ▸ hfits.next hle') rfl
      refine ⟨make next :: items, CountedPlan.cons ?_ (h.phase next) ?_ ?_ ?_ hitems⟩
      · intro c
        rw [h.complete, hnext, Option.map_some, if_pos hle]
      · rw [h.counter, h.counter]
        omega
      · rw [h.counter, h.limit]
        exact UInt16.le_iff_toNat_le.1 hle
      · rw [h.limit, h.limit]
    · refine ⟨[], CountedPlan.last ?_⟩
      intro c
      rw [h.complete, hnext, Option.map_some, if_neg hle]

theorem CounterFamily.fits_of_plan (h : CounterFamily make max increment) {c : Controller} {count : UInt16}
    {items : List TestItem} (hplan : CountedPlan X c (make count) items) :
    CounterFits count.toNat max.toNat increment.toNat := by
  induction items generalizing c count with
  | nil =>
    obtain ⟨c₁, hcompleted, hmiddle⟩ := hplan.completeTest_eq
    rw [h.complete, Option.map_eq_some_iff] at hcompleted
    obtain ⟨next, hnext, rfl⟩ := hcompleted
    have hvalue := checkedAdd16_eq_some_iff.1 hnext
    have hlt := next.toNat_lt
    have hgt : max.toNat < next.toNat := by
      by_contra hle
      have hle : next ≤ max := UInt16.le_iff_toNat_le.2 (by omega)
      simp [setNextMidTestItem, if_pos hle] at hmiddle
    intro n hn
    rcases n with - | n
    · simpa using hvalue ▸ hlt
    · rw [Nat.add_mul] at hn
      omega
  | cons next items ih =>
    obtain ⟨c₁, hcompleted, hmiddle⟩ := hplan.completeTest_eq
    rw [h.complete, Option.map_eq_some_iff] at hcompleted
    obtain ⟨count', hnext, rfl⟩ := hcompleted
    have hvalue := checkedAdd16_eq_some_iff.1 hnext
    have hlt := count'.toNat_lt
    obtain ⟨hle, rfl⟩ : count' ≤ max ∧ make count' = next := by
      by_cases hle : count' ≤ max
      · simpa [setNextMidTestItem, hle] using hmiddle
      · simp [setNextMidTestItem, hle] at hmiddle
    obtain ⟨c', htail⟩ := hplan.tail ((h.limit _).trans (h.limit _).symm)
    have hfits := ih htail
    intro n hn
    rcases n with - | n
    · simpa using hvalue ▸ hlt
    · have hsum : count.toNat + (n + 1) * increment.toNat = count'.toNat + n * increment.toNat := by
        rw [Nat.add_mul, hvalue]
        omega
      rw [hsum] at hn ⊢
      apply hfits n
      rcases hn with hn | hle'
      · omega
      · exact .inr hle'

/-- Without an increment there is no plan past the first item. -/
theorem CounterFamily.increment_pos (h : CounterFamily make max increment) {c : Controller} {count : UInt16}
    {items : List TestItem} (hplan : CountedPlan X c (make count) items) (hle : count ≤ max) :
    0 < increment.toNat := by
  obtain ⟨c₁, hcompleted, hmiddle⟩ := hplan.completeTest_eq
  rw [h.complete, Option.map_eq_some_iff] at hcompleted
  obtain ⟨next, hnext, rfl⟩ := hcompleted
  have hvalue := checkedAdd16_eq_some_iff.1 hnext
  by_contra hzero
  have hsame : next = count := UInt16.toNat_inj.1 (by omega)
  subst hsame
  cases items with
  | nil => simp [setNextMidTestItem, hle] at hmiddle
  | cons next' items =>
    obtain rfl : make next = next' := by simpa [setNextMidTestItem, hle] using hmiddle
    have hincreasing := (List.pairwise_cons.1 hplan.increasing).1 _ List.mem_cons_self
    exact Nat.lt_irrefl _ hincreasing

/-! ### Counters of phases -/

/-- A family of items that is tested once in each phase. -/
structure PhaseFamily (behaviour : Round → UInt8 → MaliciousBehaviour) (maxPhase : UInt8) : Prop where
  complete : ∀ (c : Controller) round,
    c.completeTest (.malicious (behaviour round maxPhase)) = c.completePhase behaviour round maxPhase
  phase : ∀ phase, hasPhase (.malicious (behaviour (.otherRound phase) maxPhase)) = true
  counter : ∀ round, counter (.malicious (behaviour round maxPhase)) = roundNumber round
  limit : ∀ round, limit (.malicious (behaviour round maxPhase)) = maxPhase.toNat

variable {behaviour : Round → UInt8 → MaliciousBehaviour} {maxPhase : UInt8}

theorem PhaseFamily.exists_plan_other (h : PhaseFamily behaviour maxPhase) (phase : UInt8) :
    ∃ items, ∀ c, CountedPlan X c (.malicious (behaviour (.otherRound phase) maxPhase)) items := by
  induction hdistance : maxPhase.toNat - phase.toNat generalizing phase with
  | zero =>
    refine ⟨[], CountedPlan.last ?_⟩
    intro c
    have hnot : ¬ phase < maxPhase := fun hlt ↦ by
      have := UInt8.lt_iff_toNat_lt.1 hlt
      omega
    rw [h.complete, completePhase, if_neg hnot]
  | succ distance ih =>
    have hlt : phase.toNat < maxPhase.toNat := by omega
    have hmax := maxPhase.toNat_lt
    obtain ⟨next, hnext⟩ : ∃ next, checkedAdd8 phase 1 = some next := by
      rw [checkedAdd8, if_pos (show phase.toNat + (1 : UInt8).toNat < 2 ^ 8 by simp; omega)]
      exact ⟨_, rfl⟩
    have hvalue : next.toNat = phase.toNat + 1 := checkedAdd8_eq_some_iff.1 hnext
    obtain ⟨items, hitems⟩ := ih next (by omega)
    refine ⟨_ :: items, CountedPlan.cons ?_ (h.phase next) ?_ ?_ ?_ hitems⟩
    · intro c
      simp only [h.complete, completePhase, if_pos (UInt8.lt_iff_toNat_lt.2 hlt), hnext, bind, pure,
        Option.bind_some]
    · rw [h.counter, h.counter, roundNumber, roundNumber]
      omega
    · rw [h.counter, h.limit, roundNumber]
      omega
    · rw [h.limit, h.limit]

theorem PhaseFamily.exists_plan_first (h : PhaseFamily behaviour maxPhase) :
    ∃ items, ∀ c, CountedPlan X c (.malicious (behaviour .firstRound maxPhase)) items := by
  by_cases hpositive : 0 < maxPhase
  · obtain ⟨items, hitems⟩ := h.exists_plan_other (X := X) 1
    refine ⟨_ :: items, CountedPlan.cons ?_ (h.phase 1) ?_ ?_ ?_ hitems⟩
    · intro c
      rw [h.complete, completePhase, if_pos hpositive]
    · rw [h.counter, h.counter]
      exact Nat.zero_lt_one
    · rw [h.counter, h.limit]
      exact UInt8.lt_iff_toNat_lt.1 hpositive
    · rw [h.limit, h.limit]
  · refine ⟨[], CountedPlan.last ?_⟩
    intro c
    rw [h.complete, completePhase, if_neg hpositive]

/-! ## The plans of a configuration -/

/-- The number of nodes of a scalability test reaches its maximum within 16 bits, in steps that are not zero. -/
def StepsFit (max increment : ℕ) : Prop :=
  if increment = 0 then max = 0 else 1 + ((max - 1) / increment + 1) * increment < 2 ^ 16

instance (max increment : ℕ) : Decidable (StepsFit max increment) :=
  inferInstanceAs (Decidable (if increment = 0 then max = 0 else
    1 + ((max - 1) / increment + 1) * increment < 2 ^ 16))

/-- The counters that a configuration asks for fit. -/
structure BFTDiagnosisConfig.CountersFit (config : BFTDiagnosisConfig) : Prop where
  scalability : ∀ scalability ∈ config.scalability, scalability.enable = some true →
    StepsFit (scalability.max.getD 0).toNat (scalability.internal.getD 0).toNat
  crash : ∀ crash ∈ config.crash, crash.enable = some true → crash.max ≠ some 65535

theorem counterFits_iff {max increment : ℕ} (hpositive : 0 < increment) :
    CounterFits 1 max increment ↔ 1 + ((max - 1) / increment + 1) * increment < 2 ^ 16 := by
  have hsum (n : ℕ) : 1 + (n + 1) * increment = 1 + n * increment + increment := by
    rw [Nat.add_mul]
    omega
  constructor
  · intro hfits
    rw [hsum]
    apply hfits
    have hle := Nat.div_mul_le_self (max - 1) increment
    rcases Nat.eq_zero_or_pos max with rfl | hmax
    · exact .inl (Nat.zero_div _)
    · exact .inr (by omega)
  · intro hlast n hn
    have hle : n ≤ (max - 1) / increment := by
      rcases hn with rfl | hle
      · exact Nat.zero_le _
      · exact (Nat.le_div_iff_mul_le hpositive).2 (by omega)
    have hmul := Nat.mul_le_mul_right increment hle
    rw [hsum] at hlast
    omega

theorem exists_scalabilityPlan_iff {c : Controller} {max increment : UInt16} :
    (∃ items, CountedPlan X c (.scalability 1 max increment) items) ↔
      StepsFit max.toNat increment.toNat := by
  have hfamily := CounterFamily.scalability max increment
  unfold StepsFit
  split
  case isTrue hzero =>
    constructor
    · rintro ⟨items, hplan⟩
      by_contra hmax
      have hle : 1 ≤ max := UInt16.le_iff_toNat_le.2 (Nat.one_le_iff_ne_zero.2 hmax)
      exact Nat.ne_of_gt (hfamily.increment_pos hplan hle) hzero
    · intro hmax
      refine ⟨[], CountedPlan.last ?_ c⟩
      intro c
      have hincrement : increment = 0 := UInt16.toNat_inj.1 hzero
      have hnot : ¬ 1 ≤ max := fun hle ↦ by
        have := UInt16.le_iff_toNat_le.1 hle
        rw [hmax] at this
        exact absurd this (by decide)
      rw [hfamily.complete, hincrement]
      exact congrArg some (congrArg _ (if_neg hnot))
  case isFalse hne =>
    have hpositive := Nat.pos_of_ne_zero hne
    rw [← counterFits_iff hpositive]
    constructor
    · rintro ⟨items, hplan⟩
      exact hfamily.fits_of_plan hplan
    · intro hfits
      obtain ⟨items, hitems⟩ := hfamily.exists_plan (X := X) hpositive 1 hfits
      exact ⟨items, hitems c⟩

theorem exists_crashPlan_iff {c : Controller} {max : UInt16} :
    (∃ items, CountedPlan X c (.crash 0 max) items) ↔ max ≠ 65535 := by
  have hfamily := CounterFamily.crash max
  have hlt := max.toNat_lt
  have hmax : max ≠ 65535 ↔ max.toNat + 1 < 2 ^ 16 := by
    rw [ne_eq, ← UInt16.toNat_inj]
    change ¬ max.toNat = 65535 ↔ _
    omega
  rw [hmax]
  constructor
  · rintro ⟨items, hplan⟩
    have hfits := hfamily.fits_of_plan hplan max.toNat
    simpa using hfits (.inr (by simp))
  · intro hfit
    obtain ⟨items, hitems⟩ := hfamily.exists_plan (X := X) Nat.zero_lt_one 0 (by
      intro n hn
      simp only [UInt16.toNat_zero, UInt16.toNat_one, Nat.mul_one, Nat.zero_add] at hn ⊢
      omega)
    exact ⟨items, hitems c⟩

/-- The behaviours that are tested once in each phase always have a plan. -/
theorem exists_phasePlan {c : Controller} {numberOfPhase : UInt8} {name : String}
    {behaviour : MaliciousBehaviour} (h : behaviourOfName numberOfPhase name = some behaviour)
    (hcounted : isCounted (.malicious behaviour) = true) :
    ∃ items, CountedPlan X c (.malicious behaviour) items := by
  have hplan (behaviour : Round → UInt8 → MaliciousBehaviour) (hfamily : PhaseFamily behaviour numberOfPhase) :
      ∃ items, CountedPlan X c (.malicious (behaviour .firstRound numberOfPhase)) items := by
    obtain ⟨items, hitems⟩ := hfamily.exists_plan_first (X := X)
    exact ⟨items, hitems c⟩
  unfold behaviourOfName at h
  split at h
  case isTrue =>
    obtain rfl := Option.some.inj h
    exact hplan .leaderFeignDeath ⟨fun _ _ ↦ rfl, fun _ ↦ rfl, fun _ ↦ rfl, fun _ ↦ rfl⟩
  split at h
  case isFalse.isTrue =>
    obtain rfl := Option.some.inj h
    cases hcounted
  split at h
  case isFalse.isFalse.isTrue =>
    obtain rfl := Option.some.inj h
    exact hplan .leaderDelaySendMessage ⟨fun _ _ ↦ rfl, fun _ ↦ rfl, fun _ ↦ rfl, fun _ ↦ rfl⟩
  split at h
  case isFalse.isFalse.isFalse.isTrue =>
    obtain rfl := Option.some.inj h
    exact hplan .leaderSendDuplicateMessage ⟨fun _ _ ↦ rfl, fun _ ↦ rfl, fun _ ↦ rfl, fun _ ↦ rfl⟩
  split at h
  case isFalse.isFalse.isFalse.isFalse.isTrue =>
    obtain rfl := Option.some.inj h
    cases hcounted
  cases h

theorem foldl_addTestItem (items : List TestItem) (c : Controller) :
    items.foldl addTestItem c = { c with testItems := c.testItems ++ items } := by
  induction items generalizing c with
  | nil =>
    rw [List.append_nil]
    rfl
  | cons item items ih =>
    rw [List.foldl_cons, ih]
    simp only [addTestItem, List.append_assoc, List.singleton_append]

/-- The controller right after its configuration. -/
structure Configuration (config : BFTDiagnosisConfig) (c : Controller) : Prop where
  accepted : ∃ id analyzerId crashNode scalabilityNode dishonestNode,
    (Controller.new id analyzerId crashNode scalabilityNode dishonestNode).configure config = some c

theorem Configuration.testItems_eq {config : BFTDiagnosisConfig} {c : Controller} (h : Configuration config c) :
    ∃ malicious, maliciousItems config = some malicious ∧ c.testItems =
      (performanceItems config ++ scalabilityItems config ++ crashItems config ++ malicious).reverse := by
  obtain ⟨id, analyzerId, crashNode, scalabilityNode, dishonestNode, hconfigure⟩ := h.accepted
  obtain ⟨malicious, hmalicious, hresult⟩ := Option.bind_eq_some_iff.1 hconfigure
  refine ⟨malicious, hmalicious, ?_⟩
  rw [← Option.some.inj hresult, foldl_addTestItem]
  rfl

/-- Everything but the plan is as in a new controller. -/
theorem Configuration.exists_eq_new {config : BFTDiagnosisConfig} {c : Controller} (h : Configuration config c) :
    ∃ id analyzerId crashNode scalabilityNode dishonestNode testItems,
      c = { Controller.new id analyzerId crashNode scalabilityNode dishonestNode with testItems := testItems } := by
  obtain ⟨id, analyzerId, crashNode, scalabilityNode, dishonestNode, hconfigure⟩ := h.accepted
  obtain ⟨malicious, -, hresult⟩ := Option.bind_eq_some_iff.1 hconfigure
  refine ⟨id, analyzerId, crashNode, scalabilityNode, dishonestNode, c.testItems, ?_⟩
  rw [← Option.some.inj hresult, foldl_addTestItem]

theorem Configuration.mem_testItems {config : BFTDiagnosisConfig} {c : Controller} (h : Configuration config c) :
    ∃ malicious, maliciousItems config = some malicious ∧ ∀ {item}, item ∈ c.testItems ↔
      item ∈ performanceItems config ∨ item ∈ scalabilityItems config ∨ item ∈ crashItems config ∨
        item ∈ malicious := by
  obtain ⟨malicious, hmalicious, hplan⟩ := h.testItems_eq
  refine ⟨malicious, hmalicious, fun {item} ↦ ?_⟩
  rw [hplan, List.mem_reverse, List.mem_append, List.mem_append, List.mem_append, or_assoc, or_assoc]

theorem mem_scalabilityItems {config : BFTDiagnosisConfig} {item : TestItem} :
    item ∈ scalabilityItems config ↔ ∃ scalability ∈ config.scalability, scalability.enable = some true ∧
      item = .scalability 1 (scalability.max.getD 0) (scalability.internal.getD 0) := by
  unfold scalabilityItems
  cases config.scalability with
  | none => simp
  | some scalability => by_cases henable : scalability.enable = some true <;> simp [henable]

theorem mem_crashItems {config : BFTDiagnosisConfig} {item : TestItem} :
    item ∈ crashItems config ↔ ∃ crash ∈ config.crash, crash.enable = some true ∧
      item = .crash 0 (crash.max.getD 0) := by
  unfold crashItems
  cases config.crash with
  | none => simp
  | some crash => by_cases henable : crash.enable = some true <;> simp [henable]

theorem mem_maliciousItems {config : BFTDiagnosisConfig} {malicious : List TestItem} {item : TestItem}
    (h : maliciousItems config = some malicious) (hitem : item ∈ malicious) :
    ∃ numberOfPhase name behaviour, behaviourOfName numberOfPhase name = some behaviour ∧
      item = .malicious behaviour := by
  unfold maliciousItems at h
  split at h
  case h_2 =>
    obtain rfl := Option.some.inj h
    cases hitem
  case h_1 section_ _ =>
    split at h
    case isFalse =>
      obtain rfl := Option.some.inj h
      cases hitem
    case isTrue =>
      split at h
      case h_2 =>
        obtain rfl := Option.some.inj h
        cases hitem
      case h_1 behaviours _ =>
        obtain ⟨numberOfPhase, -, hresult⟩ := Option.bind_eq_some_iff.1 h
        obtain rfl := Option.some.inj hresult
        obtain ⟨behaviour, hbehaviour, rfl⟩ := List.mem_map.1 hitem
        obtain ⟨name, -, hname⟩ := List.mem_filterMap.1 hbehaviour
        exact ⟨numberOfPhase, name, behaviour, hname, rfl⟩

theorem isCounted_of_mem_performanceItems {config : BFTDiagnosisConfig} {item : TestItem}
    (h : item ∈ performanceItems config) : isCounted item = false := by
  unfold performanceItems at h
  dsimp only at h
  split_ifs at h with hboth hthroughput hlatency
  · rw [List.mem_singleton.1 h]
    rfl
  · rw [List.mem_singleton.1 h]
    rfl
  · rw [List.mem_singleton.1 h]
    rfl
  · cases h

variable (X) in
/-- Wherever a run of the controller has got to: the middle items of every counted item of the plan end, and
their counters increase up to the limit. -/
def CountedPlansEnd (c : Controller) : Prop :=
  ∀ item ∈ c.testItems, isCounted item = true → ∀ run c', IsRun (step X) c run c' →
    ∃ items, CountedPlan X c' item items

/-- The counted tests of a configuration end if and only if its counters fit. -/
theorem countedPlansEnd_iff {config : BFTDiagnosisConfig} {c : Controller} (h : Configuration config c) :
    CountedPlansEnd X c ↔ config.CountersFit := by
  obtain ⟨malicious, hmalicious, hmem⟩ := h.mem_testItems
  constructor
  · intro hends
    constructor
    · intro scalability hscalability henable
      have hitem := mem_scalabilityItems.2 ⟨scalability, hscalability, henable, rfl⟩
      exact exists_scalabilityPlan_iff.1 (hends _ (hmem.2 (.inr (.inl hitem))) rfl [] c .nil)
    · intro crash hcrash henable
      have hitem := mem_crashItems.2 ⟨crash, hcrash, henable, rfl⟩
      have hmax := exists_crashPlan_iff.1 (hends _ (hmem.2 (.inr (.inr (.inl hitem)))) rfl [] c .nil)
      rintro heq
      exact hmax (by rw [heq]; rfl)
  · intro hfit item hitem hcounted run c' _
    rcases hmem.1 hitem with hperformance | hscalability | hcrash | hitem
    · rw [isCounted_of_mem_performanceItems hperformance] at hcounted
      cases hcounted
    · obtain ⟨scalability, hsome, henable, rfl⟩ := mem_scalabilityItems.1 hscalability
      exact exists_scalabilityPlan_iff.2 (hfit.scalability scalability hsome henable)
    · obtain ⟨crash, hsome, henable, rfl⟩ := mem_crashItems.1 hcrash
      apply exists_crashPlan_iff.2
      intro hmax
      apply hfit.crash crash hsome henable
      cases hcase : crash.max with
      | none => simp [hcase] at hmax
      | some max => simpa [hcase] using hmax
    · obtain ⟨numberOfPhase, name, behaviour, hname, rfl⟩ := mem_maliciousItems hmalicious hitem
      exact exists_phasePlan hname hcounted

/-- A controller with a peer id of one byte for everything that is random. -/
def fresh : Controller := .new [100] [101] [102] [103] [104]

/-- That controller with a configuration. -/
def freshWith (config : BFTDiagnosisConfig) : Controller := (fresh.configure config).getD fresh

theorem configuration_freshWith {config : BFTDiagnosisConfig} (h : (fresh.configure config).isSome = true) :
    Configuration config (freshWith config) := by
  obtain ⟨c, hc⟩ := Option.isSome_iff_exists.1 h
  exact ⟨_, _, _, _, _, by rw [freshWith, hc]; exact hc⟩

/-- The input with a walk that can be evaluated. -/
def Input.sorted (input : Input) : Event := ⟨input, Walk.ofKey Bytes.key Bytes.key_injective⟩

/-- A scalability test with up to five nodes, a crash test with up to two, and one test in each of two phases. -/
def countedConfig : BFTDiagnosisConfig where
  throughput := some ⟨some true⟩
  latency := none
  scalability := some ⟨some true, some 5, some 2⟩
  crash := some ⟨some true, some 2⟩
  malicious := some ⟨some true, some 2, some ["LeaderFeignDeath"]⟩

/-- The plan of that configuration, in the order in which it is taken. -/
def countedItems : List TestItem :=
  [.throughput, .scalability 1 5 2, .crash 0 2, .malicious (.leaderFeignDeath .firstRound 2)]

theorem countedPlansEnd_iff_countedConfig :
    (fresh.configure countedConfig).isSome = true ∧ (freshWith countedConfig).testItems = countedItems.reverse ∧
      CountedPlansEnd Externals.transparent (freshWith countedConfig) := by
  have haccepted : (fresh.configure countedConfig).isSome = true := by decide
  refine ⟨haccepted, by decide, (countedPlansEnd_iff (configuration_freshWith haccepted)).2 ⟨?_, ?_⟩⟩
  · rintro scalability ⟨⟩ -
    decide
  · rintro crash ⟨⟩ -
    decide

/-- The increment of the scalability test is left out. -/
def defaultIncrementConfig : BFTDiagnosisConfig where
  throughput := none
  latency := none
  scalability := some ⟨some true, some 4, none⟩
  crash := none
  malicious := none

theorem not_countedPlansEnd_of_default_increment :
    Configuration defaultIncrementConfig (freshWith defaultIncrementConfig) ∧
      ¬ CountedPlansEnd Externals.transparent (freshWith defaultIncrementConfig) := by
  refine ⟨configuration_freshWith (by decide), fun hends ↦ ?_⟩
  have hplan := hends (.scalability 1 4 0) (by decide) rfl [] _ .nil
  exact absurd (exists_scalabilityPlan_iff.1 hplan) (by decide)

end BFTDiagnosis.Controller
