import BFTDiagnosis.Lib.Answers
import BFTDiagnosis.Honeybadger.Delivery
import BFTDiagnosis.Honeybadger.Epochs

/-!
# The subset state of a proposer

The four states of `State` in `state.rs`, which feed the broadcast and the binary agreement of one proposer.
When the agreement accepts the proposer before the broadcast has a value, the messages of the broadcast are
no longer handled, and the state is never complete.
-/

namespace BFTDiagnosis.Honeybadger

inductive SubsetState where
  | ongoing (rbc : Broadcast) (aba : BinaryAgreement)
  | getValue (value : Bytes) (aba : BinaryAgreement)
  | accepted (rbc : Broadcast)
  | complete (accepted : Bool)

namespace SubsetState

variable (X : Externals)

def new (netinfo : Network) (nonce : ℕ) (proposerId : String) : SubsetState :=
  ongoing (Broadcast.new X netinfo.id netinfo) (BinaryAgreement.new netinfo nonce proposerId)

/-- The method `complete`. -/
def isComplete : SubsetState → Bool
  | complete _ => true
  | _ => false

/-- Once the proposer is accepted, a message is not given to the broadcast. -/
def handleBroadcast (state : SubsetState) (senderId : String) (msg : RbcMessage) :
    Option (SubsetState × List Payload) :=
  match state with
  | ongoing rbc aba => do
    let (rbc, (out, value)) ← rbc.handleMessage X senderId msg
    match value with
    | some value =>
      let (aba, out') := aba.propose X true
      return (getValue value aba, out.map .subset ++ out')
    | none => return (ongoing rbc aba, out.map .subset)
  | accepted rbc =>
    match rbc.getOutput with
    | some _ => some (complete true, [])
    | none => some (accepted rbc, [])
  | state => some (state, [])

def handleAgreement (state : SubsetState) (senderId : String) (msg : AgreementMessage) :
    Option (SubsetState × List Payload) :=
  match state with
  | ongoing rbc aba => do
    let (aba, (out, decision)) ← aba.handleMessage X senderId msg
    match decision with
    | some true => return (accepted rbc, out)
    | some false => return (complete false, out)
    | none => return (ongoing rbc aba, out)
  | getValue value aba => do
    let (aba, (out, decision)) ← aba.handleMessage X senderId msg
    match decision with
    | some decision => return (complete decision, out)
    | none => return (getValue value aba, out)
  | state => some (state, [])

/-- Requests and replies are a `todo!()`. -/
def handleMessage (state : SubsetState) (senderId : String) (msg : SubsetContent) :
    Option (SubsetState × List Payload) :=
  match msg with
  | .broadcast _ msg => state.handleBroadcast X senderId msg
  | .agreement _ msg => state.handleAgreement X senderId msg
  | _ => none

end SubsetState

/-- A message of a subset instance and the node it comes from. -/
structure SubsetDelivery where
  source : String
  content : SubsetContent
  deriving DecidableEq

namespace SubsetDelivery

def broadcast (delivery : SubsetDelivery) : Option Delivery :=
  match delivery.content with
  | .broadcast _ msg => some ⟨delivery.source, msg⟩
  | _ => none

def agreement (delivery : SubsetDelivery) : Option (String × AgreementMessage) :=
  match delivery.content with
  | .agreement _ msg => some (delivery.source, msg)
  | _ => none

end SubsetDelivery

def SubsetState.step (X : Externals) (state : SubsetState) (delivery : SubsetDelivery) :
    Option (SubsetState × List Payload) :=
  state.handleMessage X delivery.source delivery.content

/-- The broadcast after its messages alone. -/
def broadcastAfter (X : Externals) (rbc : Broadcast) (messages : List SubsetDelivery) : Option Broadcast :=
  stateAfter (Broadcast.step X) rbc (messages.filterMap (·.broadcast))

/-- The agreement after its messages alone. -/
def agreementAfter (X : Externals) (aba : BinaryAgreement) (messages : List SubsetDelivery) : Option BinaryAgreement :=
  stateAfter (fun aba m ↦ aba.handleMessage X m.1 m.2) aba (messages.filterMap (·.agreement))

/-- The broadcast messages alone lead to an output. -/
def Delivers (X : Externals) (rbc : Broadcast) (messages : List SubsetDelivery) : Prop :=
  ∃ rbc', broadcastAfter X rbc messages = some rbc' ∧ rbc'.decided = true

/-- The agreement messages alone lead to the decision. -/
def Decides (X : Externals) (aba : BinaryAgreement) (messages : List SubsetDelivery) (b : Bool) : Prop :=
  ∃ aba', agreementAfter X aba messages = some aba' ∧ aba'.decision = some b

/-- The messages are of the two halves. -/
def OfHalves (messages : List SubsetDelivery) : Prop :=
  ∀ m ∈ messages, m.broadcast.isSome = true ∨ m.agreement.isSome = true

instance OfHalves.decidable (messages : List SubsetDelivery) : Decidable (OfHalves messages) :=
  inferInstanceAs (Decidable (∀ m ∈ messages, _ ∨ _))

/-- The two halves of a state that is ongoing: neither has a result. -/
structure Halves (X : Externals) (rbc : Broadcast) (aba : BinaryAgreement) : Prop where
  undelivered : rbc.decided = false
  undecided : aba.decision = none
  reached : ∃ netinfo nonce proposerId run,
    IsRun (BinaryAgreement.step X) (BinaryAgreement.new netinfo nonce proposerId) run aba

/-! ## The agreement without a proposal -/

/-- The same but for the estimated value. -/
def Alike (aba aba' : BinaryAgreement) : Prop := ∃ estimated, aba' = { aba with estimated := estimated }

section Agreement

variable {X : Externals} {aba aba' : BinaryAgreement} {source : String}

theorem Alike.decision (h : Alike aba aba') : aba'.decision = aba.decision := by
  obtain ⟨_, rfl⟩ := h
  rfl

/-- Before there is a decision, a proposal changes the estimated value at most. -/
theorem alike_propose {netinfo : Network} {nonce : ℕ} {proposerId : String} {run : AgreementRun}
    (h : IsRun (BinaryAgreement.step X) (BinaryAgreement.new netinfo nonce proposerId) run aba)
    (hundecided : aba.decision = none) (input : Bool) : Alike aba (aba.propose X input).1 := by
  unfold BinaryAgreement.propose
  split
  case isTrue => exact ⟨aba.estimated, rfl⟩
  case isFalse hcan =>
    rcases epochZero_or_epochOne h with ⟨-, hzero⟩ | ⟨-, hone⟩
    · have hnone (b : Bool) :
          ({ aba with estimated := some input } : BinaryAgreement).baBroadcast.output.contains b = false :=
        (hzero.undecided hundecided).2 b
      refine ⟨some input, ?_⟩
      dsimp only
      rw [BinaryAgreement.handleBabroadcastSync_of_none hnone]
    · exact absurd (by simp [BinaryAgreement.canPropose, hone.epoch]) hcan

/-- What an instance returns before its decision is the decision. -/
theorem handleMessage_decision {msg : AgreementMessage} {out : AgreementOut} (hundecided : aba.decision = none)
    (h : aba.handleMessage X source msg = some (aba', out)) : out.2 = aba'.decision := by
  rcases BinaryAgreement.handleMessage_cases h with ⟨-, -, rfl, rfl⟩ | ⟨-, hqueued, rfl⟩ | ⟨-, -, hout⟩
  · exact hundecided.symm
  · obtain ⟨received, -, rfl⟩ := BinaryAgreement.eq_of_enqueue hqueued
    exact hundecided.symm
  · exact hout

/-- A decision is kept. -/
theorem handleMessage_of_decided {b : Bool} (hdecided : aba.decision = some b) (msg : AgreementMessage) :
    aba.handleMessage X source msg = some (aba, ([], none)) := by
  apply BinaryAgreement.handleMessage_of_other
  · intro hcurrent
    cases hdecided.symm.trans hcurrent.1
  · intro hlater
    cases hdecided.symm.trans hlater.1

/-- An instance without a decision knows the coin and has set no values. -/
theorem coin_and_values {netinfo : Network} {nonce : ℕ} {proposerId : String} {run : AgreementRun}
    (h : IsRun (BinaryAgreement.step X) (BinaryAgreement.new netinfo nonce proposerId) run aba)
    (hundecided : aba.decision = none) : (∃ coin, aba.coinState = .decided coin) ∧ aba.confValues = none := by
  rcases epochZero_or_epochOne h with ⟨-, hzero⟩ | ⟨-, hone⟩
  · exact ⟨hzero.coin, (hzero.undecided hundecided).1⟩
  · exact ⟨hone.coin, hone.confValues⟩

theorem alike_handleBabroadcastSync (h : Alike aba aba') (hundecided : aba.decision = none)
    (hcoin : ∃ coin, aba.coinState = .decided coin) (hconf : aba.confValues = none) :
    AnsweredAlike Alike (some (aba.handleBabroadcastSync X)) (some (aba'.handleBabroadcastSync X)) := by
  obtain ⟨estimated, rfl⟩ := h
  obtain ⟨coin, hcoin⟩ := hcoin
  -- what the handler looks at is the same in both
  have hundecided' : ({ aba with estimated := estimated } : BinaryAgreement).decision = none := hundecided
  have hcoin' : ({ aba with estimated := estimated } : BinaryAgreement).coinState = .decided coin := hcoin
  have hconf' : ({ aba with estimated := estimated } : BinaryAgreement).confValues = none := hconf
  by_cases hnone : ∀ b, aba.baBroadcast.output.contains b = false
  · have hnone' : ∀ b, ({ aba with estimated := estimated } : BinaryAgreement).baBroadcast.output.contains b = false :=
      hnone
    rw [BinaryAgreement.handleBabroadcastSync_of_none hnone, BinaryAgreement.handleBabroadcastSync_of_none hnone']
    exact ⟨⟨estimated, rfl⟩, rfl⟩
  · obtain ⟨b, hb⟩ := not_forall.1 hnone
    rw [Bool.not_eq_false] at hb
    have hsome' : ∃ b, ({ aba with estimated := estimated } : BinaryAgreement).baBroadcast.output.contains b = true :=
      ⟨b, hb⟩
    rw [BinaryAgreement.handleBabroadcastSync_of_decided ⟨b, hb⟩ hconf hundecided hcoin,
      BinaryAgreement.handleBabroadcastSync_of_decided hsome' hconf' hundecided' hcoin']
    by_cases hagrees : aba.baBroadcast.output.definite = some coin
    · rw [if_pos hagrees, if_pos hagrees]
      exact ⟨⟨estimated, rfl⟩, rfl⟩
    · -- the next epoch sets the estimated value
      rw [if_neg hagrees, if_neg hagrees]
      exact ⟨⟨_, rfl⟩, rfl⟩

theorem alike_handleMessageContent (h : Alike aba aba') (hundecided : aba.decision = none)
    (hcoin : ∃ coin, aba.coinState = .decided coin) (hconf : aba.confValues = none) (content : AbaMessage) :
    AnsweredAlike Alike (aba.handleMessageContent X source content) (aba'.handleMessageContent X source content) := by
  obtain ⟨estimated, rfl⟩ := id h
  have hcoin' : ∃ coin, ({ aba with estimated := estimated } : BinaryAgreement).coinState = .decided coin := hcoin
  have hconf' : ({ aba with estimated := estimated } : BinaryAgreement).confValues = none := hconf
  cases content with
  | baBroadcast id msg =>
    apply AnsweredAlike.bind
    rintro ⟨bv, sent⟩
    have hbroadcast : Alike { aba with baBroadcast := bv } { aba with baBroadcast := bv, estimated := estimated } :=
      ⟨estimated, rfl⟩
    have hsync := alike_handleBabroadcastSync (X := X) hbroadcast hundecided hcoin hconf
    exact ⟨hsync.1, congrArg (sent ++ ·) hsync.2⟩
  | conf id values =>
    simp only [BinaryAgreement.handleMessageContent, handleConf_of_decided hcoin, handleConf_of_decided hcoin']
    exact ⟨⟨estimated, rfl⟩, rfl⟩
  | term id value => exact ⟨h, rfl⟩
  | coin id value =>
    simp only [BinaryAgreement.handleMessageContent, handleCoin_of_decided hcoin hconf,
      handleCoin_of_decided hcoin' hconf']
    exact ⟨⟨estimated, rfl⟩, rfl⟩
  | signature id sig => exact ⟨⟨estimated, rfl⟩, rfl⟩

/-- The estimated value makes no difference to what a message does. -/
theorem alike_handleMessage (h : Alike aba aba') (hundecided : aba.decision = none)
    (hcoin : ∃ coin, aba.coinState = .decided coin) (hconf : aba.confValues = none) (msg : AgreementMessage) :
    AnsweredAlike Alike (aba.handleMessage X source msg) (aba'.handleMessage X source msg) := by
  obtain ⟨estimated, rfl⟩ := id h
  by_cases hcurrent : aba.Current msg
  · have hcurrent' : ({ aba with estimated := estimated } : BinaryAgreement).Current msg := hcurrent
    rw [BinaryAgreement.handleMessage_of_current hcurrent, BinaryAgreement.handleMessage_of_current hcurrent']
    apply (alike_handleMessageContent h hundecided hcoin hconf msg.content).mapState fun s out ↦ (out, s.decision)
    intro s s' out hsame
    rw [hsame.decision]
  · by_cases hlater : aba.Later msg
    · have hlater' : ({ aba with estimated := estimated } : BinaryAgreement).Later msg := hlater
      rw [BinaryAgreement.handleMessage_of_later hlater, BinaryAgreement.handleMessage_of_later hlater']
      simp only [BinaryAgreement.enqueue, bind, Option.map_bind]
      apply AnsweredAlike.bind
      exact fun received ↦ ⟨⟨estimated, rfl⟩, rfl⟩
    · have hcurrent' : ¬ ({ aba with estimated := estimated } : BinaryAgreement).Current msg := hcurrent
      have hlater' : ¬ ({ aba with estimated := estimated } : BinaryAgreement).Later msg := hlater
      rw [BinaryAgreement.handleMessage_of_other hcurrent hlater,
        BinaryAgreement.handleMessage_of_other hcurrent' hlater']
      exact ⟨h, rfl⟩

end Agreement

/-! ## Runs of the state -/

section States

variable {X : Externals} {rbc : Broadcast} {aba aba' : BinaryAgreement} {messages : List SubsetDelivery} {b : Bool}

/-- The output of the broadcast is never taken back. -/
theorem decided_step {rbc' : Broadcast} {delivery : Delivery} {out : BroadcastOut} (hdecided : rbc.decided = true)
    (htaken : rbc.step X delivery = some (rbc', out)) : rbc'.decided = true := by
  have hstepped := (Broadcast.step_cases htaken).1
  generalize out.1 = sent at hstepped
  cases hstepped with
  | echo => exact hdecided
  | ready _ _ after _ =>
    split at after
    case isTrue =>
      simp only [Broadcast.outputValue, bind, pure, Option.bind_eq_some_iff] at after
      obtain ⟨_, -, result, -, hresult⟩ := after
      cases result with
      | none =>
        rw [← Option.some.inj hresult]
        exact hdecided
      | some value => rw [← Option.some.inj hresult]
    case isFalse =>
      rw [← Option.some.inj after]
      exact hdecided
  | value => exact hdecided
  | other => exact hdecided

/-- A state that is complete stays as it is. -/
theorem after_complete (hparts : OfHalves messages) (c : Bool) :
    stateAfter (SubsetState.step X) (.complete c) messages = some (.complete c) := by
  apply stateAfter_eq_self
  rintro ⟨source, content⟩ hm
  cases content with
  | broadcast id msg => exact ⟨[], rfl⟩
  | agreement id msg => exact ⟨[], rfl⟩
  | request msg | reply id value => rcases hparts _ hm with h | h <;> cases h

/-- A state that is accepted without a value stays as it is, whatever comes. -/
theorem after_accepted (hparts : OfHalves messages) (hundelivered : rbc.decided = false) :
    stateAfter (SubsetState.step X) (.accepted rbc) messages = some (.accepted rbc) := by
  have hnone : rbc.getOutput = none := by
    rw [Broadcast.getOutput, hundelivered]
    rfl
  apply stateAfter_eq_self
  rintro ⟨source, content⟩ hm
  cases content with
  | broadcast id msg =>
    refine ⟨[], ?_⟩
    simp only [SubsetState.step, SubsetState.handleMessage, SubsetState.handleBroadcast, hnone]
  | agreement id msg => exact ⟨[], rfl⟩
  | request msg | reply id value => rcases hparts _ hm with h | h <;> cases h

/-- A decision stays as it is. -/
theorem agreementAfter_of_decided (hdecided : aba.decision = some b) (messages : List SubsetDelivery) :
    agreementAfter X aba messages = some aba :=
  stateAfter_eq_self fun m _ ↦ ⟨_, handleMessage_of_decided hdecided m.2⟩

theorem decides_iff_of_decided {c : Bool} (hdecided : aba.decision = some c) :
    Decides X aba messages b ↔ c = b := by
  rw [Decides, agreementAfter_of_decided hdecided]
  constructor
  · rintro ⟨_, hsame, hb⟩
    rw [← Option.some.inj hsame, hdecided] at hb
    exact Option.some.inj hb
  · rintro rfl
    exact ⟨aba, rfl, hdecided⟩

theorem not_decides_nil (hundecided : aba.decision = none) : ¬ Decides X aba [] b := by
  rintro ⟨_, hsame, hb⟩
  rw [← Option.some.inj hsame, hundecided] at hb
  cases hb

/-- An output that is there at the start is there after any of the messages. -/
theorem delivers_of_append {rbc' : Broadcast} {first : List SubsetDelivery} (hdecided : rbc.decided = true)
    (hafter : broadcastAfter X rbc messages = some rbc') (hfirst : first <+: messages) : Delivers X rbc first := by
  obtain ⟨rest, rfl⟩ := hfirst
  rw [broadcastAfter, List.filterMap_append] at hafter
  obtain ⟨mid, hmid, -⟩ := exists_stateAfter_of_append hafter
  exact ⟨mid, hmid, stateAfter_induction (fun _ _ _ _ ↦ decided_step) hdecided hmid⟩

/-! ### Single steps -/

/-- A first part of a list with one more element in front is empty or has that element in front. -/
theorem forall_prefix_cons_iff {α : Type} {P : List α → Prop} {m : α} {rest : List α} (hnil : P []) :
    (∀ first, first <+: m :: rest → P first) ↔ ∀ first, first <+: rest → P (m :: first) := by
  constructor
  · intro h first hfirst
    exact h (m :: first) (List.cons_prefix_cons.2 ⟨rfl, hfirst⟩)
  · intro h first hfirst
    rcases List.prefix_cons_iff.1 hfirst with rfl | ⟨tail, rfl, htail⟩
    · exact hnil
    · exact h tail htail

section Steps

variable {source id : String}

theorem step_getValue {value : Bytes} {next : BinaryAgreement} {msg : AgreementMessage} {out : AgreementOut}
    (htaken : aba.handleMessage X source msg = some (next, out)) :
    (SubsetState.step X (.getValue value aba) ⟨source, .agreement id msg⟩).map Prod.fst = some (match out.2 with
      | some c => .complete c
      | none => .getValue value next) := by
  simp only [SubsetState.step, SubsetState.handleMessage, SubsetState.handleAgreement, htaken, bind, pure,
    Option.bind_some]
  cases out.2 <;> rfl

theorem step_ongoing_agreement {next : BinaryAgreement} {msg : AgreementMessage} {out : AgreementOut}
    (htaken : aba.handleMessage X source msg = some (next, out)) :
    (SubsetState.step X (.ongoing rbc aba) ⟨source, .agreement id msg⟩).map Prod.fst = some (match out.2 with
      | some true => .accepted rbc
      | some false => .complete false
      | none => .ongoing rbc next) := by
  simp only [SubsetState.step, SubsetState.handleMessage, SubsetState.handleAgreement, htaken, bind, pure,
    Option.bind_some]
  rcases out.2 with _ | _ | _ <;> rfl

theorem step_ongoing_broadcast {next : Broadcast} {msg : RbcMessage} {out : BroadcastOut}
    (htaken : rbc.step X ⟨source, msg⟩ = some (next, out)) :
    (SubsetState.step X (.ongoing rbc aba) ⟨source, .broadcast id msg⟩).map Prod.fst = some (match out.2 with
      | some value => .getValue value (aba.propose X true).1
      | none => .ongoing next aba) := by
  change rbc.handleMessage X source msg = _ at htaken
  simp only [SubsetState.step, SubsetState.handleMessage, SubsetState.handleBroadcast, htaken, bind, pure,
    Option.bind_some]
  cases out.2 <;> rfl

theorem delivers_cons_iff {next : Broadcast} {msg : RbcMessage} {out : BroadcastOut}
    (htaken : rbc.step X ⟨source, msg⟩ = some (next, out)) :
    Delivers X rbc (⟨source, .broadcast id msg⟩ :: messages) ↔ Delivers X next messages := by
  have hsame : broadcastAfter X rbc (⟨source, .broadcast id msg⟩ :: messages) = broadcastAfter X next messages :=
    stateAfter_cons (by rw [htaken]; rfl) _
  rw [Delivers, hsame, Delivers]

theorem decides_cons_iff {next : BinaryAgreement} {msg : AgreementMessage} {out : AgreementOut}
    (htaken : aba.handleMessage X source msg = some (next, out)) :
    Decides X aba (⟨source, .agreement id msg⟩ :: messages) b ↔ Decides X next messages b := by
  have hsame : agreementAfter X aba (⟨source, .agreement id msg⟩ :: messages) = agreementAfter X next messages :=
    stateAfter_cons (by rw [htaken]; rfl) _
  rw [Decides, hsame, Decides]

end Steps

/-- With the value there, the agreement completes the state. -/
theorem after_getValue {netinfo : Network} {nonce : ℕ} {proposerId : String} {run : AgreementRun}
    (hrun : IsRun (BinaryAgreement.step X) (BinaryAgreement.new netinfo nonce proposerId) run aba)
    (hundecided : aba.decision = none) (halike : Alike aba aba') (hparts : OfHalves messages)
    (hdecides : Decides X aba messages b) (value : Bytes) :
    stateAfter (SubsetState.step X) (.getValue value aba') messages = some (.complete b) := by
  induction messages generalizing run aba aba' with
  | nil => exact absurd hdecides (not_decides_nil hundecided)
  | cons m rest ih =>
    obtain ⟨hm, hrest⟩ := List.forall_mem_cons.1 hparts
    obtain ⟨source, content⟩ := m
    cases content with
    | broadcast id msg => exact ih hrun hundecided halike hrest hdecides
    | agreement id msg =>
      obtain ⟨final, hfinal, hb⟩ := hdecides
      obtain ⟨⟨next, out⟩, htaken, hafter⟩ := Option.bind_eq_some_iff.1 hfinal
      change aba.handleMessage X source msg = some (next, out) at htaken
      obtain ⟨hcoin, hconf⟩ := coin_and_values hrun hundecided
      obtain ⟨next', htaken', hnext⟩ :=
        (alike_handleMessage halike hundecided hcoin hconf msg).exists_of_eq_some htaken
      have hstepped : aba.step X (.message source msg) = some (next, out) := htaken
      rw [stateAfter_cons (step_getValue htaken'), handleMessage_decision hundecided htaken]
      cases hdecision : next.decision with
      | none => exact ih (.snoc hrun hstepped) hdecision hnext hrest ⟨final, hafter, hb⟩
      | some c =>
        rw [← (decides_iff_of_decided hdecision).1 ⟨final, hafter, hb⟩]
        exact after_complete hrest c
    | request msg | reply id value => rcases hm with h | h <;> cases h

/-- An ongoing state given messages for both halves that alone lead to an output and a decision: it is
complete with the decision, unless the decision is to accept and is there before the output. -/
theorem after_ongoing_iff (h : Halves X rbc aba) (hparts : OfHalves messages) (hdelivers : Delivers X rbc messages)
    (hdecides : Decides X aba messages b) :
    stateAfter (SubsetState.step X) (.ongoing rbc aba) messages = some (.complete b) ↔
      b = false ∨ ∀ first, first <+: messages → Decides X aba first b → Delivers X rbc first := by
  induction messages generalizing rbc aba with
  | nil => exact absurd hdecides (not_decides_nil h.undecided)
  | cons m rest ih =>
    obtain ⟨hm, hrest⟩ := List.forall_mem_cons.1 hparts
    obtain ⟨source, content⟩ := m
    cases content with
    | broadcast id msg =>
      obtain ⟨final, hfinal, hdone⟩ := hdelivers
      obtain ⟨⟨next, out⟩, htaken, hafter⟩ := Option.bind_eq_some_iff.1 hfinal
      have hout : out.2 = next.getOutput := (Broadcast.step_cases htaken).2
      rw [stateAfter_cons (step_ongoing_broadcast htaken), hout, Broadcast.getOutput,
        forall_prefix_cons_iff fun hdecided ↦ absurd hdecided (not_decides_nil h.undecided)]
      simp only [delivers_cons_iff htaken]
      cases hnext : next.decided with
      | false => exact ih ⟨hnext, h.undecided, h.reached⟩ hrest ⟨final, hafter, hdone⟩ hdecides
      | true =>
        -- the output is there, so the agreement completes the state
        obtain ⟨netinfo, nonce, proposerId, run, hrun⟩ := h.reached
        have hproposed := alike_propose hrun h.undecided true
        have hcomplete := after_getValue hrun h.undecided hproposed hrest hdecides next.output
        exact iff_of_true hcomplete (.inr fun first hfirst _ ↦ delivers_of_append hnext hafter hfirst)
    | agreement id msg =>
      obtain ⟨final, hfinal, hb⟩ := hdecides
      obtain ⟨⟨next, out⟩, htaken, hafter⟩ := Option.bind_eq_some_iff.1 hfinal
      change aba.handleMessage X source msg = some (next, out) at htaken
      rw [stateAfter_cons (step_ongoing_agreement htaken), handleMessage_decision h.undecided htaken,
        forall_prefix_cons_iff fun hdecided ↦ absurd hdecided (not_decides_nil h.undecided)]
      simp only [decides_cons_iff htaken]
      cases hdecision : next.decision with
      | none =>
        obtain ⟨netinfo, nonce, proposerId, run, hrun⟩ := h.reached
        have hstepped : aba.step X (.message source msg) = some (next, out) := htaken
        have hnext : Halves X rbc next :=
          ⟨h.undelivered, hdecision, netinfo, nonce, proposerId, _, hrun.snoc hstepped⟩
        exact ih hnext hrest hdelivers ⟨final, hafter, hb⟩
      | some c =>
        obtain rfl : c = b := (decides_iff_of_decided hdecision).1 ⟨final, hafter, hb⟩
        cases c with
        | false => exact iff_of_true (after_complete hrest false) (.inl rfl)
        | true =>
          -- the value is still missing, and no message is given to the broadcast any more
          have hstuck := after_accepted (X := X) hrest h.undelivered
          refine iff_of_false (by rw [hstuck]; rintro ⟨⟩) ?_
          rintro (hfalse | hall)
          · cases hfalse
          · have hfirst : Decides X next [] true := (decides_iff_of_decided hdecision).2 rfl
            obtain ⟨_, hsame, hdecided⟩ := hall [] List.nil_prefix hfirst
            rw [← Option.some.inj hsame, h.undelivered] at hdecided
            cases hdecided
    | request msg | reply id value => rcases hm with h | h <;> cases h

/-- The two halves of every ongoing state have no result yet. -/
theorem halves_of_isRun {netinfo : Network} {nonce : ℕ} {proposerId : String}
    {run : List (Transition SubsetState SubsetDelivery (List Payload))} {state : SubsetState}
    (h : IsRun (SubsetState.step X) (SubsetState.new X netinfo nonce proposerId) run state) :
    ∀ rbc aba, state = .ongoing rbc aba → Halves X rbc aba := by
  induction h with
  | nil =>
    rintro rbc aba hongoing
    obtain ⟨rfl, rfl⟩ := SubsetState.ongoing.inj hongoing
    exact ⟨rfl, rfl, netinfo, nonce, proposerId, [], .nil⟩
  | @snoc run state state' delivery out previous taken ih =>
    rintro rbc' aba' rfl
    obtain ⟨source, content⟩ := delivery
    have hfirst := congrArg (Option.map Prod.fst) taken
    cases state with
    | ongoing rbc aba =>
      have hhalves := ih rbc aba rfl
      cases content with
      | broadcast id msg =>
        obtain ⟨⟨next, result⟩, htaken, -⟩ := Option.bind_eq_some_iff.1 taken
        have hstepped : rbc.step X ⟨source, msg⟩ = some (next, result) := htaken
        rw [step_ongoing_broadcast hstepped, (Broadcast.step_cases hstepped).2, Broadcast.getOutput] at hfirst
        cases hnext : next.decided with
        | true =>
          rw [hnext] at hfirst
          cases hfirst
        | false =>
          rw [hnext] at hfirst
          obtain ⟨rfl, rfl⟩ := SubsetState.ongoing.inj (Option.some.inj hfirst)
          exact ⟨hnext, hhalves.undecided, hhalves.reached⟩
      | agreement id msg =>
        obtain ⟨⟨next, result⟩, htaken, -⟩ := Option.bind_eq_some_iff.1 taken
        have hstepped : aba.step X (.message source msg) = some (next, result) := htaken
        rw [step_ongoing_agreement htaken, handleMessage_decision hhalves.undecided htaken] at hfirst
        cases hdecision : next.decision with
        | some c =>
          rw [hdecision] at hfirst
          cases c <;> cases hfirst
        | none =>
          rw [hdecision] at hfirst
          obtain ⟨rfl, rfl⟩ := SubsetState.ongoing.inj (Option.some.inj hfirst)
          obtain ⟨netinfo', nonce', proposerId', agreementRun, hrun⟩ := hhalves.reached
          exact ⟨hhalves.undelivered, hdecision, netinfo', nonce', proposerId', _, hrun.snoc hstepped⟩
      | request msg | reply id value => cases taken
    | getValue value aba =>
      cases content with
      | broadcast id msg => cases taken
      | agreement id msg =>
        obtain ⟨⟨next, result⟩, htaken, -⟩ := Option.bind_eq_some_iff.1 taken
        rw [step_getValue htaken] at hfirst
        cases hdecision : result.2 <;> rw [hdecision] at hfirst <;> cases hfirst
      | request msg | reply id value => cases taken
    | accepted rbc =>
      cases content with
      | broadcast id msg =>
        simp only [SubsetState.step, SubsetState.handleMessage, SubsetState.handleBroadcast] at taken
        split at taken <;> cases taken
      | agreement id msg => cases taken
      | request msg | reply id value => cases taken
    | complete c => cases content <;> cases taken

end States

/-! ## Four nodes -/

def broadcastDeliveries : List SubsetDelivery :=
  shardMessages.map fun delivery ↦ ⟨delivery.source, .broadcast "a" delivery.msg⟩

/-- All the other nodes say that the value is the given one. -/
def agreementDeliveries (b : Bool) : List SubsetDelivery :=
  ["b", "c", "d"].flatMap fun source ↦
    [⟨source, .agreement "a" ⟨0, .baBroadcast source (.bval source b)⟩⟩,
      ⟨source, .agreement "a" ⟨0, .baBroadcast source (.aux source b)⟩⟩]

theorem halves_fourNodes : Halves .transparent (Broadcast.withPeers .transparent "a" fourNodes fourPeers)
    (BinaryAgreement.new fourNodes 0 "a") :=
  ⟨rfl, rfl, fourNodes, 0, "a", [], .nil⟩

theorem delivers_of_any {X : Externals} {rbc : Broadcast} {messages : List SubsetDelivery}
    (h : (broadcastAfter X rbc messages).any (·.decided) = true) : Delivers X rbc messages :=
  (Option.any_eq_true _ _).1 h

theorem decides_of_map {X : Externals} {aba : BinaryAgreement} {messages : List SubsetDelivery} {b : Bool}
    (h : (agreementAfter X aba messages).map (·.decision) = some (some b)) : Decides X aba messages b :=
  Option.map_eq_some_iff.1 h

theorem after_ongoing_iff_fourNodes :
    stateAfter (SubsetState.step .transparent) (.ongoing (Broadcast.withPeers .transparent "a" fourNodes fourPeers)
        (BinaryAgreement.new fourNodes 0 "a")) (broadcastDeliveries ++ agreementDeliveries true) =
          some (.complete true) ↔
      true = false ∨ ∀ first, first <+: broadcastDeliveries ++ agreementDeliveries true →
        Decides .transparent (BinaryAgreement.new fourNodes 0 "a") first true →
          Delivers .transparent (Broadcast.withPeers .transparent "a" fourNodes fourPeers) first :=
  after_ongoing_iff halves_fourNodes (by decide +kernel) (delivers_of_any (by decide +kernel))
    (decides_of_map (by decide +kernel))

/-- When the agreement decides before the broadcast has a value, the state is never complete. -/
theorem not_complete_of_agreement_first :
    let rbc := Broadcast.withPeers .transparent "a" fourNodes fourPeers
    let aba := BinaryAgreement.new fourNodes 0 "a"
    let messages := agreementDeliveries true ++ broadcastDeliveries
    Delivers .transparent rbc messages ∧ Decides .transparent aba messages true ∧
      stateAfter (SubsetState.step .transparent) (.ongoing rbc aba) messages ≠ some (.complete true) := by
  refine ⟨delivers_of_any (by decide +kernel), decides_of_map (by decide +kernel), fun h ↦ ?_⟩
  exact absurd (congrArg (Option.map SubsetState.isComplete) h) (by decide +kernel)

end BFTDiagnosis.Honeybadger
