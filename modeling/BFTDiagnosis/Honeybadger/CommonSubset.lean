import BFTDiagnosis.Honeybadger.Decoding
import BFTDiagnosis.Honeybadger.Subset

/-!
# The common subset of a node

`Subset` in `subset.rs` keeps a state for each connected node, the proposer, and gives a message to the state of
the proposer that it names. The names inside a message of reliable broadcast are not compared with this one.
-/

namespace BFTDiagnosis.Honeybadger

/-- What a proposal takes from outside the repository as well. -/
structure ProposalExternals extends Externals where
  /-- `ReedSolomon::encode` with the numbers of data and parity shards; `none` is an error. -/
  encode : ℕ → ℕ → List Bytes → Option (List Bytes)
  /-- The order of the marks of a peer set. -/
  marks : Walk (String × ℕ)

/-! ## The state of a proposer -/

namespace SubsetState

def received : SubsetState → Bool
  | ongoing _ _ | accepted _ => false
  | getValue _ _ => true
  | complete b => b

/-- The method `accepted`. -/
def isAccepted : SubsetState → Bool
  | ongoing _ _ | getValue _ _ => false
  | accepted _ => true
  | complete b => b

/-- One turn of the loop of `propose`, for a connected node. -/
def enterPeer (source : String) (rbc : Broadcast) (node : ℕ × String) : Broadcast :=
  if node.2 ≠ source then
    { rbc with
      peerSet := rbc.peerSet.insert node.2
      readySent := HashMap.insertNew rbc.readySent node.2 false
      echoSet := HashMap.insertNew rbc.echoSet node.2 ∅ }
  else rbc

/-- The broadcast is told about the peers, but not about the one that asks for the proposal. -/
def propose (X : ProposalExternals) (state : SubsetState) (val : Bytes) (netinfo : Network) (source : String) :
    Option (SubsetState × List Payload) :=
  match state with
  | ongoing rbc aba => do
    let rbc := (X.nodes.order netinfo.connectedNodes.entrySet).foldl (enterPeer source) rbc
    let out ← rbc.handleInput X.toExternals X.encode X.marks val
    return (ongoing rbc aba, out.map .subset)
  | state => some (state, [])

variable {X : Externals}

/-- What a message can do to the state of a proposer. -/
inductive Stepped (X : Externals) (delivery : SubsetDelivery) : SubsetState → SubsetState → List Payload → Prop
  | heard {rbc rbc' : Broadcast} {aba : BinaryAgreement} {id : String} {msg : RbcMessage} {sent : List SubsetMessage}
      (content : delivery.content = .broadcast id msg)
      (taken : rbc.step X ⟨delivery.source, msg⟩ = some (rbc', (sent, none))) :
      Stepped X delivery (ongoing rbc aba) (ongoing rbc' aba) (sent.map .subset)
  | obtained {rbc rbc' : Broadcast} {aba : BinaryAgreement} {id : String} {msg : RbcMessage}
      {sent : List SubsetMessage} {value : Bytes} (content : delivery.content = .broadcast id msg)
      (taken : rbc.step X ⟨delivery.source, msg⟩ = some (rbc', (sent, some value))) :
      Stepped X delivery (ongoing rbc aba) (getValue value (aba.propose X true).1)
        (sent.map .subset ++ (aba.propose X true).2)
  | discussed {rbc : Broadcast} {aba aba' : BinaryAgreement} {id : String} {msg : AgreementMessage}
      {out : List Payload} (content : delivery.content = .agreement id msg)
      (taken : aba.step X (.message delivery.source msg) = some (aba', (out, none))) :
      Stepped X delivery (ongoing rbc aba) (ongoing rbc aba') out
  | discussedLater {value : Bytes} {aba aba' : BinaryAgreement} {id : String} {msg : AgreementMessage}
      {out : List Payload} (content : delivery.content = .agreement id msg)
      (taken : aba.step X (.message delivery.source msg) = some (aba', (out, none))) :
      Stepped X delivery (getValue value aba) (getValue value aba') out
  | settled {rbc : Broadcast} {aba aba' : BinaryAgreement} {id : String} {msg : AgreementMessage}
      {out : List Payload} {b : Bool} (content : delivery.content = .agreement id msg)
      (taken : aba.step X (.message delivery.source msg) = some (aba', (out, some b))) :
      Stepped X delivery (ongoing rbc aba) (if b then accepted rbc else complete false) out
  | settledLater {value : Bytes} {aba aba' : BinaryAgreement} {id : String} {msg : AgreementMessage}
      {out : List Payload} {b : Bool} (content : delivery.content = .agreement id msg)
      (taken : aba.step X (.message delivery.source msg) = some (aba', (out, some b))) :
      Stepped X delivery (getValue value aba) (complete b) out
  | finished {rbc : Broadcast} {id : String} {msg : RbcMessage} (content : delivery.content = .broadcast id msg)
      (output : rbc.decided = true) : Stepped X delivery (accepted rbc) (complete true) []
  | idle {state : SubsetState} (notOngoing : ∀ rbc aba, state ≠ ongoing rbc aba) : Stepped X delivery state state []

theorem step_cases {state state' : SubsetState} {delivery : SubsetDelivery} {out : List Payload}
    (h : state.step X delivery = some (state', out)) : Stepped X delivery state state' out := by
  obtain ⟨source, content⟩ := delivery
  cases content with
  | request msg | reply id value => cases h
  | broadcast id msg =>
    cases state with
    | ongoing rbc aba =>
      simp only [step, handleMessage, handleBroadcast, bind, Option.bind_eq_some_iff, Prod.exists] at h
      obtain ⟨rbc', sent, value, htaken, h⟩ := h
      cases value with
      | none =>
        obtain ⟨rfl, rfl⟩ := Prod.mk.inj (Option.some.inj h)
        exact .heard rfl htaken
      | some value =>
        obtain ⟨rfl, rfl⟩ := Prod.mk.inj (Option.some.inj h)
        exact .obtained rfl htaken
    | getValue value aba =>
      obtain ⟨rfl, rfl⟩ := Prod.mk.inj (Option.some.inj h)
      exact .idle (by simp)
    | accepted rbc =>
      simp only [step, handleMessage, handleBroadcast] at h
      split at h
      case h_1 value houtput =>
        obtain ⟨rfl, rfl⟩ := Prod.mk.inj (Option.some.inj h)
        exact .finished rfl (Option.ite_none_right_eq_some.1 houtput).1
      case h_2 =>
        obtain ⟨rfl, rfl⟩ := Prod.mk.inj (Option.some.inj h)
        exact .idle (by simp)
    | complete b =>
      obtain ⟨rfl, rfl⟩ := Prod.mk.inj (Option.some.inj h)
      exact .idle (by simp)
  | agreement id msg =>
    cases state with
    | ongoing rbc aba =>
      simp only [step, handleMessage, handleAgreement, bind, Option.bind_eq_some_iff, Prod.exists] at h
      obtain ⟨aba', sent, decision, htaken, h⟩ := h
      rcases decision with _ | _ | _
      · obtain ⟨rfl, rfl⟩ := Prod.mk.inj (Option.some.inj h)
        exact .discussed rfl htaken
      · obtain ⟨rfl, rfl⟩ := Prod.mk.inj (Option.some.inj h)
        exact .settled (b := false) rfl htaken
      · obtain ⟨rfl, rfl⟩ := Prod.mk.inj (Option.some.inj h)
        exact .settled (b := true) rfl htaken
    | getValue value aba =>
      simp only [step, handleMessage, handleAgreement, bind, Option.bind_eq_some_iff, Prod.exists] at h
      obtain ⟨aba', sent, decision, htaken, h⟩ := h
      cases decision with
      | none =>
        obtain ⟨rfl, rfl⟩ := Prod.mk.inj (Option.some.inj h)
        exact .discussedLater rfl htaken
      | some b =>
        obtain ⟨rfl, rfl⟩ := Prod.mk.inj (Option.some.inj h)
        exact .settledLater rfl htaken
    | accepted rbc | complete b =>
      obtain ⟨rfl, rfl⟩ := Prod.mk.inj (Option.some.inj h)
      exact .idle (by simp)

end SubsetState

/-! ## The subset -/

structure Subset where
  netinfo : Network
  nonce : ℕ
  result : HashMap String Bool
  txResult : HashMap String String
  states : HashMap String SubsetState
  decided : Bool

namespace Subset

/-- The same entry for every connected node. -/
def initStates {ν : Type} (X : Externals) (netinfo : Network) (value : String → ν) : HashMap String ν :=
  (X.nodes.order netinfo.connectedNodes.entrySet).foldl (fun states node ↦ states.insert node.2 (value node.2)) ∅

def new (X : Externals) (netinfo : Network) (nonce : ℕ) : Subset where
  netinfo := netinfo
  nonce := nonce
  result := initStates X netinfo fun _ ↦ false
  txResult := initStates X netinfo fun _ ↦ ""
  states := initStates X netinfo (SubsetState.new X netinfo nonce)
  decided := false

variable (X : ProposalExternals)

/-- Propose in the own name; a node that is not connected to itself panics. -/
def propose (subset : Subset) (value : Bytes) (source : String) : Option (Subset × List Payload) := do
  let state ← subset.states.lookup subset.netinfo.id
  let (state, out) ← state.propose X value subset.netinfo source
  return ({ subset with states := subset.states.insert subset.netinfo.id state }, out)

/-- A message for a proposer without a state is a panic. -/
def handleMessage (subset : Subset) (source : String) (msg : SubsetMessage) : Option (Subset × List Payload) :=
  match msg.content with
  | .request input => subset.propose X input.data source
  | .reply _ _ => some (subset, [])
  | content => do
    let state ← subset.states.lookup msg.proposerId
    let (state, out) ← state.handleMessage X.toExternals source content
    return ({ subset with states := subset.states.insert msg.proposerId state }, out)

/-- The number of proposers whose value is there. -/
def receivedProposals (subset : Subset) : ℕ := subset.states.count SubsetState.received

/-- The number of proposers that are accepted. -/
def countAccepted (subset : Subset) : ℕ := subset.states.count SubsetState.isAccepted

/-- What the event loop of the node hands to the subset. -/
inductive Event where
  | gossip (source : String) (msg : SubsetMessage)
  | request (value : Bytes) (source : String)
  deriving DecidableEq

def step (subset : Subset) : Event → Option (Subset × List Payload)
  | .gossip source msg => subset.handleMessage X source msg
  | .request value source => subset.propose X value source

end Subset

abbrev SubsetRun := List (Transition Subset Subset.Event (List Payload))

/-- What an event has the state of a proposer do: it is given a message, or the proposal of this node. -/
inductive SubsetState.Turned (X : ProposalExternals) (netinfo : Network) (id : String) (state : SubsetState) :
    Subset.Event → SubsetState → List Payload → Prop
  | message {source : String} {content : SubsetContent} {state' : SubsetState} {out : List Payload}
      (taken : state.step X.toExternals ⟨source, content⟩ = some (state', out)) :
      Turned X netinfo id state (.gossip source ⟨id, content⟩) state' out
  | proposal {event : Subset.Event} {value : Bytes} {source : String} {state' : SubsetState} {out : List Payload}
      (own : id = netinfo.id) (taken : state.propose X value netinfo source = some (state', out)) :
      Turned X netinfo id state event state' out

/-- What an event can do to the subset: one of the states has its turn, or nothing happens. -/
inductive Subset.Stepped (X : ProposalExternals) (subset : Subset) (event : Subset.Event) :
    Subset → List Payload → Prop
  | turned {id : String} {state state' : SubsetState} {out : List Payload}
      (found : subset.states.lookup id = some state) (turned : state.Turned X subset.netinfo id event state' out) :
      Stepped X subset event { subset with states := subset.states.insert id state' } out
  | nothing : Stepped X subset event subset []

theorem Subset.step_cases {X : ProposalExternals} {subset subset' : Subset} {event : Subset.Event}
    {out : List Payload} (h : subset.step X event = some (subset', out)) : Stepped X subset event subset' out := by
  have hproposal {value : Bytes} {source : String} (h : subset.propose X value source = some (subset', out)) :
      Stepped X subset event subset' out := by
    simp only [propose, bind, pure, Option.bind_eq_some_iff, Prod.exists, Option.some.injEq, Prod.mk.injEq] at h
    obtain ⟨state, hfound, state', _, htaken, rfl, rfl⟩ := h
    exact .turned hfound (.proposal rfl htaken)
  cases event with
  | request value source => exact hproposal h
  | gossip source msg =>
    obtain ⟨id, content⟩ := msg
    cases content with
    | request input => exact hproposal h
    | reply name value =>
      obtain ⟨rfl, rfl⟩ := Prod.mk.inj (Option.some.inj h)
      exact .nothing
    | broadcast name msg | agreement name msg =>
      simp only [step, handleMessage, bind, pure, Option.bind_eq_some_iff, Prod.exists, Option.some.injEq,
        Prod.mk.injEq] at h
      obtain ⟨state, hfound, state', _, htaken, rfl, rfl⟩ := h
      exact .turned hfound (.message htaken)

/-! ## Runs -/

/-- At the start there is a new state for every connected node, and no other state. -/
theorem eq_of_lookup_initStates {ν : Type} {X : Externals} {netinfo : Network} {value : String → ν} {id : String}
    {found : ν} (h : (Subset.initStates X netinfo value).lookup id = some found) : found = value id := by
  have hfold (nodes : List (ℕ × String)) (states : HashMap String ν)
      (hstates : ∀ found, states.lookup id = some found → found = value id)
      (h : (nodes.foldl (fun states node ↦ states.insert node.2 (value node.2)) states).lookup id = some found) :
      found = value id := by
    induction nodes generalizing states with
    | nil => exact hstates found h
    | cons node rest ih =>
      refine ih _ ?_ h
      intro found' hfound
      by_cases hid : id = node.2
      · subst hid
        rw [Finmap.lookup_insert] at hfound
        exact (Option.some.inj hfound).symm
      · rw [Finmap.lookup_insert_of_ne _ hid] at hfound
        exact hstates found' hfound
  refine hfold _ ∅ ?_ h
  rintro found' hempty
  rw [Finmap.lookup_empty] at hempty
  cases hempty

/-- A property of the run and the state of a proposer holds of every proposer if it holds of a new state, is kept
when the state has its turn, and is kept when another one has its turn or nothing happens. -/
theorem forall_states_of_isRun {X : ProposalExternals} {netinfo : Network} {nonce : ℕ}
    {P : SubsetRun → String → SubsetState → Prop} (initial : ∀ id, P [] id (.new X.toExternals netinfo nonce id))
    (turned : ∀ run t id state state', P run id state → state.Turned X netinfo id t.event state' t.out →
      t.pre.states.lookup id = some state → t.post.states.lookup id = some state' → P (run ++ [t]) id state')
    (other : ∀ run t id state state' id' state'', P run id state → state.Turned X netinfo id t.event state' t.out →
      t.pre.states.lookup id' = t.post.states.lookup id' → id' ≠ id → P run id' state'' → P (run ++ [t]) id' state'')
    (nothing : ∀ run t id state, t.pre = t.post → t.out = [] → P run id state → P (run ++ [t]) id state)
    {run : SubsetRun} {subset : Subset}
    (h : IsRun (Subset.step X) (Subset.new X.toExternals netinfo nonce) run subset) :
    subset.netinfo = netinfo ∧ ∀ id state, subset.states.lookup id = some state → P run id state := by
  induction h with
  | nil =>
    refine ⟨rfl, fun id state hstate ↦ ?_⟩
    rw [eq_of_lookup_initStates hstate]
    exact initial id
  | @snoc run subset subset' event out previous taken ih =>
    obtain ⟨hnetinfo, hstates⟩ := ih
    have hcases := Subset.step_cases taken
    cases hcases with
    | @turned id state state' _ found hturned =>
      rw [hnetinfo] at hturned
      have hbefore := hstates id state found
      refine ⟨hnetinfo, fun id' state'' hlookup ↦ ?_⟩
      by_cases hid : id' = id
      · subst hid
        obtain rfl : state' = state'' := Option.some.inj ((Finmap.lookup_insert _).symm.trans hlookup)
        exact turned _ ⟨subset, event, out, _⟩ _ _ _ hbefore hturned found (Finmap.lookup_insert _)
      · have hframe : subset.states.lookup id' = (subset.states.insert id state').lookup id' :=
          (Finmap.lookup_insert_of_ne _ hid).symm
        exact other _ ⟨subset, event, out, _⟩ _ _ _ _ _ hbefore hturned hframe hid
          (hstates id' state'' (hframe.trans hlookup))
    | nothing => exact ⟨hnetinfo, fun id state hlookup ↦
        nothing _ ⟨subset, event, [], subset⟩ _ _ rfl rfl (hstates id state hlookup)⟩

end BFTDiagnosis.Honeybadger
