import BFTDiagnosis.Lib.Run
import BFTDiagnosis.Honeybadger.BvBroadcast

/-!
# Binary agreement

The instance of one proposer, `BinaryAgreement` in `binary_agreement.rs`: it goes from epoch to epoch until
the values of an epoch agree with its coin. `none` is a panic.
-/

namespace BFTDiagnosis.Honeybadger

inductive CoinState where
  | decided (value : Bool)
  | inProgress (ts : ThresholdSign)

def CoinState.value : CoinState → Option Bool
  | decided value => some value
  | inProgress _ => none

/-! ## Messages of later epochs -/

/-- What one node has sent for a later epoch. -/
structure ReceivedMessages where
  bval : BoolSet
  aux : BoolSet
  conf : Option BoolSet
  term : Option Bool
  coin : Option SignatureShare

namespace ReceivedMessages

def new : ReceivedMessages where
  bval := .NONE
  aux := .NONE
  conf := none
  term := none
  coin := none

/-- The first message of a kind is kept. A Signature is a `todo!()`. -/
def insert (received : ReceivedMessages) : AbaMessage → Option ReceivedMessages
  | .baBroadcast _ (.bval _ value) => some { received with bval := received.bval.insert value }
  | .baBroadcast _ (.aux _ value) => some { received with aux := received.aux.insert value }
  | .conf _ values => some { received with conf := received.conf.or (some values) }
  | .term _ value => some { received with term := received.term.or (some value) }
  | .coin _ msg => some { received with coin := received.coin.or (some msg.share) }
  | .signature _ _ => none

end ReceivedMessages

/-! ## The instance -/

structure BinaryAgreement where
  netinfo : Network
  proposerId : String
  nonce : ℕ
  epoch : ℕ
  maxEpoch : ℕ
  baBroadcast : BvBroadcast
  bvOutput : BoolSet
  confReceived : HashMap String BoolSet
  termReceived : HashMap Bool (Finset String)
  estimated : Option Bool
  decision : Option Bool
  incomingQueue : HashMap ℕ (HashMap String ReceivedMessages)
  confValues : Option BoolSet
  coinState : CoinState
  signature : Option Signature

namespace BinaryAgreement

variable (X : Externals)

def new (netinfo : Network) (nonce : ℕ) (proposerId : String) : BinaryAgreement where
  netinfo := netinfo
  proposerId := proposerId
  nonce := nonce
  epoch := 0
  maxEpoch := 1000
  baBroadcast := BvBroadcast.new netinfo 0 proposerId
  bvOutput := .NONE
  confReceived := ∅
  termReceived := ∅
  estimated := none
  decision := none
  incomingQueue := ∅
  confValues := none
  coinState := .decided true
  signature := none

def decide (ba : BinaryAgreement) (b : Bool) : BinaryAgreement :=
  if ba.decision.isSome then ba else { ba with decision := some b }

/-- The coin that an epoch starts with. -/
def newCoin (ba : BinaryAgreement) : CoinState :=
  match ba.epoch % 3 with
  | 0 => .decided true
  | 1 => .decided false
  | _ => .inProgress (ThresholdSign.new ba.netinfo)

/-- The nodes of `term_received` with the first of their values that is met. -/
def confOfTerms (ba : BinaryAgreement) : HashMap String BoolSet :=
  (X.terms.order ba.termReceived.keys).foldl (fun conf b ↦
    (X.senders.order ((ba.termReceived.lookup b).getD ∅)).foldl (fun conf p ↦
      HashMap.insertNew conf p (((conf.lookup p).getD .NONE).insert b)) conf) ∅

/-- Start the next epoch. The messages that have come early are taken out of the queue, but the calls of
`handle_message_content` with them are not awaited, so they are not handled. -/
def updateEpoch (ba : BinaryAgreement) (b : Bool) : BinaryAgreement × List Payload :=
  let ba := { ba with
    baBroadcast := ba.baBroadcast.clear ba.termReceived
    confReceived := ba.confOfTerms X
    confValues := none
    epoch := ba.epoch + 1 }
  let ba := { ba with coinState := ba.newCoin, estimated := some b }
  let out := ba.baBroadcast.sendBval b
  ({ ba with incomingQueue := ba.incomingQueue.erase ba.epoch }, out)

def tryUpdateEpoch (ba : BinaryAgreement) : BinaryAgreement × List Payload :=
  if ba.decision.isSome then (ba, [])
  else
    match ba.coinState.value, ba.confValues with
    | some coin, some values =>
      if values.definite = some coin then (ba.decide coin, [])
      else ba.updateEpoch X (values.definite.getD coin)
    | _, _ => (ba, [])

def sendConf (ba : BinaryAgreement) (values : BoolSet) : BinaryAgreement × List Payload :=
  if ba.confValues.isSome then (ba, [])
  else ({ ba with confValues := some values },
    [.agreement ((AbaMessage.conf ba.netinfo.id values).withEpoch ba.epoch)])

def handleBabroadcastSync (ba : BinaryAgreement) : BinaryAgreement × List Payload :=
  let values := ba.baBroadcast.getOutput
  if values.contains false = false ∧ values.contains true = false then (ba, [])
  else
    let ba := if values ≠ .NONE then { ba with bvOutput := values } else ba
    if ba.confValues.isSome then (ba, [])
    else
      match ba.coinState with
      | .decided _ => { ba with confValues := some values }.tryUpdateEpoch X
      | .inProgress _ => ba.sendConf values

def handleBabroadcast (ba : BinaryAgreement) (source : String) (msg : BaMessage) :
    Option (BinaryAgreement × List Payload) := do
  let (bv, out) ← ba.baBroadcast.handleMessage source msg
  let (ba, out') := { ba with baBroadcast := bv }.handleBabroadcastSync X
  return (ba, out ++ out')

def coinSync (ba : BinaryAgreement) : BinaryAgreement × List Payload :=
  match ba.signature with
  | some value => { ba with coinState := .decided (X.parity value) }.tryUpdateEpoch X
  | none => (ba, [])

def tryFinishConfRound (ba : BinaryAgreement) : Option (BinaryAgreement × List Payload) :=
  if ba.confReceived.len = 0 ∨ ba.confReceived.len < ba.netinfo.numHonest then some (ba, [])
  else
    match ba.coinState with
    | .decided _ => some (ba, [])
    | .inProgress ts => do
      let (ts, msg) ← ts.sign X
      let msg ← msg
      let out := [Payload.agreement ((AbaMessage.coin ba.netinfo.id msg).withEpoch ba.epoch)]
      let (ba, out') := { ba with coinState := .inProgress ts }.coinSync X
      return (ba, out ++ out')

def handleConf (ba : BinaryAgreement) (source : String) (values : BoolSet) :
    Option (BinaryAgreement × List Payload) :=
  { ba with confReceived := ba.confReceived.insert source values }.tryFinishConfRound X

/-- The full signature, when the share completes it. -/
def combineShare (ba : BinaryAgreement) (source : String) (value : SigMessage) :
    Option (BinaryAgreement × Option Signature) :=
  match ba.coinState with
  | .decided _ => some (ba, none)
  | .inProgress ts => do
    let (ts, sig) ← ts.handleMessage X source value
    return ({ ba with coinState := .inProgress ts }, sig)

def handleCoin (ba : BinaryAgreement) (source : String) (value : SigMessage) :
    Option (BinaryAgreement × List Payload) := do
  let (ba, sig) ← ba.combineShare X source value
  let out := sig.toList.map fun v ↦ Payload.agreement ((AbaMessage.signature ba.netinfo.id v).withEpoch ba.epoch)
  let (ba, out') := ba.coinSync X
  return (ba, out ++ out')

def handleSignature (ba : BinaryAgreement) (sig : Signature) : BinaryAgreement :=
  { ba with signature := ba.signature.or (some sig) }

/-- Conf and Coin messages are those of the node that they name. The caller returns the decision. -/
def handleMessageContent (ba : BinaryAgreement) (source : String) (msg : AbaMessage) :
    Option (BinaryAgreement × List Payload) :=
  match msg with
  | .baBroadcast _ msg => ba.handleBabroadcast X source msg
  | .conf id values => ba.handleConf X id values
  | .term _ _ => some (ba, [])
  | .coin id value => ba.handleCoin X id value
  | .signature _ sig => some (ba.handleSignature sig, [])

/-- Keep a message for the epoch that it belongs to. -/
def enqueue (ba : BinaryAgreement) (source : String) (msg : AgreementMessage) : Option BinaryAgreement := do
  let epochState := ba.incomingQueue.mapAt msg.epoch
  let received ← ((epochState.lookup source).getD .new).insert msg.content
  return { ba with incomingQueue := ba.incomingQueue.insertAt msg.epoch source received }

/-- What is sent comes with the value that the call returns. -/
def handleMessage (ba : BinaryAgreement) (source : String) (msg : AgreementMessage) :
    Option (BinaryAgreement × (List Payload × Option Bool)) :=
  if ba.decision.isSome ∨ msg.epoch < ba.epoch then some (ba, ([], none))
  else if ba.epoch + ba.maxEpoch < msg.epoch then some (ba, ([], none))
  else if ba.epoch < msg.epoch then (ba.enqueue source msg).map (·, ([], none))
  else do
    let (ba, out) ← ba.handleMessageContent X source msg.content
    return (ba, (out, ba.decision))

def canPropose (ba : BinaryAgreement) : Bool := ba.epoch == 0 && ba.estimated.isNone

def propose (ba : BinaryAgreement) (input : Bool) : BinaryAgreement × List Payload :=
  if ba.canPropose = false then (ba, [])
  else
    let ba := { ba with estimated := some input }
    let out := ba.baBroadcast.sendBval input
    let (ba, out') := ba.handleBabroadcastSync X
    (ba, out ++ out')

/-- What can happen to an instance. -/
inductive Event where
  | propose (input : Bool)
  | message (source : String) (msg : AgreementMessage)
  deriving DecidableEq

def step (ba : BinaryAgreement) : Event → Option (BinaryAgreement × (List Payload × Option Bool))
  | .propose input =>
    let (ba, out) := ba.propose X input
    some (ba, (out, none))
  | .message source msg => ba.handleMessage X source msg

/-! ## What a step does -/

variable {X} {ba : BinaryAgreement}

/-- Without an output there is nothing to check. -/
theorem handleBabroadcastSync_of_none (h : ∀ b, ba.baBroadcast.output.contains b = false) :
    ba.handleBabroadcastSync X = (ba, []) := by
  unfold handleBabroadcastSync
  rw [BvBroadcast.getOutput_eq]
  exact if_pos ⟨h false, h true⟩

/-- An output is kept; the values of the epoch are set once. -/
theorem handleBabroadcastSync_of_conf (h : ∃ b, ba.baBroadcast.output.contains b = true)
    (hconf : ba.confValues.isSome = true) :
    ba.handleBabroadcastSync X = ({ ba with bvOutput := ba.baBroadcast.output }, []) := by
  obtain ⟨b, hb⟩ := h
  have hne : ba.baBroadcast.output ≠ .NONE := fun hnone ↦ by simp [hnone] at hb
  have hsome : ¬ (ba.baBroadcast.output.contains false = false ∧ ba.baBroadcast.output.contains true = false) := by
    cases b <;> simp [hb]
  simp only [handleBabroadcastSync, BvBroadcast.getOutput_eq]
  rw [if_neg hsome]
  simp only [if_pos hne, hconf, if_true]

/-- With the coin known, the first output of an epoch ends it. -/
theorem handleBabroadcastSync_of_decided {coin : Bool} (h : ∃ b, ba.baBroadcast.output.contains b = true)
    (hconf : ba.confValues = none) (hdecision : ba.decision = none) (hcoin : ba.coinState = .decided coin) :
    ba.handleBabroadcastSync X =
      if ba.baBroadcast.output.definite = some coin then
        ({ ba with
          bvOutput := ba.baBroadcast.output
          confValues := some ba.baBroadcast.output
          decision := some coin }, [])
      else { ba with
        bvOutput := ba.baBroadcast.output
        confValues := some ba.baBroadcast.output }.updateEpoch X (ba.baBroadcast.output.definite.getD coin) := by
  obtain ⟨b, hb⟩ := h
  have hne : ba.baBroadcast.output ≠ .NONE := fun hnone ↦ by simp [hnone] at hb
  have hsome : ¬ (ba.baBroadcast.output.contains false = false ∧ ba.baBroadcast.output.contains true = false) := by
    cases b <;> simp [hb]
  simp only [handleBabroadcastSync, BvBroadcast.getOutput_eq]
  rw [if_neg hsome]
  simp only [if_pos hne, hconf, Option.isSome_none, Bool.false_eq_true, if_false, hcoin, tryUpdateEpoch, hdecision,
    CoinState.value, decide]

/-- Nothing happens before the values of the epoch are set. -/
theorem tryUpdateEpoch_of_none (hconf : ba.confValues = none) : ba.tryUpdateEpoch X = (ba, []) := by
  unfold tryUpdateEpoch
  split
  · rfl
  · rw [hconf]
    split
    · rename_i hnone
      cases hnone
    · rfl

/-- The message is of the current epoch, and there is no decision yet. -/
def Current (ba : BinaryAgreement) (msg : AgreementMessage) : Prop := ba.decision = none ∧ msg.epoch = ba.epoch

/-- The message is of a later epoch and is kept for it. -/
def Later (ba : BinaryAgreement) (msg : AgreementMessage) : Prop :=
  ba.decision = none ∧ ba.epoch < msg.epoch ∧ msg.epoch ≤ ba.epoch + ba.maxEpoch

instance Later.decidable (ba : BinaryAgreement) (msg : AgreementMessage) : Decidable (ba.Later msg) :=
  inferInstanceAs (Decidable (_ ∧ _ ∧ _))

theorem not_dropped {msg : AgreementMessage} (hundecided : ba.decision = none) (hepoch : ba.epoch ≤ msg.epoch) :
    ¬ (ba.decision.isSome = true ∨ msg.epoch < ba.epoch) := by
  rintro (hdecided | hold)
  · rw [hundecided] at hdecided
    cases hdecided
  · omega

theorem handleMessage_of_current {msg : AgreementMessage} (h : ba.Current msg) (source : String) :
    ba.handleMessage X source msg = (ba.handleMessageContent X source msg.content).map fun result ↦
      (result.1, (result.2, result.1.decision)) := by
  obtain ⟨hundecided, hepoch⟩ := h
  unfold handleMessage
  rw [if_neg (not_dropped hundecided hepoch.ge), if_neg (by omega), if_neg (by omega), Option.map_eq_bind]
  rfl

theorem handleMessage_of_later {msg : AgreementMessage} (h : ba.Later msg) (source : String) :
    ba.handleMessage X source msg = (ba.enqueue source msg).map (·, ([], none)) := by
  obtain ⟨hundecided, hlater, hmax⟩ := h
  unfold handleMessage
  rw [if_neg (not_dropped hundecided hlater.le), if_neg (by omega), if_pos hlater]

theorem handleMessage_of_other {msg : AgreementMessage} (hcurrent : ¬ ba.Current msg) (hlater : ¬ ba.Later msg)
    (source : String) : ba.handleMessage X source msg = some (ba, ([], none)) := by
  unfold handleMessage
  split
  case isTrue => rfl
  case isFalse hkept =>
    rw [not_or, Bool.not_eq_true, Option.isSome_eq_false_iff, Option.isNone_iff_eq_none] at hkept
    obtain ⟨hundecided, hepoch⟩ := hkept
    split
    case isTrue => rfl
    case isFalse hmax =>
      have hne : msg.epoch ≠ ba.epoch := fun hsame ↦ hcurrent ⟨hundecided, hsame⟩
      exact absurd ⟨hundecided, by omega, by omega⟩ hlater

/-- A message is dropped, kept or handled. -/
theorem handleMessage_cases {ba' : BinaryAgreement} {source : String} {msg : AgreementMessage}
    {out : List Payload × Option Bool} (h : ba.handleMessage X source msg = some (ba', out)) :
    ¬ ba.Current msg ∧ ¬ ba.Later msg ∧ ba' = ba ∧ out = ([], none) ∨
      ba.Later msg ∧ ba.enqueue source msg = some ba' ∧ out = ([], none) ∨
      ba.Current msg ∧ ba.handleMessageContent X source msg.content = some (ba', out.1) ∧ out.2 = ba'.decision := by
  by_cases hcurrent : ba.Current msg
  · rw [handleMessage_of_current hcurrent] at h
    obtain ⟨⟨ba'', sent⟩, hcontent, hpair⟩ := Option.map_eq_some_iff.1 h
    obtain ⟨rfl, rfl⟩ := Prod.mk.inj hpair
    exact .inr (.inr ⟨hcurrent, hcontent, rfl⟩)
  · by_cases hlater : ba.Later msg
    · rw [handleMessage_of_later hlater] at h
      obtain ⟨ba'', hqueued, hpair⟩ := Option.map_eq_some_iff.1 h
      obtain ⟨rfl, rfl⟩ := Prod.mk.inj hpair
      exact .inr (.inl ⟨hlater, hqueued, rfl⟩)
    · rw [handleMessage_of_other hcurrent hlater] at h
      obtain ⟨rfl, rfl⟩ := Prod.mk.inj (Option.some.inj h)
      exact .inl ⟨hcurrent, hlater, rfl, rfl⟩

/-- Keeping a message changes the queue only. -/
theorem eq_of_enqueue {ba' : BinaryAgreement} {source : String} {msg : AgreementMessage}
    (h : ba.enqueue source msg = some ba') :
    ∃ received, (((ba.incomingQueue.mapAt msg.epoch).lookup source).getD .new).insert msg.content = some received ∧
      ba' = { ba with incomingQueue := ba.incomingQueue.insertAt msg.epoch source received } := by
  obtain ⟨received, hreceived, hresult⟩ := Option.bind_eq_some_iff.1 h
  exact ⟨received, hreceived, (Option.some.inj hresult).symm⟩

theorem Later.not_current {msg : AgreementMessage} (h : ba.Later msg) : ¬ ba.Current msg :=
  fun hcurrent ↦ h.2.1.ne hcurrent.2.symm

end BinaryAgreement

/-- Messages sent by a step, and what it returns. -/
abbrev AgreementOut := List Payload × Option Bool

abbrev AgreementRun := List (Transition BinaryAgreement BinaryAgreement.Event AgreementOut)

end BFTDiagnosis.Honeybadger
