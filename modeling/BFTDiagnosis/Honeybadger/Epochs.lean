import BFTDiagnosis.Honeybadger.BinaryAgreement
import BFTDiagnosis.Honeybadger.Echoes

/-!
# Epochs of binary agreement

A change of epoch leaves the epoch and the output of the broadcast of values as they are and takes its
entries away. So an instance is in one of two phases: in epoch 0 everything is consistent; in epoch 1
nothing is, and a BVAL or an AUX of the epoch is a panic. The change happens when the AUXs of enough nodes
do not agree on the value of the coin.
-/

namespace BFTDiagnosis.Honeybadger

variable {X : Externals}

/-! ## Messages of a run -/

def BaMessage.isBval (b : Bool) : BaMessage → Bool
  | .bval _ value => value == b
  | .aux _ _ => false

def BaMessage.isAux (b : Bool) : BaMessage → Bool
  | .bval _ _ => false
  | .aux _ value => value == b

/-- A BVAL or AUX with its source and epoch. -/
def BinaryAgreement.Event.baMessage : BinaryAgreement.Event → Option (String × ℕ × BaMessage)
  | .message source ⟨epoch, .baBroadcast _ msg⟩ => some (source, epoch, msg)
  | _ => none

/-- The nodes from which a message of the kind and the epoch has come. -/
def baSenders (run : AgreementRun) (epoch : ℕ) (kind : BaMessage → Bool) : Finset String :=
  (((run.filterMap (·.event.baMessage)).filter fun m ↦ m.2.1 = epoch ∧ kind m.2.2 = true).map Prod.fst).toFinset

theorem baSenders_concat (run : AgreementRun) (t : Transition BinaryAgreement BinaryAgreement.Event AgreementOut)
    (epoch : ℕ) (kind : BaMessage → Bool) :
    baSenders (run ++ [t]) epoch kind = baSenders run epoch kind ∪ baSenders [t] epoch kind := by
  simp only [baSenders, List.filterMap_append, List.filter_append, List.map_append, List.toFinset_append]

theorem mem_baSenders_singleton {t : Transition BinaryAgreement BinaryAgreement.Event AgreementOut} {source : String}
    {epoch : ℕ} {msg : BaMessage} {kind : BaMessage → Bool} (hevent : t.event.baMessage = some (source, epoch, msg))
    (hkind : kind msg = true) : source ∈ baSenders [t] epoch kind := by
  simp [baSenders, hevent, hkind]

/-- The value has BVALs from enough nodes and an AUX, all of the epoch. -/
def Supported (f : ℕ) (run : AgreementRun) (epoch : ℕ) (b : Bool) : Prop :=
  2 * f + 1 ≤ (baSenders run epoch (BaMessage.isBval b)).card ∧ (baSenders run epoch (BaMessage.isAux b)).Nonempty

theorem Supported.concat {f epoch : ℕ} {run : AgreementRun} {b : Bool} (h : Supported f run epoch b)
    (t : Transition BinaryAgreement BinaryAgreement.Event AgreementOut) : Supported f (run ++ [t]) epoch b := by
  rw [Supported, baSenders_concat, baSenders_concat]
  exact ⟨h.1.trans (Finset.card_le_card Finset.subset_union_left), h.2.mono Finset.subset_union_left⟩

/-- The broadcast of values is at the epoch of the instance and has all its entries, and the values that
are kept come from messages of the epoch. -/
structure EpochConsistent (f : ℕ) (run : AgreementRun) (ba : BinaryAgreement) : Prop where
  epoch : ba.baBroadcast.epoch = ba.epoch
  bvalFrom : ∀ b, b ∈ ba.baBroadcast.bvalFrom
  auxFrom : ∀ b, b ∈ ba.baBroadcast.auxFrom
  bvOutput : ∀ b, ba.bvOutput.contains b = true → Supported f run ba.epoch b
  confValues : ∀ values, ba.confValues = some values → ∀ b, values.contains b = true → Supported f run ba.epoch b

/-- A BVAL or AUX of the epoch completes the AUXs of enough nodes, and their values are not just the value
of the coin. -/
def Splits (ba : BinaryAgreement) : BinaryAgreement.Event → Prop
  | .message source ⟨epoch, .baBroadcast _ msg⟩ => ba.decision = none ∧ epoch = ba.epoch ∧
    ∃ values coin, ba.baBroadcast.Outputs source msg values ∧ (∃ b, values.contains b = true) ∧
      ba.coinState.value = some coin ∧ values.definite ≠ some coin
  | _ => False

/-! ## Epoch 0 -/

/-- The broadcast of values in epoch 0: what is entered has come in a message of the epoch, and a value is
accepted when enough BVALs for it are entered. -/
structure BvZero (netinfo : Network) (run : AgreementRun) (bv : BvBroadcast) : Prop where
  epoch : bv.epoch = 0
  network : bv.network = netinfo
  bvalFrom : ∀ b, b ∈ bv.bvalFrom
  bvalSenders : ∀ b, BvBroadcast.sendersOf bv.bvalFrom b ⊆ baSenders run 0 (BaMessage.isBval b)
  auxFrom : ∀ b, b ∈ bv.auxFrom
  auxSenders : ∀ b, BvBroadcast.sendersOf bv.auxFrom b ⊆ baSenders run 0 (BaMessage.isAux b)
  binValues : ∀ b, bv.binValues.contains b = true →
    2 * netinfo.faultNum + 1 ≤ (BvBroadcast.sendersOf bv.bvalFrom b).card

/-- The first epoch: the coin is known from the start, and a decision comes with the first output. -/
structure EpochZero (netinfo : Network) (run : AgreementRun) (ba : BinaryAgreement) : Prop where
  epoch : ba.epoch = 0
  bv : BvZero netinfo run ba.baBroadcast
  output : ∀ b, ba.baBroadcast.output.contains b = true → Supported netinfo.faultNum run 0 b
  bvOutput : ∀ b, ba.bvOutput.contains b = true → Supported netinfo.faultNum run 0 b
  confValues : ∀ values, ba.confValues = some values → ∀ b, values.contains b = true →
    Supported netinfo.faultNum run 0 b
  coin : ∃ coin, ba.coinState = .decided coin
  termReceived : ba.termReceived = ∅
  undecided : ba.decision = none → ba.confValues = none ∧ ∀ b, ba.baBroadcast.output.contains b = false
  decided : ba.decision.isSome = true → ba.confValues.isSome = true

/-- The epoch after a change of epoch: there are no entries left. -/
structure EpochOne (ba : BinaryAgreement) : Prop where
  epoch : ba.epoch = 1
  bvEpoch : ba.baBroadcast.epoch = 0
  bvalFrom : ba.baBroadcast.bvalFrom = ∅
  auxFrom : ba.baBroadcast.auxFrom = ∅
  confValues : ba.confValues = none
  decision : ba.decision = none
  coin : ∃ coin, ba.coinState = .decided coin

theorem EpochZero.consistent {netinfo : Network} {run : AgreementRun} {ba : BinaryAgreement}
    (h : EpochZero netinfo run ba) : EpochConsistent netinfo.faultNum run ba where
  epoch := h.bv.epoch.trans h.epoch.symm
  bvalFrom := h.bv.bvalFrom
  auxFrom := h.bv.auxFrom
  bvOutput := h.epoch.symm ▸ h.bvOutput
  confValues := h.epoch.symm ▸ h.confValues

theorem EpochOne.not_consistent {f : ℕ} {run : AgreementRun} {ba : BinaryAgreement} (h : EpochOne ba) :
    ¬ EpochConsistent f run ba := fun hconsistent ↦ by
  have hsame := hconsistent.epoch
  rw [h.bvEpoch, h.epoch] at hsame
  cases hsame

/-- Without entries, a message of the broadcast of values is a panic. -/
theorem EpochOne.content_eq_none {ba : BinaryAgreement} (h : EpochOne ba) (source id : String)
    (msg : BaMessage) : ba.handleMessageContent X source (.baBroadcast id msg) = none := by
  have hnone : ba.baBroadcast.handleMessage source msg = none := by
    cases msg with
    | bval _ b => simp [BvBroadcast.handleMessage, BvBroadcast.handleBval, h.bvalFrom]
    | aux _ b => simp [BvBroadcast.handleMessage, BvBroadcast.handleAux, h.auxFrom]
  simp [BinaryAgreement.handleMessageContent, BinaryAgreement.handleBabroadcast, hnone]

section Steps

variable {netinfo : Network} {run : AgreementRun} {t : Transition BinaryAgreement BinaryAgreement.Event AgreementOut}
  {bv : BvBroadcast} {ba ba' : BinaryAgreement} {source : String} {msg : BaMessage}

theorem BvZero.concat (h : BvZero netinfo run bv) (t : Transition BinaryAgreement BinaryAgreement.Event AgreementOut) :
    BvZero netinfo (run ++ [t]) bv :=
  { h with
    bvalSenders := fun b ↦ by
      rw [baSenders_concat]
      exact (h.bvalSenders b).trans Finset.subset_union_left
    auxSenders := fun b ↦ by
      rw [baSenders_concat]
      exact (h.auxSenders b).trans Finset.subset_union_left }

theorem EpochZero.concat (h : EpochZero netinfo run ba)
    (t : Transition BinaryAgreement BinaryAgreement.Event AgreementOut) : EpochZero netinfo (run ++ [t]) ba :=
  { h with
    bv := h.bv.concat t
    output := fun b hb ↦ (h.output b hb).concat t
    bvOutput := fun b hb ↦ (h.bvOutput b hb).concat t
    confValues := fun values hvalues b hb ↦ (h.confValues values hvalues b hb).concat t }

/-- Entering a message that is handled keeps the entries. -/
theorem BvZero.received (h : BvZero netinfo run bv) (hevent : t.event.baMessage = some (source, 0, msg)) :
    BvZero netinfo (run ++ [t]) (bv.received source msg) := by
  have hbefore := h.concat t
  cases msg with
  | bval id b =>
    have hnew : source ∈ baSenders (run ++ [t]) 0 (BaMessage.isBval b) := by
      rw [baSenders_concat]
      exact Finset.mem_union_right _ (mem_baSenders_singleton hevent (beq_self_eq_true b))
    have hgrows (b' : Bool) : BvBroadcast.sendersOf bv.bvalFrom b' ⊆
        BvBroadcast.sendersOf (bv.received source (.bval id b)).bvalFrom b' := by
      rw [BvBroadcast.received, BvBroadcast.sendersOf_insert]
      split
      case isTrue hsame => exact hsame ▸ Finset.subset_insert _ _
      case isFalse => exact Finset.Subset.refl _
    refine { hbefore with bvalFrom := ?_, bvalSenders := ?_, binValues := ?_ }
    · exact fun b' ↦ Finmap.mem_insert.2 (.inr (h.bvalFrom b'))
    · intro b'
      rw [BvBroadcast.received, BvBroadcast.sendersOf_insert]
      split
      case isTrue hsame =>
        subst hsame
        exact Finset.insert_subset hnew (hbefore.bvalSenders b')
      case isFalse => exact hbefore.bvalSenders b'
    · intro b' hcontains
      by_cases hold : bv.binValues.contains b' = true
      · exact (h.binValues b' hold).trans (Finset.card_le_card (hgrows b'))
      · -- the value is accepted with this message
        rw [BvBroadcast.received] at hcontains ⊢
        rw [BvBroadcast.sendersOf_insert]
        simp only at hcontains
        split at hcontains
        case isTrue hquorum =>
          rw [BoolSet.contains_insert, Bool.or_eq_true, beq_iff_eq, or_iff_left hold] at hcontains
          rw [if_pos hcontains.symm, hquorum, h.network]
        case isFalse => exact absurd hcontains hold
  | aux id b =>
    have hnew : source ∈ baSenders (run ++ [t]) 0 (BaMessage.isAux b) := by
      rw [baSenders_concat]
      exact Finset.mem_union_right _ (mem_baSenders_singleton hevent (beq_self_eq_true b))
    refine { hbefore with auxFrom := ?_, auxSenders := ?_ }
    · exact fun b' ↦ Finmap.mem_insert.2 (.inr (h.auxFrom b'))
    · intro b'
      rw [BvBroadcast.received, BvBroadcast.sendersOf_insert]
      split
      case isTrue hsame =>
        subst hsame
        exact Finset.insert_subset hnew (hbefore.auxSenders b')
      case isFalse => exact hbefore.auxSenders b'

/-- The values that a message brings out have come in messages of the epoch. -/
theorem BvZero.supported (h : BvZero netinfo run (bv.received source msg)) {values : BoolSet}
    (houtputs : bv.Outputs source msg values) {b : Bool} (hb : values.contains b = true) :
    Supported netinfo.faultNum run 0 b := by
  obtain ⟨-, -, -, -, count, hcount, -⟩ := houtputs
  obtain ⟨haccepted, haux⟩ := BvBroadcast.contains_of_countAux hcount hb
  exact ⟨(h.binValues b haccepted).trans (Finset.card_le_card (h.bvalSenders b)), haux.mono (h.auxSenders b)⟩

theorem EpochZero.sync (h : EpochZero netinfo run ba) :
    EpochZero netinfo run (ba.handleBabroadcastSync X).1 := by
  by_cases hnone : ∀ b, ba.baBroadcast.output.contains b = false
  · rw [BinaryAgreement.handleBabroadcastSync_of_none hnone]
    exact h
  · obtain ⟨b, hb⟩ := not_forall.1 hnone
    rw [Bool.not_eq_false] at hb
    have hdecided : ba.decision.isSome = true := by
      rw [Option.isSome_iff_ne_none]
      intro hundecided
      rw [(h.undecided hundecided).2 b] at hb
      cases hb
    rw [BinaryAgreement.handleBabroadcastSync_of_conf ⟨b, hb⟩ (h.decided hdecided)]
    exact { h with bvOutput := h.output }

/-- A proposal changes nothing that matters in the first epoch. -/
theorem EpochZero.propose (h : EpochZero netinfo run ba) (input : Bool) :
    EpochZero netinfo run (ba.propose X input).1 := by
  unfold BinaryAgreement.propose
  split
  case isTrue => exact h
  case isFalse =>
    have hestimated : EpochZero netinfo run { ba with estimated := some input } := { h with }
    exact hestimated.sync

/-- The coin, as a signature determines it. -/
def signedCoin (X : Externals) (ba : BinaryAgreement) : CoinState :=
  match ba.signature with
  | some sig => .decided (X.parity sig)
  | none => ba.coinState

theorem signedCoin_decided (h : ∃ coin, ba.coinState = .decided coin) : ∃ coin, signedCoin X ba = .decided coin := by
  unfold signedCoin
  cases ba.signature with
  | none => exact h
  | some sig => exact ⟨X.parity sig, rfl⟩

/-- Before the values of the epoch are set, a signature only determines the coin. -/
theorem coinSync_of_none (hconf : ba.confValues = none) :
    ba.coinSync X = ({ ba with coinState := signedCoin X ba }, []) := by
  unfold BinaryAgreement.coinSync
  split
  case h_1 sig hsig =>
    have hsigned : signedCoin X ba = .decided (X.parity sig) := by rw [signedCoin, hsig]
    rw [hsigned]
    apply BinaryAgreement.tryUpdateEpoch_of_none
    exact hconf
  case h_2 hnone =>
    have hsigned : signedCoin X ba = ba.coinState := by rw [signedCoin, hnone]
    rw [hsigned]

/-- With the coin known, a share is not looked at. -/
theorem handleCoin_of_decided (hcoin : ∃ coin, ba.coinState = .decided coin) (hconf : ba.confValues = none)
    (id : String) (value : SigMessage) :
    ba.handleCoin X id value = some ({ ba with coinState := signedCoin X ba }, []) := by
  obtain ⟨coin, hcoin⟩ := hcoin
  simp only [BinaryAgreement.handleCoin, BinaryAgreement.combineShare, hcoin, bind, pure, Option.bind_some,
    coinSync_of_none hconf, Option.toList_none, List.map_nil, List.nil_append]

/-- With the coin known, Confs are only collected. -/
theorem handleConf_of_decided (hcoin : ∃ coin, ba.coinState = .decided coin) (id : String) (values : BoolSet) :
    ba.handleConf X id values = some ({ ba with confReceived := ba.confReceived.insert id values }, []) := by
  obtain ⟨coin, hcoin⟩ := hcoin
  simp only [BinaryAgreement.handleConf, BinaryAgreement.tryFinishConfRound, hcoin]
  split <;> rfl

/-- The next epoch has no entries and a coin that is known. -/
theorem EpochOne.of_updateEpoch (hepoch : ba.epoch = 0) (hbv : ba.baBroadcast.epoch = 0)
    (hterm : ba.termReceived = ∅) (hdecision : ba.decision = none) (b : Bool) :
    EpochOne (ba.updateEpoch X b).1 where
  epoch := congrArg (· + 1) hepoch
  bvEpoch := hbv
  bvalFrom := hterm
  auxFrom := hterm
  confValues := rfl
  decision := hdecision
  coin := by
    refine ⟨false, ?_⟩
    simp only [BinaryAgreement.updateEpoch, BinaryAgreement.newCoin, hepoch]

/-- An output that is just the value of the coin decides. -/
theorem EpochZero.sync_agrees {coin : Bool} (h : EpochZero netinfo run ba) (hundecided : ba.decision = none)
    (hbv : BvZero netinfo run bv) (hsupported : ∀ b, bv.output.contains b = true → Supported netinfo.faultNum run 0 b)
    (hsome : ∃ b, bv.output.contains b = true) (hcoin : ba.coinState = .decided coin)
    (hagrees : bv.output.definite = some coin) :
    EpochZero netinfo run ({ ba with baBroadcast := bv }.handleBabroadcastSync X).1 := by
  have hconf : ({ ba with baBroadcast := bv } : BinaryAgreement).confValues = none := (h.undecided hundecided).1
  rw [BinaryAgreement.handleBabroadcastSync_of_decided hsome hconf hundecided hcoin,
    if_pos hagrees]
  exact { h with
    bv := hbv
    output := hsupported
    bvOutput := hsupported
    confValues := fun values hvalues ↦ by
      rw [← Option.some.inj hvalues]
      exact hsupported
    undecided := fun hnot ↦ by cases hnot
    decided := fun _ ↦ rfl }

/-- Any other output starts the next epoch. -/
theorem EpochZero.sync_splits {coin : Bool} (h : EpochZero netinfo run ba) (hundecided : ba.decision = none)
    (hbv : BvZero netinfo run bv) (hsome : ∃ b, bv.output.contains b = true) (hcoin : ba.coinState = .decided coin)
    (hsplits : bv.output.definite ≠ some coin) :
    EpochOne ({ ba with baBroadcast := bv }.handleBabroadcastSync X).1 := by
  have hconf : ({ ba with baBroadcast := bv } : BinaryAgreement).confValues = none := (h.undecided hundecided).1
  rw [BinaryAgreement.handleBabroadcastSync_of_decided hsome hconf hundecided hcoin,
    if_neg hsplits]
  apply EpochOne.of_updateEpoch
  · exact h.epoch
  · exact hbv.epoch
  · exact h.termReceived
  · exact hundecided

/-- A BVAL or an AUX of the first epoch keeps the instance in it, unless it shows a disagreement with the
coin. -/
theorem EpochZero.babroadcast (h : EpochZero netinfo run ba) (hundecided : ba.decision = none)
    {id : String} {out : List Payload} (hevent : t.event = .message source ⟨0, .baBroadcast id msg⟩)
    (htaken : ba.handleBabroadcast X source msg = some (ba', out)) :
    ¬ Splits ba t.event ∧ EpochZero netinfo (run ++ [t]) ba' ∨ Splits ba t.event ∧ EpochOne ba' := by
  have hsplits : Splits ba t.event ↔ ∃ values coin, ba.baBroadcast.Outputs source msg values ∧
      (∃ b, values.contains b = true) ∧ ba.coinState.value = some coin ∧ values.definite ≠ some coin := by
    rw [hevent]
    exact ⟨fun hsplits ↦ hsplits.2.2, fun hsplits ↦ ⟨hundecided, h.epoch.symm, hsplits⟩⟩
  have hmessage : t.event.baMessage = some (source, 0, msg) := by rw [hevent]; rfl
  obtain ⟨hconf, hnone⟩ := h.undecided hundecided
  obtain ⟨coin, hcoin⟩ := h.coin
  have hvalue : ba.coinState.value = some coin := by rw [hcoin]; rfl
  rw [hsplits]
  simp only [BinaryAgreement.handleBabroadcast, bind, pure, Option.bind_eq_some_iff, Prod.exists,
    Option.some.injEq, Prod.mk.injEq] at htaken
  obtain ⟨bv, _, hhandled, rfl, -⟩ := htaken
  have hbefore := h.concat t
  cases BvBroadcast.handleMessage_cases hhandled with
  | seen hseen =>
    refine .inl ⟨?_, ?_⟩
    · rintro ⟨values, _, houtputs, -⟩
      exact houtputs.1 hseen
    · rw [BinaryAgreement.handleBabroadcastSync_of_none hnone]
      exact hbefore
  | entered hunseen hsilent =>
    have houtput := (BvBroadcast.network_received ba.baBroadcast source msg).2.2.2
    refine .inl ⟨?_, ?_⟩
    · rintro ⟨values, _, houtputs, -⟩
      exact hsilent values houtputs
    · rw [BinaryAgreement.handleBabroadcastSync_of_none fun b ↦ by rw [houtput, hnone]]
      exact { hbefore with
        bv := h.bv.received hmessage
        output := fun b hb ↦ hbefore.output b (houtput ▸ hb)
        undecided := fun _ ↦ ⟨hconf, fun b ↦ by rw [houtput, hnone]⟩ }
  | @output values houtputs =>
    have hreceived : BvZero netinfo (run ++ [t]) (ba.baBroadcast.received source msg) := h.bv.received hmessage
    have hentered : BvZero netinfo (run ++ [t])
        { ba.baBroadcast.received source msg with terminated := true, output := values } := { hreceived with }
    by_cases hempty : ∀ b, values.contains b = false
    · refine .inl ⟨?_, ?_⟩
      · rintro ⟨values', _, houtputs', ⟨b, hb⟩, -⟩
        rw [houtputs'.unique houtputs, hempty] at hb
        cases hb
      · rw [BinaryAgreement.handleBabroadcastSync_of_none hempty]
        exact { hbefore with
          bv := hentered
          output := fun b hb ↦ absurd (hempty b) (by rw [hb]; decide)
          undecided := fun _ ↦ ⟨hconf, hempty⟩ }
    · obtain ⟨b, hb⟩ := not_forall.1 hempty
      rw [Bool.not_eq_false] at hb
      have hsupported (b : Bool) (hb : values.contains b = true) := hreceived.supported houtputs hb
      by_cases hagrees : values.definite = some coin
      · refine .inl ⟨?_, hbefore.sync_agrees hundecided hentered hsupported ⟨b, hb⟩ hcoin hagrees⟩
        rintro ⟨values', coin', houtputs', -, hvalue', hdiffers⟩
        rw [hvalue, Option.some.injEq] at hvalue'
        rw [houtputs'.unique houtputs, ← hvalue'] at hdiffers
        exact hdiffers hagrees
      · exact .inr ⟨⟨values, coin, houtputs, ⟨b, hb⟩, hvalue, hagrees⟩,
          hbefore.sync_splits hundecided hentered ⟨b, hb⟩ hcoin hagrees⟩

/-- With the coin known and no values set, only the broadcast of values can do more than note what it is
told. -/
theorem handleMessageContent_of_decided {content : AbaMessage} {out : List Payload}
    (hcoin : ∃ coin, ba.coinState = .decided coin) (hconf : ba.confValues = none)
    (hother : ∀ id msg, content ≠ .baBroadcast id msg)
    (htaken : ba.handleMessageContent X source content = some (ba', out)) :
    ∃ conf coin sig, ba' = { ba with confReceived := conf, coinState := .decided coin, signature := sig } := by
  obtain ⟨coin, hcoin'⟩ := id hcoin
  cases content with
  | baBroadcast id msg => exact absurd rfl (hother id msg)
  | conf id values =>
    have hpost := htaken.symm.trans (handleConf_of_decided hcoin id values)
    obtain ⟨rfl, -⟩ := Prod.mk.inj (Option.some.inj hpost)
    exact ⟨_, coin, ba.signature, by rw [← hcoin']⟩
  | term id value =>
    obtain ⟨rfl, -⟩ := Prod.mk.inj (Option.some.inj htaken)
    exact ⟨ba.confReceived, coin, ba.signature, by rw [← hcoin']⟩
  | coin id value =>
    have hpost := htaken.symm.trans (handleCoin_of_decided hcoin hconf id value)
    obtain ⟨rfl, -⟩ := Prod.mk.inj (Option.some.inj hpost)
    obtain ⟨coin', hsigned⟩ := signedCoin_decided hcoin
    exact ⟨ba.confReceived, coin', ba.signature, by rw [← hsigned]⟩
  | signature id sig =>
    obtain ⟨rfl, -⟩ := Prod.mk.inj (Option.some.inj htaken)
    exact ⟨ba.confReceived, coin, _, by rw [← hcoin']; rfl⟩

/-- A splitting message is current, and one of the broadcast of values. -/
theorem Splits.current {msg : AgreementMessage} (h : Splits ba (.message source msg)) :
    ba.Current msg ∧ ∃ id content, msg.content = .baBroadcast id content := by
  obtain ⟨epoch, content⟩ := msg
  cases content with
  | baBroadcast id msg => exact ⟨⟨h.1, h.2.1⟩, id, msg, rfl⟩
  | conf | term | coin | signature => exact h.elim

/-- One step in the first epoch. -/
theorem EpochZero.step (h : EpochZero netinfo run ba) (htaken : ba.step X t.event = some (t.post, t.out)) :
    ¬ Splits ba t.event ∧ EpochZero netinfo (run ++ [t]) t.post ∨ Splits ba t.event ∧ EpochOne t.post := by
  have hbefore := h.concat t
  cases hevent : t.event with
  | propose input =>
    rw [hevent] at htaken
    obtain ⟨hpost, -⟩ := Prod.mk.inj (Option.some.inj htaken)
    refine .inl ⟨id, ?_⟩
    rw [← hpost]
    exact hbefore.propose input
  | message source msg =>
    rw [hevent] at htaken
    rcases BinaryAgreement.handleMessage_cases htaken with
      ⟨hnot, -, hpost, -⟩ | ⟨hlater, hqueued, -⟩ | ⟨hcurrent, hcontent, -⟩
    · refine .inl ⟨fun hsplits ↦ hnot hsplits.current.1, ?_⟩
      rw [hpost]
      exact hbefore
    · refine .inl ⟨fun hsplits ↦ hlater.not_current hsplits.current.1, ?_⟩
      obtain ⟨received, -, hpost⟩ := BinaryAgreement.eq_of_enqueue hqueued
      rw [hpost]
      exact { hbefore with }
    · by_cases hvalues : ∃ id content, msg.content = .baBroadcast id content
      · obtain ⟨epoch, _⟩ := msg
        obtain ⟨id, content, rfl⟩ := hvalues
        obtain rfl : epoch = 0 := hcurrent.2.trans h.epoch
        rw [← hevent]
        exact h.babroadcast hcurrent.1 hevent hcontent
      · refine .inl ⟨fun hsplits ↦ hvalues hsplits.current.2, ?_⟩
        obtain ⟨conf, coin, sig, hpost⟩ := handleMessageContent_of_decided h.coin (h.undecided hcurrent.1).1
          (fun id content heq ↦ hvalues ⟨id, content, heq⟩) hcontent
        rw [hpost]
        exact { hbefore with coin := ⟨coin, rfl⟩ }

/-- One step in the second epoch, which is never left. -/
theorem EpochOne.step (h : EpochOne ba) (htaken : ba.step X t.event = some (t.post, t.out)) :
    ¬ Splits ba t.event ∧ EpochOne t.post := by
  cases hevent : t.event with
  | propose input =>
    rw [hevent] at htaken
    have hcannot : ba.canPropose = false := by simp [BinaryAgreement.canPropose, h.epoch]
    simp only [BinaryAgreement.step, BinaryAgreement.propose, if_pos hcannot] at htaken
    obtain ⟨hpost, -⟩ := Prod.mk.inj (Option.some.inj htaken)
    rw [← hpost]
    exact ⟨id, h⟩
  | message source msg =>
    rw [hevent] at htaken
    rcases BinaryAgreement.handleMessage_cases htaken with
      ⟨hnot, -, hpost, -⟩ | ⟨hlater, hqueued, -⟩ | ⟨hcurrent, hcontent, -⟩
    · refine ⟨fun hsplits ↦ hnot hsplits.current.1, ?_⟩
      rw [hpost]
      exact h
    · refine ⟨fun hsplits ↦ hlater.not_current hsplits.current.1, ?_⟩
      obtain ⟨received, -, hpost⟩ := BinaryAgreement.eq_of_enqueue hqueued
      rw [hpost]
      exact { h with }
    · have hother (id : String) (content : BaMessage) : msg.content ≠ .baBroadcast id content := by
        -- there is no entry for the value, so the handler would have panicked
        intro hvalues
        rw [hvalues, h.content_eq_none] at hcontent
        cases hcontent
      refine ⟨fun hsplits ↦ ?_, ?_⟩
      · obtain ⟨id, content, hvalues⟩ := hsplits.current.2
        exact hother id content hvalues
      · obtain ⟨conf, coin, sig, hpost⟩ := handleMessageContent_of_decided h.coin h.confValues hother hcontent
        rw [hpost]
        exact { h with coin := ⟨coin, rfl⟩ }

end Steps

/-! ## Runs -/

section Runs

variable {netinfo : Network} {nonce : ℕ} {proposerId : String} {run : AgreementRun} {s : BinaryAgreement}

theorem BvZero.initial : BvZero netinfo [] (BvBroadcast.new netinfo 0 proposerId) := by
  have hentries := BvBroadcast.entries_new netinfo 0 proposerId
  exact {
    epoch := rfl
    network := rfl
    bvalFrom := fun b ↦ (hentries b).1.1
    bvalSenders := fun b ↦ (hentries b).1.2 ▸ Finset.empty_subset _
    auxFrom := fun b ↦ (hentries b).2.1
    auxSenders := fun b ↦ (hentries b).2.2 ▸ Finset.empty_subset _
    binValues := fun b hb ↦ by cases hb.symm.trans (BoolSet.contains_NONE b) }

theorem EpochZero.initial : EpochZero netinfo [] (BinaryAgreement.new netinfo nonce proposerId) where
  epoch := rfl
  bv := .initial
  output := fun b hb ↦ by cases hb.symm.trans (BoolSet.contains_NONE b)
  bvOutput := fun b hb ↦ by cases hb.symm.trans (BoolSet.contains_NONE b)
  confValues := fun _ hvalues ↦ by cases hvalues
  coin := ⟨true, rfl⟩
  termReceived := rfl
  undecided := fun _ ↦ ⟨rfl, BoolSet.contains_NONE⟩
  decided := fun h ↦ by cases h

/-- An instance is in its first epoch until a message splits, and in its second from then on. -/
theorem epochZero_or_epochOne
    (h : IsRun (BinaryAgreement.step X) (BinaryAgreement.new netinfo nonce proposerId) run s) :
    (∀ t ∈ run, ¬ Splits t.pre t.event) ∧ EpochZero netinfo run s ∨
      (∃ t ∈ run, Splits t.pre t.event) ∧ EpochOne s := by
  induction h with
  | nil => exact .inl ⟨List.forall_mem_nil _, .initial⟩
  | @snoc run s s' event out previous taken ih =>
    rcases ih with ⟨hnone, hzero⟩ | ⟨⟨t, ht, hsplits⟩, hone⟩
    · rcases hzero.step (t := ⟨s, event, out, s'⟩) taken with ⟨hnot, hpost⟩ | ⟨hsplits, hpost⟩
      · exact .inl ⟨List.forall_mem_append.2 ⟨hnone, List.forall_mem_singleton.2 hnot⟩, hpost⟩
      · exact .inr ⟨⟨_, List.mem_concat_self, hsplits⟩, hpost⟩
    · exact .inr ⟨⟨t, List.mem_append_left _ ht, hsplits⟩, (hone.step (t := ⟨s, event, out, s'⟩) taken).2⟩

/-- A state that is reached is consistent unless a message on the way to it was one that splits. -/
theorem epochConsistent_iff
    (h : IsRun (BinaryAgreement.step X) (BinaryAgreement.new netinfo nonce proposerId) run s) :
    EpochConsistent netinfo.faultNum run s ↔ ∀ t ∈ run, ¬ Splits t.pre t.event := by
  rcases epochZero_or_epochOne h with ⟨hnone, hzero⟩ | ⟨⟨t, ht, hsplits⟩, hone⟩
  · exact ⟨fun _ ↦ hnone, fun _ ↦ hzero.consistent⟩
  · exact ⟨fun hconsistent ↦ absurd hconsistent hone.not_consistent, fun hnone ↦ absurd hsplits (hnone t ht)⟩

end Runs

/-! ## A run into the second epoch -/

/-- A BVAL and an AUX of the first epoch, from a node. -/
def bvalAndAux (b : Bool) (source : String) : List BinaryAgreement.Event :=
  [.message source ⟨0, .baBroadcast source (.bval source b)⟩, .message source ⟨0, .baBroadcast source (.aux source b)⟩]

def agreementRun (events : List BinaryAgreement.Event) : AgreementRun :=
  transitions (BinaryAgreement.step .transparent) (.new fourNodes 0 "b") events

def agreementFinal (events : List BinaryAgreement.Event) : BinaryAgreement :=
  final (BinaryAgreement.step .transparent) (.new fourNodes 0 "b") events

/-- All the other nodes say that the value is `false`. -/
def falseEvents : List BinaryAgreement.Event := ["b", "c", "d"].flatMap (bvalAndAux false)

theorem isRun_falseEvents : IsRun (BinaryAgreement.step .transparent) (.new fourNodes 0 "b")
    (agreementRun falseEvents) (agreementFinal falseEvents) :=
  IsRun.of_isSome (by decide +kernel)

theorem epochConsistent_iff_falseEvents :
    EpochConsistent fourNodes.faultNum (agreementRun falseEvents) (agreementFinal falseEvents) ↔
      ∀ t ∈ agreementRun falseEvents, ¬ Splits t.pre t.event :=
  epochConsistent_iff isRun_falseEvents

/-- The epoch changes, and that of the broadcast of values does not. -/
theorem not_epochConsistent_falseEvents :
    (agreementFinal falseEvents).epoch = 1 ∧ (agreementFinal falseEvents).baBroadcast.epoch = 0 ∧
      ¬ EpochConsistent fourNodes.faultNum (agreementRun falseEvents) (agreementFinal falseEvents) := by
  refine ⟨by decide +kernel, by decide +kernel, fun h ↦ ?_⟩
  exact absurd h.epoch (by decide +kernel)

end BFTDiagnosis.Honeybadger
