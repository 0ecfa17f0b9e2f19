import BFTDiagnosis.Honeybadger.BinaryValues

/-!
# What binary agreement says and decides

An instance sends BVALs and AUXs only, and it decides in its first epoch. A BVAL is sent for the value that was
proposed, or after BVALs for the value have come from more nodes than can be faulty; a decision is for a value
with BVALs from `2 * f + 1` nodes, whatever coin the instance was told.
-/

namespace BFTDiagnosis.Honeybadger

/-! ## The values that are output -/

/-- Only the two lowest bits of the values are set. -/
theorem bits_of_foldlM_tally {bv : BvBroadcast} {list : List Bool} {found : ℕ × BoolSet} {count : ℕ}
    {values : BoolSet} (h : list.foldlM bv.tally found = some (count, values)) (hfound : found.2.bits ≤ 3) :
    values.bits ≤ 3 := by
  induction list generalizing found with
  | nil =>
    obtain rfl : found = (count, values) := Option.some.inj h
    exact hfound
  | cons b rest ih =>
    simp only [List.foldlM_cons, BvBroadcast.tally, bind, pure, Option.bind_eq_some_iff, Option.some.injEq] at h
    obtain ⟨_, ⟨senders, -, rfl⟩, hrest⟩ := h
    apply ih hrest
    split
    · exact BoolSet.bits_insert_le b hfound
    · exact hfound

theorem bits_of_countAux {bv : BvBroadcast} {count : ℕ} {values : BoolSet}
    (h : bv.countAux = some (count, values)) : values.bits ≤ 3 :=
  bits_of_foldlM_tally h (by decide)

/-- What a set stands for when a default is given is in it, unless it is empty. -/
theorem BoolSet.contains_definite_getD {s : BoolSet} (hbits : s.bits ≤ 3) (hsome : ∃ b, s.contains b = true)
    (coin : Bool) : s.contains (s.definite.getD coin) = true := by
  obtain ⟨b, hb⟩ := hsome
  revert hbits hb
  revert s
  apply BoolSet.forall_of_bits
  cases b <;> cases coin <;> decide +kernel

theorem BoolSet.contains_of_definite {s : BoolSet} {b : Bool} (h : s.definite = some b) : s.contains b = true := by
  revert h
  revert s
  apply BoolSet.forall_of_bits
  cases b <;> decide +kernel

/-! ## What a broadcast of values sends -/

namespace BvBroadcast

theorem payload_of_tryOutput {bv bv' : BvBroadcast} (h : bv.tryOutput = some bv') :
    bv'.payload = bv.payload ∧ bv'.proposerId = bv.proposerId := by
  unfold tryOutput at h
  split at h
  case isTrue =>
    rw [← Option.some.inj h]
    exact ⟨rfl, rfl⟩
  case isFalse =>
    obtain ⟨_, -, hresult⟩ := Option.bind_eq_some_iff.1 h
    rw [← Option.some.inj hresult]
    split <;> exact ⟨rfl, rfl⟩

/-- The last turn of `handle_bval` adds a BVAL at most. -/
theorem payloads_of_relay {bv bv₁ bv' : BvBroadcast} {sent out : List Payload} {count : ℕ} {b : Bool}
    (hsent : ∀ payload ∈ sent, ∃ m, payload = bv.payload m)
    (hframe : bv₁.payload = bv.payload ∧ bv₁.proposerId = bv.proposerId)
    (h : some (bv₁, if count = bv₁.network.getFaultNum + 1 then sent ++ bv₁.sendBval b else sent) = some (bv', out)) :
    (∀ payload ∈ out, ∃ m, payload = bv.payload m) ∧ bv'.proposerId = bv.proposerId := by
  obtain ⟨rfl, rfl⟩ := Prod.mk.inj (Option.some.inj h)
  refine ⟨?_, hframe.2⟩
  split
  case isTrue =>
    exact List.forall_mem_append.2 ⟨hsent, List.forall_mem_singleton.2 ⟨_, congrFun hframe.1 _⟩⟩
  case isFalse => exact hsent

/-- Everything that is sent is a message of the instance. -/
theorem payloads_of_handleMessage {bv bv' : BvBroadcast} {source : String} {msg : BaMessage} {out : List Payload}
    (h : bv.handleMessage source msg = some (bv', out)) :
    (∀ payload ∈ out, ∃ m, payload = bv.payload m) ∧ bv'.proposerId = bv.proposerId := by
  cases msg with
  | aux id b =>
    obtain ⟨bv₁, htried, hpair⟩ := Option.map_eq_some_iff.1 h
    obtain ⟨rfl, rfl⟩ := Prod.mk.inj hpair
    obtain ⟨senders, -, htried⟩ := Option.bind_eq_some_iff.1 htried
    refine ⟨List.forall_mem_nil _, ?_⟩
    split at htried
    case isTrue => rw [← Option.some.inj htried]
    case isFalse => exact (payload_of_tryOutput htried).2
  | bval id b =>
    obtain ⟨senders, -, h⟩ := Option.bind_eq_some_iff.1 h
    split at h
    case isTrue =>
      obtain ⟨rfl, rfl⟩ := Prod.mk.inj (Option.some.inj h)
      exact ⟨List.forall_mem_nil _, rfl⟩
    case isFalse =>
      dsimp only at h
      split at h
      case isTrue =>
        split at h
        case isTrue =>
          obtain ⟨⟨bv₁, sent⟩, hfirst, hresult⟩ := Option.bind_eq_some_iff.1 h
          obtain ⟨rfl, rfl⟩ := Prod.mk.inj (Option.some.inj hfirst)
          refine payloads_of_relay ?_ ?_ hresult
          · exact List.forall_mem_singleton.2 ⟨_, rfl⟩
          · exact ⟨rfl, rfl⟩
        case isFalse =>
          obtain ⟨⟨bv₁, sent⟩, htried, hresult⟩ := Option.bind_eq_some_iff.1 h
          obtain ⟨_, htry, hpair⟩ := Option.map_eq_some_iff.1 htried
          obtain ⟨rfl, rfl⟩ := Prod.mk.inj hpair
          have hframe := payload_of_tryOutput htry
          refine payloads_of_relay ?_ ?_ hresult
          · exact List.forall_mem_nil _
          · exact hframe
      case isFalse =>
        obtain ⟨⟨bv₁, sent⟩, hfirst, hresult⟩ := Option.bind_eq_some_iff.1 h
        obtain ⟨rfl, rfl⟩ := Prod.mk.inj (Option.some.inj hfirst)
        refine payloads_of_relay ?_ ?_ hresult
        · exact List.forall_mem_nil _
        · exact ⟨rfl, rfl⟩

end BvBroadcast

/-! ## One step of an instance -/

/-- What an event can do to an instance in its first epoch: it sends nothing, proposes a value, or enters a BVAL or
an AUX. With the values of the epoch there, the entry decides or starts the next epoch. -/
inductive Acted (ba : BinaryAgreement) (event : BinaryAgreement.Event) : BinaryAgreement → List Payload → Prop
  | quiet {ba' : BinaryAgreement} (decision : ba'.decision = ba.decision) : Acted ba event ba' []
  | proposed {ba' : BinaryAgreement} {input : Bool} (event_eq : event = .propose input)
      (decision : ba'.decision = ba.decision) : Acted ba event ba' (ba.baBroadcast.sendBval input)
  | entered {ba' : BinaryAgreement} {source id : String} {msg : BaMessage} {bv : BvBroadcast} {sent : List Payload}
      (event_eq : event = .message source ⟨0, .baBroadcast id msg⟩)
      (handled : ba.baBroadcast.handleMessage source msg = some (bv, sent)) (decision : ba'.decision = none) :
      Acted ba event ba' sent
  | decided {ba' : BinaryAgreement} {source id : String} {msg : BaMessage} {bv : BvBroadcast} {sent : List Payload}
      {b : Bool} (event_eq : event = .message source ⟨0, .baBroadcast id msg⟩)
      (handled : ba.baBroadcast.handleMessage source msg = some (bv, sent))
      (output : ba.baBroadcast.Outputs source msg bv.output) (agrees : bv.output.definite = some b)
      (decision : ba'.decision = some b) : Acted ba event ba' sent
  | split {ba' : BinaryAgreement} {source id : String} {msg : BaMessage} {bv : BvBroadcast} {sent : List Payload}
      {b : Bool} (event_eq : event = .message source ⟨0, .baBroadcast id msg⟩)
      (handled : ba.baBroadcast.handleMessage source msg = some (bv, sent))
      (output : ba.baBroadcast.Outputs source msg bv.output) (estimate : bv.output.contains b = true)
      (decision : ba'.decision = none) : Acted ba event ba' (sent ++ bv.sendBval b)

section Steps

variable {X : Externals} {netinfo : Network} {run : AgreementRun} {ba ba' : BinaryAgreement}

/-- The outcome of entering a BVAL or an AUX in the first epoch. -/
theorem EpochZero.acted_babroadcast (h : EpochZero netinfo run ba) (hundecided : ba.decision = none)
    {source id : String} {msg : BaMessage} {out : List Payload}
    (htaken : ba.handleBabroadcast X source msg = some (ba', out)) :
    Acted ba (.message source ⟨0, .baBroadcast id msg⟩) ba' out ∧
      ba'.baBroadcast.proposerId = ba.baBroadcast.proposerId := by
  obtain ⟨hconf, hnone⟩ := h.undecided hundecided
  obtain ⟨coin, hcoin⟩ := h.coin
  simp only [BinaryAgreement.handleBabroadcast, bind, pure, Option.bind_eq_some_iff, Prod.exists,
    Option.some.injEq, Prod.mk.injEq] at htaken
  obtain ⟨bv, sent, hhandled, rfl, rfl⟩ := htaken
  have hid : bv.proposerId = ba.baBroadcast.proposerId := (BvBroadcast.payloads_of_handleMessage hhandled).2
  by_cases hempty : ∀ b, bv.output.contains b = false
  · rw [BinaryAgreement.handleBabroadcastSync_of_none hempty, List.append_nil]
    exact ⟨.entered rfl hhandled hundecided, hid⟩
  · obtain ⟨b, hb⟩ := not_forall.1 hempty
    rw [Bool.not_eq_false] at hb
    have houtput : ba.baBroadcast.Outputs source msg bv.output := by
      cases BvBroadcast.handleMessage_cases hhandled with
      | seen => exact absurd hb (by rw [hnone]; exact Bool.false_ne_true)
      | entered =>
        rw [(BvBroadcast.network_received ba.baBroadcast source msg).2.2.2, hnone] at hb
        cases hb
      | output houtputs => exact houtputs
    have hbits : bv.output.bits ≤ 3 := by
      obtain ⟨-, -, -, -, count, hcount, -⟩ := houtput
      exact bits_of_countAux hcount
    have hconf' : ({ ba with baBroadcast := bv } : BinaryAgreement).confValues = none := hconf
    have hsome : ∃ b, ({ ba with baBroadcast := bv } : BinaryAgreement).baBroadcast.output.contains b = true := ⟨b, hb⟩
    rw [BinaryAgreement.handleBabroadcastSync_of_decided hsome hconf' hundecided hcoin]
    by_cases hagrees : bv.output.definite = some coin
    · rw [if_pos hagrees, List.append_nil]
      exact ⟨.decided rfl hhandled houtput hagrees rfl, hid⟩
    · rw [if_neg hagrees]
      have hestimate := BoolSet.contains_definite_getD hbits ⟨b, hb⟩ coin
      refine ⟨?_, hid⟩
      -- the entries are taken away, but the BVAL is still one of the first epoch
      change Acted ba _ _ (sent ++ bv.sendBval (bv.output.definite.getD coin))
      exact .split rfl hhandled houtput hestimate hundecided

/-- With the coin known and no values set, what is not a BVAL or an AUX is answered with nothing. -/
theorem quiet_of_decided {source : String} {content : AbaMessage} {out : List Payload}
    (hcoin : ∃ coin, ba.coinState = .decided coin) (hconf : ba.confValues = none)
    (hother : ∀ id msg, content ≠ .baBroadcast id msg)
    (htaken : ba.handleMessageContent X source content = some (ba', out)) : out = [] := by
  obtain ⟨coin, hcoin'⟩ := id hcoin
  cases content with
  | baBroadcast id msg => exact absurd rfl (hother id msg)
  | conf id values =>
    have hpost := htaken.symm.trans (handleConf_of_decided hcoin id values)
    exact (Prod.mk.inj (Option.some.inj hpost)).2
  | coin id value =>
    have hpost := htaken.symm.trans (handleCoin_of_decided hcoin hconf id value)
    exact (Prod.mk.inj (Option.some.inj hpost)).2
  | term id value | signature id sig => exact (Prod.mk.inj (Option.some.inj htaken)).2.symm

/-- A message of another epoch or after the decision, or one that is not of the broadcast of values. -/
theorem quiet_of_handleMessage {source : String} {msg : AgreementMessage} {out : AgreementOut}
    (hcoin : ∃ coin, ba.coinState = .decided coin) (hconf : ba.decision = none → ba.confValues = none)
    (hother : ba.Current msg → ∀ id content, msg.content ≠ .baBroadcast id content)
    (htaken : ba.handleMessage X source msg = some (ba', out)) :
    out.1 = [] ∧ ba'.decision = ba.decision ∧ ba'.baBroadcast = ba.baBroadcast := by
  rcases BinaryAgreement.handleMessage_cases htaken with ⟨-, -, rfl, rfl⟩ | ⟨-, hqueued, rfl⟩ | ⟨hcurrent, hcontent, -⟩
  · exact ⟨rfl, rfl, rfl⟩
  · obtain ⟨received, -, rfl⟩ := BinaryAgreement.eq_of_enqueue hqueued
    exact ⟨rfl, rfl, rfl⟩
  · have hquiet := quiet_of_decided hcoin (hconf hcurrent.1) (hother hcurrent) hcontent
    obtain ⟨_, _, _, rfl⟩ := handleMessageContent_of_decided hcoin (hconf hcurrent.1) (hother hcurrent) hcontent
    exact ⟨hquiet, rfl, rfl⟩

/-- A proposal in the first epoch sends its BVAL or nothing, and nothing is decided by it. -/
theorem EpochZero.acted_propose (h : EpochZero netinfo run ba) (input : Bool) :
    Acted ba (.propose input) (ba.propose X input).1 (ba.propose X input).2 ∧
      (ba.propose X input).1.baBroadcast.proposerId = ba.baBroadcast.proposerId := by
  unfold BinaryAgreement.propose
  split
  case isTrue => exact ⟨.quiet rfl, rfl⟩
  case isFalse =>
    dsimp only
    by_cases hnone : ∀ b, ba.baBroadcast.output.contains b = false
    · have hnone' : ∀ b, ({ ba with estimated := some input } : BinaryAgreement).baBroadcast.output.contains b = false :=
        hnone
      rw [BinaryAgreement.handleBabroadcastSync_of_none hnone']
      simp only [List.append_nil]
      exact ⟨.proposed rfl rfl, trivial⟩
    · -- there is an output after the decision only
      obtain ⟨b, hb⟩ := not_forall.1 hnone
      rw [Bool.not_eq_false] at hb
      have hdecided : ba.decision.isSome = true := by
        rw [Option.isSome_iff_ne_none]
        intro hundecided
        rw [(h.undecided hundecided).2 b] at hb
        cases hb
      have hconf : ({ ba with estimated := some input } : BinaryAgreement).confValues.isSome = true :=
        h.decided hdecided
      have hsome : ∃ b, ({ ba with estimated := some input } : BinaryAgreement).baBroadcast.output.contains b = true :=
        ⟨b, hb⟩
      rw [BinaryAgreement.handleBabroadcastSync_of_conf hsome hconf]
      simp only [List.append_nil]
      exact ⟨.proposed rfl rfl, trivial⟩

theorem EpochZero.acted (h : EpochZero netinfo run ba) {event : BinaryAgreement.Event} {out : AgreementOut}
    (htaken : ba.step X event = some (ba', out)) :
    Acted ba event ba' out.1 ∧ ba'.baBroadcast.proposerId = ba.baBroadcast.proposerId := by
  cases event with
  | propose input =>
    have hpost : (ba.propose X input).1 = ba' := (Prod.mk.inj (Option.some.inj htaken)).1
    have hout : ((ba.propose X input).2, none) = out := (Prod.mk.inj (Option.some.inj htaken)).2
    rw [← hpost, ← hout]
    exact h.acted_propose input
  | message source msg =>
    by_cases hvalues : ba.Current msg ∧ ∃ id content, msg.content = .baBroadcast id content
    · obtain ⟨hcurrent, id, content, hcontent⟩ := hvalues
      obtain ⟨epoch, _⟩ := msg
      obtain rfl := hcontent
      obtain rfl : epoch = 0 := hcurrent.2.trans h.epoch
      change ba.handleMessage X source _ = _ at htaken
      rw [BinaryAgreement.handleMessage_of_current hcurrent] at htaken
      obtain ⟨⟨ba'', sent⟩, hhandled, hpair⟩ := Option.map_eq_some_iff.1 htaken
      obtain ⟨rfl, rfl⟩ := Prod.mk.inj hpair
      exact h.acted_babroadcast hcurrent.1 hhandled
    · obtain ⟨hquiet, hdecision, hbroadcast⟩ := quiet_of_handleMessage h.coin (fun hnone ↦ (h.undecided hnone).1)
        (fun hcurrent id content hcontent ↦ hvalues ⟨hcurrent, id, content, hcontent⟩) htaken
      rw [hquiet, hbroadcast]
      exact ⟨.quiet hdecision, rfl⟩

/-- In the second epoch nothing is sent and nothing is decided. -/
theorem EpochOne.quiet (h : EpochOne ba) {event : BinaryAgreement.Event} {out : AgreementOut}
    (htaken : ba.step X event = some (ba', out)) :
    out.1 = [] ∧ ba'.decision = none ∧ ba'.baBroadcast = ba.baBroadcast := by
  cases event with
  | propose input =>
    have hpost : (ba.propose X input).1 = ba' := (Prod.mk.inj (Option.some.inj htaken)).1
    have hout : ((ba.propose X input).2, none) = out := (Prod.mk.inj (Option.some.inj htaken)).2
    have hcannot : ba.canPropose = false := by simp [BinaryAgreement.canPropose, h.epoch]
    have hsame : ba.propose X input = (ba, []) := if_pos hcannot
    rw [← hpost, ← hout, hsame]
    exact ⟨rfl, h.decision, rfl⟩
  | message source msg =>
    rw [← h.decision]
    refine quiet_of_handleMessage h.coin (fun _ ↦ h.confValues) (fun hcurrent id content hcontent ↦ ?_) htaken
    -- there is no entry for the value, so the handler would have panicked
    obtain ⟨epoch, _⟩ := msg
    obtain rfl := hcontent
    change ba.handleMessage X source _ = _ at htaken
    rw [BinaryAgreement.handleMessage_of_current hcurrent, h.content_eq_none] at htaken
    cases htaken

end Steps

/-! ## Runs of an instance -/

/-- The value was proposed, or more nodes than can be faulty have sent a BVAL for it. -/
def Justified (f : ℕ) (run : AgreementRun) (b : Bool) : Prop :=
  (∃ t ∈ run, t.event = .propose b) ∨ f + 1 ≤ (baSenders run 0 (BaMessage.isBval b)).card

theorem Justified.concat {f : ℕ} {run : AgreementRun} {b : Bool} (h : Justified f run b)
    (t : Transition BinaryAgreement BinaryAgreement.Event AgreementOut) : Justified f (run ++ [t]) b := by
  rcases h with ⟨u, hu, hpropose⟩ | hmany
  · exact .inl ⟨u, List.mem_append_left _ hu, hpropose⟩
  · refine .inr (hmany.trans ?_)
    rw [baSenders_concat]
    exact Finset.card_le_card Finset.subset_union_left

theorem Supported.justified {f : ℕ} {run : AgreementRun} {b : Bool} (h : Supported f run 0 b) : Justified f run b :=
  .inr (by have hquorum := h.1; omega)

/-- A message about the proposer that a BVAL is justified by the run, if it is one. -/
structure Sayable (f : ℕ) (proposerId : String) (run : AgreementRun) (payload : Payload) : Prop where
  about : ∃ name msg, payload = .subset ⟨proposerId, .agreement name msg⟩
  bval : ∀ id b, payload.baMessage = some (.bval id b) → Justified f run b

theorem Sayable.concat {f : ℕ} {proposerId : String} {run : AgreementRun} {payload : Payload}
    (h : Sayable f proposerId run payload) (t : Transition BinaryAgreement BinaryAgreement.Event AgreementOut) :
    Sayable f proposerId (run ++ [t]) payload :=
  ⟨h.about, fun id b hbval ↦ (h.bval id b hbval).concat t⟩

/-- What an instance has said so far and what it has decided. -/
structure Spoken (netinfo : Network) (proposerId : String) (run : AgreementRun) (ba : BinaryAgreement) : Prop where
  proposer : ba.baBroadcast.proposerId = proposerId
  decision : ∀ b, ba.decision = some b → Supported netinfo.faultNum run 0 b
  said : ∀ t ∈ run, ∀ payload ∈ t.out.1, Sayable netinfo.faultNum proposerId run payload

section Runs

variable {X : Externals} {netinfo : Network} {nonce : ℕ} {proposerId : String} {run : AgreementRun}
  {ba ba' : BinaryAgreement} {t : Transition BinaryAgreement BinaryAgreement.Event AgreementOut}

/-- A BVAL is sent for a value when more nodes than can be faulty have sent theirs. -/
theorem EpochZero.sayable_of_handleMessage (h : EpochZero netinfo run ba) {source id : String} {msg : BaMessage}
    {bv : BvBroadcast} {sent : List Payload} (hevent : t.event = .message source ⟨0, .baBroadcast id msg⟩)
    (hhandled : ba.baBroadcast.handleMessage source msg = some (bv, sent)) :
    ∀ payload ∈ sent, Sayable netinfo.faultNum ba.baBroadcast.proposerId (run ++ [t]) payload := by
  intro payload hpayload
  constructor
  case about =>
    obtain ⟨m, rfl⟩ := (BvBroadcast.payloads_of_handleMessage hhandled).1 payload hpayload
    exact ⟨_, _, rfl⟩
  case bval =>
    intro name b hbval
    have hstep : ba.baBroadcast.step ⟨source, msg⟩ = some (bv, sent) := hhandled
    have hmem : BaMessage.bval name b ∈ sent.filterMap Payload.baMessage := List.mem_filterMap.2 ⟨_, hpayload, hbval⟩
    rw [BvBroadcast.out_of_step hstep, List.mem_append, List.mem_map, List.mem_map] at hmem
    obtain ⟨value, -, hvalue⟩ | ⟨value, hreaches, hvalue⟩ := hmem
    · cases hvalue
    · obtain ⟨-, rfl⟩ := BaMessage.bval.inj hvalue
      obtain ⟨hkind, hunseen, hcount⟩ := of_decide_eq_true (List.mem_filter.1 hreaches).2
      have hmessage : t.event.baMessage = some (source, 0, msg) := by rw [hevent]; rfl
      have hnew : insert source (BvBroadcast.sendersOf ba.baBroadcast.bvalFrom value) ⊆
          baSenders (run ++ [t]) 0 (BaMessage.isBval value) := by
        rw [baSenders_concat]
        apply Finset.insert_subset
        · exact Finset.mem_union_right _ (mem_baSenders_singleton hmessage hkind)
        · exact (h.bv.bvalSenders value).trans Finset.subset_union_left
      have hcard := Finset.card_le_card hnew
      rw [Finset.card_insert_of_notMem hunseen, hcount, h.bv.network] at hcard
      exact .inr hcard

/-- One step in the first epoch. -/
theorem Spoken.concat (h : Spoken netinfo proposerId run ba) (hzero : EpochZero netinfo run ba)
    (htaken : ba.step X t.event = some (t.post, t.out)) :
    Spoken netinfo proposerId (run ++ [t]) t.post := by
  obtain ⟨hacted, hid⟩ := hzero.acted htaken
  have hsaid : ∀ payload ∈ t.out.1, Sayable netinfo.faultNum proposerId (run ++ [t]) payload := by
    rw [← h.proposer]
    generalize t.out.1 = out at hacted
    cases hacted with
    | quiet => exact List.forall_mem_nil _
    | proposed event_eq =>
      refine List.forall_mem_singleton.2 ⟨⟨_, _, rfl⟩, ?_⟩
      rintro name b hbval
      obtain ⟨-, rfl⟩ := BaMessage.bval.inj (Option.some.inj hbval)
      exact .inl ⟨t, List.mem_concat_self, event_eq⟩
    | entered event_eq handled => exact hzero.sayable_of_handleMessage event_eq handled
    | decided event_eq handled => exact hzero.sayable_of_handleMessage event_eq handled
    | split event_eq handled output estimate =>
      refine List.forall_mem_append.2 ⟨hzero.sayable_of_handleMessage event_eq handled, ?_⟩
      rw [← (BvBroadcast.payloads_of_handleMessage handled).2]
      refine List.forall_mem_singleton.2 ⟨⟨_, _, rfl⟩, ?_⟩
      rintro name b hbval
      obtain ⟨-, rfl⟩ := BaMessage.bval.inj (Option.some.inj hbval)
      have hreceived := hzero.bv.received (t := t) (by rw [event_eq]; rfl)
      exact (hreceived.supported output estimate).justified
  refine ⟨hid.trans h.proposer, ?_, ?_⟩
  · intro b hb
    generalize t.out.1 = out at hacted
    generalize hpost : t.post = post at hacted hb
    cases hacted with
    | quiet decision => exact (h.decision b (decision.symm.trans hb)).concat t
    | proposed _ decision => exact (h.decision b (decision.symm.trans hb)).concat t
    | entered _ _ decision => cases decision.symm.trans hb
    | decided event_eq _ output agrees decision =>
      obtain rfl := Option.some.inj (decision.symm.trans hb)
      have hreceived := hzero.bv.received (t := t) (by rw [event_eq]; rfl)
      exact hreceived.supported output (BoolSet.contains_of_definite agrees)
    | split _ _ _ _ decision => cases decision.symm.trans hb
  · exact List.forall_mem_append.2 ⟨fun u hu payload hpayload ↦ (h.said u hu payload hpayload).concat t,
      List.forall_mem_singleton.2 hsaid⟩

theorem Spoken.concat_quiet (h : Spoken netinfo proposerId run ba) (hone : EpochOne ba)
    (htaken : ba.step X t.event = some (t.post, t.out)) : Spoken netinfo proposerId (run ++ [t]) t.post := by
  obtain ⟨hquiet, hnone, hbroadcast⟩ := hone.quiet htaken
  refine ⟨hbroadcast.symm ▸ h.proposer, fun b hb ↦ ?_, ?_⟩
  · cases hnone.symm.trans hb
  · refine List.forall_mem_append.2 ⟨fun u hu payload hpayload ↦ (h.said u hu payload hpayload).concat t, ?_⟩
    rw [List.forall_mem_singleton, hquiet]
    exact List.forall_mem_nil _

/-- An instance says nothing but what it has a reason to say, and decides a value with enough BVALs. -/
theorem spoken_of_isRun
    (h : IsRun (BinaryAgreement.step X) (BinaryAgreement.new netinfo nonce proposerId) run ba) :
    Spoken netinfo proposerId run ba := by
  induction h with
  | nil =>
    refine ⟨rfl, ?_, List.forall_mem_nil _⟩
    rintro b ⟨⟩
  | @snoc run s s' event out previous taken ih =>
    rcases epochZero_or_epochOne previous with ⟨-, hzero⟩ | ⟨-, hone⟩
    · exact ih.concat (t := ⟨s, event, out, s'⟩) hzero taken
    · exact ih.concat_quiet (t := ⟨s, event, out, s'⟩) hone taken

end Runs

end BFTDiagnosis.Honeybadger
