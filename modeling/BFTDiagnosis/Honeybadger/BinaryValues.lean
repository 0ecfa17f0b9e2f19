import BFTDiagnosis.Honeybadger.Epochs

/-!
# The sources behind a broadcast of binary values

A source is entered once for every value, so the entries are the sources of the BVALs and AUXs of the run, and
what an instance does when a number of entries is reached it does once, at the source that makes the number.
-/

namespace BFTDiagnosis.Honeybadger

/-! ## Runs -/

/-- A BVAL or an AUX with the node it comes from. -/
structure BvBroadcast.Arrival where
  source : String
  msg : BaMessage

def BvBroadcast.step (bv : BvBroadcast) (arrival : Arrival) : Option (BvBroadcast × List Payload) :=
  bv.handleMessage arrival.source arrival.msg

abbrev BvRun := List (Transition BvBroadcast BvBroadcast.Arrival (List Payload))

/-- The node that a message of the kind comes from. -/
def BvBroadcast.Arrival.sender (arrival : Arrival) (kind : BaMessage → Bool) : Finset String :=
  if kind arrival.msg then {arrival.source} else ∅

/-- The nodes from which a message of the kind has come. -/
def bvSenders (run : BvRun) (kind : BaMessage → Bool) : Finset String :=
  ((run.filter (kind ·.event.msg)).map (·.event.source)).toFinset

theorem bvSenders_concat (run : BvRun) (t : Transition BvBroadcast BvBroadcast.Arrival (List Payload))
    (kind : BaMessage → Bool) : bvSenders (run ++ [t]) kind = bvSenders run kind ∪ t.event.sender kind := by
  rw [bvSenders, bvSenders, List.filter_append, List.map_append, List.toFinset_append, BvBroadcast.Arrival.sender]
  cases hkind : kind t.event.msg <;> simp [hkind]

/-- The BVAL or AUX that is sent. -/
def Payload.baMessage : Payload → Option BaMessage
  | .subset ⟨_, .agreement _ ⟨_, .baBroadcast _ msg⟩⟩ => some msg
  | _ => none

/-- The BVALs and AUXs that have been broadcast. -/
def bvSent (run : BvRun) : List BaMessage := (run.flatMap (·.out)).filterMap Payload.baMessage

theorem bvSent_concat (run : BvRun) (t : Transition BvBroadcast BvBroadcast.Arrival (List Payload)) :
    bvSent (run ++ [t]) = bvSent run ++ bvSent [t] := by
  rw [bvSent, List.flatMap_append, List.filterMap_append, bvSent, bvSent]

/-- The values with enough BVALs, in the order in which they have entered. -/
def accepted (run : BvRun) : List Bool :=
  run.flatMap fun t ↦ t.post.binValues.toList.filter fun b ↦ !t.pre.binValues.contains b

theorem accepted_concat (run : BvRun) (t : Transition BvBroadcast BvBroadcast.Arrival (List Payload)) :
    accepted (run ++ [t]) = accepted run ++ accepted [t] :=
  List.flatMap_append

theorem filter_values {p : Bool → Bool} (value : Bool) (h : p (!value) = false) :
    [true, false].filter p = if p value = true then [value] else [] := by
  cases value <;> cases hp : p true <;> cases hq : p false <;> simp_all

namespace BoolSet

theorem toList_eq_filter (s : BoolSet) : s.toList = [true, false].filter s.contains := by
  revert s
  apply forall_of_bits
  decide +kernel

/-- Inserting a value gives both when the other value is there. -/
theorem insert_eq_BOTH_iff {s : BoolSet} (b : Bool) (h : s.bits ≤ 3) : s.insert b = BOTH ↔ s.contains (!b) = true := by
  revert s
  apply forall_of_bits
  cases b <;> decide +kernel

theorem bits_insert_le {s : BoolSet} (b : Bool) (h : s.bits ≤ 3) : (s.insert b).bits ≤ 3 := by
  revert s
  apply forall_of_bits
  cases b <;> decide +kernel

end BoolSet

/-! ## What a message does -/

namespace BvBroadcast

variable {bv bv' : BvBroadcast} {arrival : Arrival} {out : List Payload}

/-- The source is the n-th one of a BVAL for the value. -/
def Reaches (bv : BvBroadcast) (arrival : Arrival) (n : ℕ) (b : Bool) : Prop :=
  arrival.msg.isBval b = true ∧ arrival.source ∉ sendersOf bv.bvalFrom b ∧ (sendersOf bv.bvalFrom b).card + 1 = n

instance Reaches.decidable (bv : BvBroadcast) (arrival : Arrival) (n : ℕ) (b : Bool) :
    Decidable (bv.Reaches arrival n b) :=
  inferInstanceAs (Decidable (_ ∧ _ ∧ _))

theorem sendersOf_received (bv : BvBroadcast) (arrival : Arrival) (b : Bool) :
    sendersOf (bv.received arrival.source arrival.msg).bvalFrom b =
        sendersOf bv.bvalFrom b ∪ arrival.sender (BaMessage.isBval b) ∧
      sendersOf (bv.received arrival.source arrival.msg).auxFrom b =
        sendersOf bv.auxFrom b ∪ arrival.sender (BaMessage.isAux b) := by
  obtain ⟨source, msg⟩ := arrival
  cases msg with
  | bval id value =>
    refine ⟨?_, (Finset.union_empty _).symm⟩
    rw [received, sendersOf_insert]
    by_cases hb : value = b
    · subst hb
      simp [Arrival.sender, BaMessage.isBval]
    · simp [Arrival.sender, BaMessage.isBval, hb, Ne.symm hb]
  | aux id value =>
    refine ⟨(Finset.union_empty _).symm, ?_⟩
    rw [received, sendersOf_insert]
    by_cases hb : value = b
    · subst hb
      simp [Arrival.sender, BaMessage.isAux]
    · simp [Arrival.sender, BaMessage.isAux, hb, Ne.symm hb]

/-- A node that has sent the message before is entered already. -/
theorem sender_subset_of_seen (h : bv.Seen arrival.source arrival.msg) (b : Bool) :
    arrival.sender (BaMessage.isBval b) ⊆ sendersOf bv.bvalFrom b ∧
      arrival.sender (BaMessage.isAux b) ⊆ sendersOf bv.auxFrom b := by
  obtain ⟨source, msg⟩ := arrival
  cases msg with
  | bval id value =>
    refine ⟨?_, Finset.empty_subset _⟩
    have hmem : source ∈ sendersOf bv.bvalFrom value := h
    by_cases hb : value = b
    · subst hb
      simpa [Arrival.sender, BaMessage.isBval] using hmem
    · simp [Arrival.sender, BaMessage.isBval, hb]
  | aux id value =>
    refine ⟨Finset.empty_subset _, ?_⟩
    have hmem : source ∈ sendersOf bv.auxFrom value := h
    by_cases hb : value = b
    · subst hb
      simpa [Arrival.sender, BaMessage.isAux] using hmem
    · simp [Arrival.sender, BaMessage.isAux, hb]

/-- A source makes the number of at most one value. -/
theorem length_filter_reaches (bv : BvBroadcast) (arrival : Arrival) (n : ℕ) :
    ([true, false].filter fun b ↦ bv.Reaches arrival n b).length ≤ 1 := by
  have hone : ¬ bv.Reaches arrival n true ∨ ¬ bv.Reaches arrival n false := by
    rw [← not_and_or]
    rintro ⟨⟨htrue, -⟩, hfalse, -⟩
    cases hmsg : arrival.msg <;> simp_all [BaMessage.isBval]
  rcases hone with htrue | hfalse
  · rw [filter_values false (by simpa using htrue)]
    split <;> simp
  · rw [filter_values true (by simpa using hfalse)]
    split <;> simp

/-- Every message is entered under the node it comes from. -/
theorem senders_of_step (h : bv.step arrival = some (bv', out)) (b : Bool) :
    sendersOf bv'.bvalFrom b = sendersOf bv.bvalFrom b ∪ arrival.sender (BaMessage.isBval b) ∧
      sendersOf bv'.auxFrom b = sendersOf bv.auxFrom b ∪ arrival.sender (BaMessage.isAux b) := by
  cases handleMessage_cases h with
  | seen seen =>
    obtain ⟨hbval, haux⟩ := sender_subset_of_seen seen b
    exact ⟨(Finset.union_eq_left.2 hbval).symm, (Finset.union_eq_left.2 haux).symm⟩
  | entered | output => exact bv.sendersOf_received arrival b

/-- The network stays, and entries are not removed. -/
theorem frame_of_step (h : bv.step arrival = some (bv', out)) :
    bv'.network = bv.network ∧ ((∀ b, b ∈ bv.bvalFrom) → ∀ b, b ∈ bv'.bvalFrom) ∧
      ((∀ b, b ∈ bv.auxFrom) → ∀ b, b ∈ bv'.auxFrom) := by
  obtain ⟨source, msg⟩ := arrival
  have hreceived : (bv.received source msg).network = bv.network ∧
      ((∀ b, b ∈ bv.bvalFrom) → ∀ b, b ∈ (bv.received source msg).bvalFrom) ∧
        ((∀ b, b ∈ bv.auxFrom) → ∀ b, b ∈ (bv.received source msg).auxFrom) := by
    cases msg with
    | bval => exact ⟨rfl, fun hentry b ↦ Finmap.mem_insert.2 (.inr (hentry b)), fun hentry ↦ hentry⟩
    | aux => exact ⟨rfl, fun hentry ↦ hentry, fun hentry b ↦ Finmap.mem_insert.2 (.inr (hentry b))⟩
  cases handleMessage_cases h with
  | seen => exact ⟨rfl, fun hentry ↦ hentry, fun hentry ↦ hentry⟩
  | entered | output => exact hreceived

/-- A value enters with the BVAL of the source that makes the number. -/
theorem binValues_of_step (h : bv.step arrival = some (bv', out)) :
    (∀ b, bv'.binValues.contains b = true ↔
      bv.binValues.contains b = true ∨ bv.Reaches arrival (2 * bv.network.faultNum + 1) b) ∧
        (bv.binValues.bits ≤ 3 → bv'.binValues.bits ≤ 3) := by
  obtain ⟨source, msg⟩ := arrival
  have hreceived (hunseen : ¬ bv.Seen source msg) :
      (∀ b, (bv.received source msg).binValues.contains b = true ↔
        bv.binValues.contains b = true ∨ bv.Reaches ⟨source, msg⟩ (2 * bv.network.faultNum + 1) b) ∧
          (bv.binValues.bits ≤ 3 → (bv.received source msg).binValues.bits ≤ 3) := by
    cases msg with
    | bval id value =>
      have hcard : (insert source (sendersOf bv.bvalFrom value)).card = (sendersOf bv.bvalFrom value).card + 1 :=
        Finset.card_insert_of_notMem hunseen
      rw [received]
      simp only [hcard]
      split
      case isTrue hquorum =>
        refine ⟨fun b ↦ ?_, BoolSet.bits_insert_le value⟩
        rw [BoolSet.contains_insert, Bool.or_eq_true, beq_iff_eq, or_comm]
        apply or_congr_right
        constructor
        · rintro rfl
          exact ⟨beq_self_eq_true value, hunseen, hquorum⟩
        · exact fun hreaches ↦ eq_of_beq hreaches.1
      case isFalse hfew =>
        refine ⟨fun b ↦ (or_iff_left ?_).symm, fun hbits ↦ hbits⟩
        rintro ⟨hvalue, -, hquorum⟩
        obtain rfl : value = b := eq_of_beq hvalue
        exact hfew hquorum
    | aux => exact ⟨fun b ↦ (or_iff_left fun hreaches ↦ absurd hreaches.1 Bool.false_ne_true).symm, fun hbits ↦ hbits⟩
  cases handleMessage_cases h with
  | seen seen =>
    refine ⟨fun b ↦ (or_iff_left ?_).symm, fun hbits ↦ hbits⟩
    rintro ⟨hvalue, hunseen, -⟩
    cases msg with
    | bval id value =>
      obtain rfl : value = b := eq_of_beq hvalue
      exact hunseen seen
    | aux => cases hvalue
  | entered unseen => exact hreceived unseen
  | output outputs => exact hreceived outputs.1

theorem network_of_tryOutput (h : bv.tryOutput = some bv') : bv'.network = bv.network := by
  unfold tryOutput at h
  split at h
  case isTrue => rw [← Option.some.inj h]
  case isFalse =>
    obtain ⟨_, -, hresult⟩ := Option.bind_eq_some_iff.1 h
    rw [← Option.some.inj hresult]
    split <;> rfl

/-- What is sent after the BVAL that a count may call for. -/
theorem baMessages_relay (bv : BvBroadcast) (sent : List Payload) (count : ℕ) (value : Bool) :
    (if count = bv.network.getFaultNum + 1 then sent ++ bv.sendBval value else sent).filterMap Payload.baMessage =
      sent.filterMap Payload.baMessage ++
        (if count = bv.network.faultNum + 1 then [value] else []).map (BaMessage.bval bv.network.id) := by
  rw [Network.getFaultNum]
  split
  case isTrue =>
    rw [List.filterMap_append]
    rfl
  case isFalse => rw [List.map_nil, List.append_nil]

/-- The last turn of `handle_bval`, in which nothing but the BVAL is added to what is sent. -/
theorem baMessages_of_relay {value : Bool} {count : ℕ} {bv₁ : BvBroadcast} {sent : List Payload}
    (hnetwork : bv₁.network = bv.network)
    (h : some (bv₁, if count = bv₁.network.getFaultNum + 1 then sent ++ bv₁.sendBval value else sent) =
      some (bv', out)) :
    out.filterMap Payload.baMessage = sent.filterMap Payload.baMessage ++
      (if count = bv.network.faultNum + 1 then [value] else []).map (BaMessage.bval bv.network.id) := by
  obtain ⟨-, rfl⟩ := Prod.mk.inj (Option.some.inj h)
  rw [baMessages_relay, hnetwork]

theorem not_reaches_not (bv : BvBroadcast) (source id : String) (value : Bool) (n : ℕ) :
    ¬ bv.Reaches ⟨source, .bval id value⟩ n (!value) := by
  rintro ⟨hvalue, -⟩
  have hsame : value = !value := eq_of_beq hvalue
  cases value <;> cases hsame

theorem reaches_bval_iff {source id : String} {value : Bool} {n : ℕ} {senders : Finset String}
    (h : sendersOf bv.bvalFrom value = senders) :
    bv.Reaches ⟨source, .bval id value⟩ n value ↔ source ∉ senders ∧ senders.card + 1 = n := by
  rw [Reaches, h]
  exact and_iff_right (beq_self_eq_true value)

theorem not_reaches_aux (bv : BvBroadcast) (source id : String) (value b : Bool) (n : ℕ) :
    ¬ bv.Reaches ⟨source, .aux id value⟩ n b := by
  rintro ⟨hvalue, -⟩
  cases hvalue

/-- A BVAL is relayed and an AUX sent at the source that makes the number, the AUX only when the other value
has not entered. -/
theorem out_of_step (h : bv.step arrival = some (bv', out)) :
    out.filterMap Payload.baMessage =
      ([true, false].filter fun b ↦ bv.Reaches arrival (2 * bv.network.faultNum + 1) b ∧
        bv.binValues.insert b ≠ .BOTH).map (BaMessage.aux bv.network.id) ++
      ([true, false].filter fun b ↦ bv.Reaches arrival (bv.network.faultNum + 1) b).map
        (BaMessage.bval bv.network.id) := by
  obtain ⟨source, msg⟩ := arrival
  cases msg with
  | bval id value =>
    obtain ⟨senders, hsenders, h⟩ := Option.bind_eq_some_iff.1 h
    have hentry : sendersOf bv.bvalFrom value = senders := by rw [sendersOf, hsenders, Option.getD_some]
    rw [filter_values value (by simp [not_reaches_not]), filter_values value (by simp [not_reaches_not])]
    simp only [reaches_bval_iff hentry, decide_eq_true_eq]
    split at h
    case isTrue hseen =>
      obtain ⟨-, rfl⟩ := Prod.mk.inj (Option.some.inj h)
      simp [hseen]
    case isFalse hunseen =>
      simp only [Finset.card_insert_of_notMem hunseen] at h
      simp only [hunseen, not_false_eq_true, true_and]
      split at h
      case isTrue hquorum =>
        split at h
        case isTrue hone =>
          obtain ⟨⟨bv₁, sent⟩, hfirst, hresult⟩ := Option.bind_eq_some_iff.1 h
          obtain ⟨hstate, hsent⟩ := Prod.mk.inj (Option.some.inj hfirst)
          have hnetwork : bv₁.network = bv.network := by rw [← hstate]
          have hannounces : senders.card + 1 = 2 * bv.network.faultNum + 1 ∧ bv.binValues.insert value ≠ .BOTH :=
            ⟨hquorum, hone⟩
          rw [baMessages_of_relay hnetwork hresult, ← hsent, if_pos hannounces]
          rfl
        case isFalse hboth =>
          obtain ⟨⟨bv₁, sent⟩, htried, hresult⟩ := Option.bind_eq_some_iff.1 h
          obtain ⟨_, htry, hpair⟩ := Option.map_eq_some_iff.1 htried
          obtain ⟨rfl, rfl⟩ := Prod.mk.inj hpair
          have hnetwork := network_of_tryOutput htry
          have hsilent : ¬ (senders.card + 1 = 2 * bv.network.faultNum + 1 ∧ bv.binValues.insert value ≠ .BOTH) :=
            fun hannounces ↦ hboth hannounces.2
          rw [baMessages_of_relay hnetwork hresult, if_neg hsilent]
          rfl
      case isFalse hfew =>
        obtain ⟨⟨bv₁, sent⟩, hfirst, hresult⟩ := Option.bind_eq_some_iff.1 h
        obtain ⟨hstate, hsent⟩ := Prod.mk.inj (Option.some.inj hfirst)
        have hnetwork : bv₁.network = bv.network := by rw [← hstate]
        have hsilent : ¬ (senders.card + 1 = 2 * bv.network.faultNum + 1 ∧ bv.binValues.insert value ≠ .BOTH) :=
          fun hannounces ↦ hfew hannounces.1
        rw [baMessages_of_relay hnetwork hresult, ← hsent, if_neg hsilent]
        rfl
  | aux id value =>
    obtain ⟨_, -, hpair⟩ := Option.map_eq_some_iff.1 h
    obtain ⟨-, rfl⟩ := Prod.mk.inj hpair
    simp [not_reaches_aux]

/-- An output is set with the flag, to some of the values that have enough BVALs. -/
theorem output_of_step (hhonest : 0 < bv.network.numHonest) (h : bv.step arrival = some (bv', out)) :
    bv'.output = bv.output ∧ bv'.terminated = bv.terminated ∨
      (bv.terminated = false ∧ bv'.terminated = true) ∧ (∃ b, bv'.output.contains b = true) ∧
        ∀ b, bv'.output.contains b = true → bv'.binValues.contains b = true := by
  obtain ⟨source, msg⟩ := arrival
  obtain ⟨hnetwork, hterminated, -, houtput⟩ := bv.network_received source msg
  cases handleMessage_cases h with
  | seen => exact .inl ⟨rfl, rfl⟩
  | entered => exact .inl ⟨houtput, hterminated⟩
  | @output values outputs =>
    obtain ⟨-, -, hrunning, -, count, hcount, hmany⟩ := outputs
    obtain ⟨hsum, hvalues⟩ := spec_of_countAux hcount
    refine .inr ⟨⟨hrunning, rfl⟩, ?_, fun b hb ↦ ((hvalues b).1 hb).1⟩
    by_contra hnone
    have hzero : count = 0 := by
      rw [hsum, List.sum_eq_zero]
      intro senders hmem
      obtain ⟨b, hb, rfl⟩ := List.mem_map.1 hmem
      rw [Finset.card_eq_zero, ← Finset.not_nonempty_iff_eq_empty]
      exact fun hnonempty ↦ hnone ⟨b, (hvalues b).2 ⟨BoolSet.mem_toList.1 hb, hnonempty⟩⟩
    omega

end BvBroadcast

/-! ## Runs of a new instance -/

/-- The entries of an instance are the sources of the run, and the values with enough of them have entered. -/
structure SourcesKnown (netinfo : Network) (run : BvRun) (bv : BvBroadcast) : Prop where
  network : bv.network = netinfo
  bvalFrom : ∀ b, b ∈ bv.bvalFrom
  auxFrom : ∀ b, b ∈ bv.auxFrom
  bvalSenders : ∀ b, BvBroadcast.sendersOf bv.bvalFrom b = bvSenders run (BaMessage.isBval b)
  bits : bv.binValues.bits ≤ 3
  binValues : ∀ b, bv.binValues.contains b = true ↔
    2 * netinfo.faultNum + 1 ≤ (bvSenders run (BaMessage.isBval b)).card

section Runs

variable {netinfo : Network} {epoch : ℕ} {proposerId : String} {run : BvRun} {bv bv' : BvBroadcast}
  {arrival : BvBroadcast.Arrival} {out : List Payload}

theorem SourcesKnown.initial : SourcesKnown netinfo [] (BvBroadcast.new netinfo epoch proposerId) := by
  have hentries := BvBroadcast.entries_new netinfo epoch proposerId
  exact {
    network := rfl
    bvalFrom := fun b ↦ (hentries b).1.1
    auxFrom := fun b ↦ (hentries b).2.1
    bvalSenders := fun b ↦ (hentries b).1.2
    bits := (by decide : (0 : UInt8) ≤ 3)
    binValues := fun b ↦ by simp [BvBroadcast.new, bvSenders] }

/-- The source that makes the number, by the sources of the run. -/
theorem SourcesKnown.reaches_iff (h : SourcesKnown netinfo run bv) {n : ℕ} {b : Bool} :
    bv.Reaches arrival n b ↔ (bvSenders run (BaMessage.isBval b)).card + 1 = n ∧
      (bvSenders run (BaMessage.isBval b) ∪ arrival.sender (BaMessage.isBval b)).card = n := by
  rw [BvBroadcast.Reaches, h.bvalSenders]
  cases hkind : arrival.msg.isBval b with
  | false =>
    simp only [BvBroadcast.Arrival.sender, hkind, Bool.false_eq_true, if_false, Finset.union_empty, false_and,
      false_iff]
    omega
  | true =>
    simp only [BvBroadcast.Arrival.sender, hkind, if_true, Finset.union_singleton, true_and]
    by_cases hmem : arrival.source ∈ bvSenders run (BaMessage.isBval b)
    · rw [Finset.insert_eq_of_mem hmem]
      simp only [hmem, not_true_eq_false, false_and, false_iff]
      omega
    · rw [Finset.card_insert_of_notMem hmem]
      simp only [hmem, not_false_eq_true, true_and]
      omega

/-- A number of sources is there with the message if it was there before or the source makes it. -/
theorem SourcesKnown.le_card_concat_iff (h : SourcesKnown netinfo run bv) {n : ℕ} {b : Bool} :
    n + 1 ≤ (bvSenders (run ++ [⟨bv, arrival, out, bv'⟩]) (BaMessage.isBval b)).card ↔
      n + 1 ≤ (bvSenders run (BaMessage.isBval b)).card ∨ bv.Reaches arrival (n + 1) b := by
  have hconcat : bvSenders (run ++ [⟨bv, arrival, out, bv'⟩]) (BaMessage.isBval b) =
      bvSenders run (BaMessage.isBval b) ∪ arrival.sender (BaMessage.isBval b) := bvSenders_concat run _ _
  rw [h.reaches_iff, hconcat]
  have hgrows : (bvSenders run (BaMessage.isBval b)).card ≤
      (bvSenders run (BaMessage.isBval b) ∪ arrival.sender (BaMessage.isBval b)).card :=
    Finset.card_le_card Finset.subset_union_left
  have hone : (arrival.sender (BaMessage.isBval b)).card ≤ 1 := by
    rw [BvBroadcast.Arrival.sender]
    split <;> simp
  have hunion := Finset.card_union_le (bvSenders run (BaMessage.isBval b)) (arrival.sender (BaMessage.isBval b))
  omega

theorem SourcesKnown.concat (h : SourcesKnown netinfo run bv) (htaken : bv.step arrival = some (bv', out)) :
    SourcesKnown netinfo (run ++ [⟨bv, arrival, out, bv'⟩]) bv' := by
  obtain ⟨hnetwork, hbval, haux⟩ := BvBroadcast.frame_of_step htaken
  obtain ⟨hvalues, hbits⟩ := BvBroadcast.binValues_of_step htaken
  exact {
    network := hnetwork.trans h.network
    bvalFrom := hbval h.bvalFrom
    auxFrom := haux h.auxFrom
    bvalSenders := fun b ↦ by
      rw [(BvBroadcast.senders_of_step htaken b).1, h.bvalSenders, bvSenders_concat]
    bits := hbits h.bits
    binValues := fun b ↦ by
      rw [hvalues, h.binValues, h.network, h.le_card_concat_iff] }

theorem sourcesKnown_of_isRun (h : IsRun BvBroadcast.step (BvBroadcast.new netinfo epoch proposerId) run bv) :
    SourcesKnown netinfo run bv := by
  induction h with
  | nil => exact .initial
  | snoc previous taken ih => exact ih.concat taken

/-- With the message, the values enter whose number of sources it makes. -/
theorem SourcesKnown.accepted_singleton (h : SourcesKnown netinfo run bv)
    (htaken : bv.step arrival = some (bv', out)) : accepted [⟨bv, arrival, out, bv'⟩] =
      [true, false].filter fun b ↦ bv.Reaches arrival (2 * netinfo.faultNum + 1) b := by
  simp only [accepted, List.flatMap_cons, List.flatMap_nil, List.append_nil, BoolSet.toList_eq_filter,
    List.filter_filter]
  apply List.filter_congr
  intro b _
  have hpost := (BvBroadcast.binValues_of_step htaken).1 b
  have hpre := h.binValues b
  rw [h.network] at hpost
  have hreaches : bv.Reaches arrival (2 * netinfo.faultNum + 1) b → ¬ bv.binValues.contains b = true := by
    rw [h.reaches_iff, hpre]
    omega
  rw [Bool.eq_iff_iff]
  simp only [Bool.and_eq_true, Bool.not_eq_true', decide_eq_true_eq, hpost, ← Bool.not_eq_true]
  tauto

theorem mem_accepted (h : IsRun BvBroadcast.step (BvBroadcast.new netinfo epoch proposerId) run bv) {b : Bool} :
    b ∈ accepted run ↔ bv.binValues.contains b = true := by
  induction h with
  | nil => simp [accepted, BvBroadcast.new]
  | @snoc run s s' arrival out previous taken ih =>
    have hknown := sourcesKnown_of_isRun previous
    rw [accepted_concat, List.mem_append, ih, hknown.accepted_singleton taken,
      (BvBroadcast.binValues_of_step taken).1, hknown.network, List.mem_filter]
    cases b <;> simp

/-- What is broadcast at a message. -/
theorem SourcesKnown.sent_singleton (h : SourcesKnown netinfo run bv) (htaken : bv.step arrival = some (bv', out)) :
    bvSent [⟨bv, arrival, out, bv'⟩] =
      ([true, false].filter fun b ↦ bv.Reaches arrival (2 * netinfo.faultNum + 1) b ∧
        bv.binValues.contains (!b) = false).map (BaMessage.aux netinfo.id) ++
      ([true, false].filter fun b ↦ bv.Reaches arrival (netinfo.faultNum + 1) b).map (BaMessage.bval netinfo.id) := by
  have hsent : bvSent [⟨bv, arrival, out, bv'⟩] = out.filterMap Payload.baMessage := by simp [bvSent]
  rw [hsent, BvBroadcast.out_of_step htaken, h.network]
  simp only [ne_eq, BoolSet.insert_eq_BOTH_iff _ h.bits, Bool.not_eq_true]

/-- The first value that enters is the one that an AUX is sent for. -/
theorem auxs_of_isRun (h : IsRun BvBroadcast.step (BvBroadcast.new netinfo epoch proposerId) run bv) :
    (bvSent run).filter (fun msg ↦ msg.isAux true || msg.isAux false) =
      ((accepted run).take 1).map (BaMessage.aux netinfo.id) := by
  induction h with
  | nil => rfl
  | @snoc run s s' arrival out previous taken ih =>
    have hknown := sourcesKnown_of_isRun previous
    have haccepted := hknown.accepted_singleton taken
    have hauxs (auxs bvals : List Bool) : (auxs.map (BaMessage.aux netinfo.id) ++
        bvals.map (BaMessage.bval netinfo.id)).filter (fun msg ↦ msg.isAux true || msg.isAux false) =
          auxs.map (BaMessage.aux netinfo.id) := by
      rw [List.filter_append, List.filter_map, List.filter_map, List.filter_eq_self.2, List.filter_eq_nil_iff.2]
      · exact List.append_nil _
      · simp [BaMessage.isAux]
      · intro b _
        cases b <;> rfl
    rw [bvSent_concat, List.filter_append, ih, hknown.sent_singleton taken, hauxs, ← List.map_append]
    congr 1
    rw [accepted_concat]
    cases hbefore : accepted run with
    | nil =>
      -- nothing has entered, so the value that enters now is the first one
      have hnone (b : Bool) : s.binValues.contains b = false := by
        rw [← Bool.not_eq_true, ← mem_accepted previous, hbefore]
        exact List.not_mem_nil
      simp only [hnone, and_true, ← haccepted, List.take_nil, List.nil_append]
      symm
      apply List.take_of_length_le
      rw [haccepted]
      exact s.length_filter_reaches arrival _
    | cons first rest =>
      -- the value that enters now is the second one
      have hfirst : s.binValues.contains first = true := (mem_accepted previous).1 (hbefore ▸ List.mem_cons_self)
      rw [List.filter_eq_nil_iff.2]
      · rfl
      · intro b _
        rw [decide_eq_true_eq]
        rintro ⟨hreaches, hother⟩
        have hnew : s.binValues.contains b ≠ true := by
          rw [Ne, hknown.binValues]
          have hcard := (hknown.reaches_iff.1 hreaches).1
          omega
        cases b <;> cases first <;> simp_all

/-- A BVAL is sent when the sources are more than the faulty nodes can be. -/
theorem countP_bval_of_isRun (h : IsRun BvBroadcast.step (BvBroadcast.new netinfo epoch proposerId) run bv) (b : Bool) :
    (bvSent run).countP (BaMessage.isBval b) =
      if netinfo.faultNum + 1 ≤ (bvSenders run (BaMessage.isBval b)).card then 1 else 0 := by
  induction h with
  | nil => simp [bvSent, bvSenders]
  | @snoc run s s' arrival out previous taken ih =>
    have hknown := sourcesKnown_of_isRun previous
    have hbvals (auxs bvals : List Bool) : (auxs.map (BaMessage.aux netinfo.id) ++
        bvals.map (BaMessage.bval netinfo.id)).countP (BaMessage.isBval b) = bvals.count b := by
      rw [List.countP_append, List.countP_map, List.countP_map, List.countP_eq_zero.2, Nat.zero_add]
      · rfl
      · simp [BaMessage.isBval]
    have hcount : ([true, false].filter fun b ↦ s.Reaches arrival (netinfo.faultNum + 1) b).count b =
        if s.Reaches arrival (netinfo.faultNum + 1) b then 1 else 0 := by
      split
      case isTrue hreaches =>
        rw [List.count_filter (p := fun b ↦ decide (s.Reaches arrival (netinfo.faultNum + 1) b))
          (decide_eq_true hreaches)]
        cases b <;> rfl
      case isFalse hnot => simp [List.count_eq_zero, hnot]
    rw [bvSent_concat, List.countP_append, ih, hknown.sent_singleton taken, hbvals, hcount]
    simp only [hknown.le_card_concat_iff]
    have honce : s.Reaches arrival (netinfo.faultNum + 1) b →
        ¬ netinfo.faultNum + 1 ≤ (bvSenders run (BaMessage.isBval b)).card := by
      rw [hknown.reaches_iff]
      omega
    split <;> split <;> simp_all

/-- The output is empty until the flag is set, and has a value from then on. -/
theorem output_of_isRun (hhonest : 0 < netinfo.numHonest)
    (h : IsRun BvBroadcast.step (BvBroadcast.new netinfo epoch proposerId) run bv) :
    if bv.terminated = true then ∃ b, bv.output.contains b = true else bv.output = .NONE := by
  induction h with
  | nil => rfl
  | snoc previous taken ih =>
    have hknown := sourcesKnown_of_isRun previous
    rcases BvBroadcast.output_of_step (hknown.network.symm ▸ hhonest) taken with
      ⟨houtput, hterminated⟩ | ⟨⟨-, hterminated⟩, hsome, -⟩
    · rwa [houtput, hterminated]
    · rwa [if_pos hterminated]

/-- Every message is handled. -/
theorem exists_exec (h : SourcesKnown netinfo run bv) (arrivals : List BvBroadcast.Arrival) :
    ∃ result, exec BvBroadcast.step bv arrivals = some result := by
  induction arrivals generalizing run bv with
  | nil => exact ⟨_, rfl⟩
  | cons arrival rest ih =>
    obtain ⟨⟨bv', out⟩, htaken⟩ :=
      BvBroadcast.exists_handleMessage h.bvalFrom h.auxFrom arrival.source arrival.msg
    have hstep : bv.step arrival = some (bv', out) := htaken
    obtain ⟨result, hrest⟩ := ih (h.concat hstep)
    simp only [exec, hstep, hrest, bind, pure, Option.bind_some, Option.some.injEq, exists_eq']

end Runs

/-! ## What a run amounts to -/

/-- The output that a transition sets. -/
def SetsOutput (t : Transition BvBroadcast BvBroadcast.Arrival (List Payload)) : Prop :=
  t.pre.terminated = false ∧ t.post.terminated = true

instance SetsOutput.decidable (t : Transition BvBroadcast BvBroadcast.Arrival (List Payload)) :
    Decidable (SetsOutput t) :=
  inferInstanceAs (Decidable (_ ∧ _))

/-- The values, the AUXs, the BVALs and the output of a run, by the sources that messages have come from. -/
structure CountsSources (netinfo : Network) (run : BvRun) (bv : BvBroadcast) : Prop where
  binValues : ∀ b, bv.binValues.contains b = true ↔
    2 * netinfo.faultNum + 1 ≤ (bvSenders run (BaMessage.isBval b)).card
  auxs : (bvSent run).filter (fun msg ↦ msg.isAux true || msg.isAux false) =
    ((accepted run).take 1).map (BaMessage.aux netinfo.id)
  bvals : ∀ b, (bvSent run).countP (BaMessage.isBval b) ≤ 1
  relays : ∀ before t after, run = before ++ t :: after → ∀ b, BaMessage.bval netinfo.id b ∈ bvSent [t] ↔
    (bvSenders before (BaMessage.isBval b)).card = netinfo.faultNum ∧
      (bvSenders (before ++ [t]) (BaMessage.isBval b)).card = netinfo.faultNum + 1
  outputs : ∀ t ∈ run, t.post.output = t.pre.output ∧ ¬ SetsOutput t ∨
    SetsOutput t ∧ (∃ b, t.post.output.contains b = true) ∧
      ∀ b, t.post.output.contains b = true → t.post.binValues.contains b = true
  output : if bv.terminated = true then ∃ b, bv.output.contains b = true else bv.output = .NONE

/-- Whatever BVALs and AUXs come to a new instance, in whatever order and however often, they are handled and
counted by their sources. As in every network that can be made, not all nodes may be faulty. -/
theorem countsSources_of_new (netinfo : Network) (epoch : ℕ) (proposerId : String)
    (hhonest : netinfo.faultNum < netinfo.peerNum) (arrivals : List BvBroadcast.Arrival) :
    ∃ run bv, exec BvBroadcast.step (BvBroadcast.new netinfo epoch proposerId) arrivals = some (run, bv) ∧
      CountsSources netinfo run bv := by
  have hpositive : 0 < netinfo.numHonest := Nat.sub_pos_of_lt hhonest
  have hinitial : SourcesKnown netinfo [] (BvBroadcast.new netinfo epoch proposerId) := .initial
  obtain ⟨⟨run, bv⟩, hexec⟩ := exists_exec hinitial arrivals
  have hrun := IsRun.of_exec hexec
  refine ⟨run, bv, hexec, ?_⟩
  exact {
    binValues := (sourcesKnown_of_isRun hrun).binValues
    auxs := auxs_of_isRun hrun
    bvals := fun b ↦ by
      rw [countP_bval_of_isRun hrun]
      split <;> decide
    relays := fun before t after hsplit b ↦ by
      obtain ⟨hbefore, htaken⟩ := hrun.before hsplit
      have hknown := sourcesKnown_of_isRun hbefore
      have hsent := hknown.sent_singleton htaken
      have hreaches : t.pre.Reaches t.event (netinfo.faultNum + 1) b ↔ _ := hknown.reaches_iff
      rw [bvSenders_concat, hsent, List.mem_append, List.mem_map, List.mem_map]
      have hmem : (∃ b' ∈ [true, false].filter fun b ↦ t.pre.Reaches t.event (netinfo.faultNum + 1) b,
          BaMessage.bval netinfo.id b' = .bval netinfo.id b) ↔ t.pre.Reaches t.event (netinfo.faultNum + 1) b := by
        cases b <;> simp
      rw [hmem, hreaches, Nat.add_right_cancel_iff]
      apply or_iff_right
      rintro ⟨_, -, hmsg⟩
      cases hmsg
    outputs := fun t ht ↦ by
      obtain ⟨before, after, hsplit⟩ := List.append_of_mem ht
      obtain ⟨hbefore, htaken⟩ := hrun.before hsplit
      have hknown := sourcesKnown_of_isRun hbefore
      rcases BvBroadcast.output_of_step (hknown.network.symm ▸ hpositive) htaken with
        ⟨houtput, hterminated⟩ | hsets
      · refine .inl ⟨houtput, fun hsets ↦ ?_⟩
        cases hsets.1.symm.trans (hterminated.symm.trans hsets.2)
      · exact .inr hsets
    output := output_of_isRun hpositive hrun }

def bvalFrom (value : Bool) (source : String) : BvBroadcast.Arrival := ⟨source, .bval source value⟩

def auxFrom (value : Bool) (source : String) : BvBroadcast.Arrival := ⟨source, .aux source value⟩

theorem countsSources_of_new_fourNodes :
    fourNodes.faultNum < fourNodes.peerNum ∧ ∃ run bv, exec BvBroadcast.step (BvBroadcast.new fourNodes 0 "a")
      (["a", "b", "b", "c"].map (bvalFrom true) ++ ["b", "b", "c", "d"].map (auxFrom true)) = some (run, bv) ∧
        CountsSources fourNodes run bv :=
  ⟨by decide +kernel, countsSources_of_new fourNodes 0 "a" (by decide +kernel) _⟩

end BFTDiagnosis.Honeybadger
