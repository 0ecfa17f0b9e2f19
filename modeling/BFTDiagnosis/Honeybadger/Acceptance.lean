import BFTDiagnosis.Honeybadger.Agreement
import BFTDiagnosis.Honeybadger.Committee

/-!
# Why a proposer is accepted

The only value that a node proposes to a binary agreement is `true`, when it has got the value of the proposer. So
a node that is not faulty says BVAL `true` because some such node has got the value, never says BVAL `false`, and
never rejects a proposer.
-/

namespace BFTDiagnosis.Honeybadger

/-- The node gets the value of the proposer. -/
def Obtains (id : String) (t : Transition Subset Subset.Event (List Payload)) : Prop :=
  ∃ rbc aba value aba', t.pre.states.lookup id = some (.ongoing rbc aba) ∧
    t.post.states.lookup id = some (.getValue value aba')

/-- A BVAL for a value, about the proposer. -/
def SaysBval (id : String) (b : Bool) (msg : SubsetMessage) : Prop :=
  msg.proposerId = id ∧ ∃ name, (Payload.subset msg).baMessage = some (.bval name b)

/-! ## The agreement that a state is about -/

/-- The agreement of the state, or the one that it has left with this decision. -/
def SubsetState.Follows : SubsetState → BinaryAgreement → Prop
  | .ongoing _ aba', aba | .getValue _ aba', aba => aba' = aba
  | .accepted _, aba => aba.decision = some true
  | .complete b, aba => aba.decision = some b

/-- What a turn of a state is to its agreement: nothing, or one step. -/
inductive SubsetState.Spoke (X : Externals) (id : String) (event : Subset.Event) (aba : BinaryAgreement)
    (state state' : SubsetState) (out : List Payload) : Prop
  | silent (follows : state'.Follows aba) (quiet : ∀ payload ∈ out, payload.baMessage = none)
  | obtained {aba' : BinaryAgreement} {result : AgreementOut} (taken : aba.step X (.propose true) = some (aba', result))
      (before : ∃ rbc aba₀, state = .ongoing rbc aba₀) (after : ∃ value, state' = .getValue value aba')
      (said : ∀ payload ∈ out, payload.baMessage ≠ none → payload ∈ result.1)
  | heard {aba' : BinaryAgreement} {result : AgreementOut} {source name : String} {msg : AgreementMessage}
      (taken : aba.step X (.message source msg) = some (aba', result))
      (event_eq : event = .gossip source ⟨id, .agreement name msg⟩) (follows : state'.Follows aba')
      (said : ∀ payload ∈ out, payload ∈ result.1)

theorem baMessage_of_broadcast {sent : List SubsetMessage}
    (h : ∀ msg ∈ sent, ∃ name content, msg.content = .broadcast name content) :
    ∀ payload ∈ sent.map Payload.subset, payload.baMessage = none := by
  intro payload hpayload
  obtain ⟨⟨proposerId, _⟩, hmsg, rfl⟩ := List.mem_map.1 hpayload
  obtain ⟨name, content, rfl⟩ := h _ hmsg
  rfl

/-- A broadcast sends messages of the broadcast only. -/
theorem broadcast_of_step {X : Externals} {rbc rbc' : Broadcast} {delivery : Delivery} {out : BroadcastOut}
    (h : rbc.step X delivery = some (rbc', out)) : ∀ msg ∈ out.1, ∃ name content, msg.content = .broadcast name content := by
  have hstepped := (Broadcast.step_cases h).1
  generalize out.1 = sent at hstepped
  cases hstepped with
  | echo | ready =>
    split
    case isTrue => exact List.forall_mem_singleton.2 ⟨_, _, rfl⟩
    case isFalse => exact List.forall_mem_nil _
  | value => exact List.forall_mem_singleton.2 ⟨_, _, rfl⟩
  | other => exact List.forall_mem_nil _

theorem broadcast_of_handleInput {X : ProposalExternals} {rbc : Broadcast} {value : Bytes} {out : List SubsetMessage}
    (h : rbc.handleInput X.toExternals X.encode X.marks value = some out) :
    ∀ msg ∈ out, ∃ name content, msg.content = .broadcast name content := by
  obtain ⟨tree, -, hmap⟩ := (Broadcast.handleInput_eq_some_iff _ _).1 h
  intro msg hmsg
  have hmem : some msg ∈ out.map some := List.mem_map_of_mem hmsg
  rw [← hmap] at hmem
  obtain ⟨mark, -, hproof⟩ := List.mem_map.1 hmem
  obtain ⟨proof, -, rfl⟩ := Option.map_eq_some_iff.1 hproof
  exact ⟨_, _, rfl⟩

/-- A decision that is returned is that of the instance. -/
theorem decision_of_handleMessage {X : Externals} {aba aba' : BinaryAgreement} {source : String}
    {msg : AgreementMessage} {out : List Payload} {b : Bool}
    (h : aba.handleMessage X source msg = some (aba', (out, some b))) : aba'.decision = some b := by
  cases hdecision : aba.decision with
  | none => exact (handleMessage_decision hdecision h).symm
  | some c =>
    rw [handleMessage_of_decided hdecision] at h
    cases h

theorem SubsetState.spoke_of_turned {X : ProposalExternals} {netinfo : Network} {id : String}
    {state state' : SubsetState} {event : Subset.Event} {out : List Payload} {aba : BinaryAgreement}
    (hfollows : state.Follows aba) (h : state.Turned X netinfo id event state' out) :
    Spoke X.toExternals id event aba state state' out := by
  cases h with
  | proposal own taken =>
    cases state with
    | ongoing rbc aba₀ =>
      simp only [propose, bind, pure, Option.bind_eq_some_iff, Option.some.injEq, Prod.mk.injEq] at taken
      obtain ⟨sent, hinput, rfl, rfl⟩ := taken
      exact .silent hfollows (baMessage_of_broadcast (broadcast_of_handleInput hinput))
    | getValue | accepted | complete =>
      obtain ⟨rfl, rfl⟩ := Prod.mk.inj (Option.some.inj taken)
      exact .silent hfollows (List.forall_mem_nil _)
  | message taken =>
    cases step_cases taken with
    | heard content stepped => exact .silent hfollows (baMessage_of_broadcast (broadcast_of_step stepped))
    | @obtained rbc rbc' aba₀ name msg sent value content stepped =>
      obtain rfl : aba₀ = aba := hfollows
      refine .obtained rfl ⟨rbc, aba₀, rfl⟩ ⟨value, rfl⟩ fun payload hpayload hsome ↦ ?_
      rcases List.mem_append.1 hpayload with hbroadcast | hagreement
      · exact absurd (baMessage_of_broadcast (broadcast_of_step stepped) payload hbroadcast) hsome
      · exact hagreement
    | @discussed rbc aba₀ aba' name msg out content taken | @discussedLater value aba₀ aba' name msg out content taken =>
      obtain rfl : aba₀ = aba := hfollows
      obtain rfl := content
      exact .heard taken rfl rfl fun _ hpayload ↦ hpayload
    | @settled rbc aba₀ aba' name msg out b content taken =>
      obtain rfl : aba₀ = aba := hfollows
      obtain rfl := content
      have hdecision := decision_of_handleMessage taken
      refine .heard taken rfl ?_ fun _ hpayload ↦ hpayload
      cases b <;> exact hdecision
    | @settledLater value aba₀ aba' name msg out b content taken =>
      obtain rfl : aba₀ = aba := hfollows
      obtain rfl := content
      exact .heard taken rfl (decision_of_handleMessage taken) fun _ hpayload ↦ hpayload
    | finished => exact .silent hfollows (List.forall_mem_nil _)
    | idle => exact .silent hfollows (List.forall_mem_nil _)

/-- A state with the value was ongoing before or has had a value. -/
theorem SubsetState.before_of_getValue {X : ProposalExternals} {netinfo : Network} {id : String}
    {state state' : SubsetState} {event : Subset.Event} {out : List Payload} {value : Bytes} {aba : BinaryAgreement}
    (h : state.Turned X netinfo id event state' out) (hvalue : state' = .getValue value aba) :
    (∃ rbc aba, state = .ongoing rbc aba) ∨ ∃ value aba, state = .getValue value aba := by
  cases h with
  | proposal own taken =>
    cases state with
    | ongoing rbc aba₀ => exact .inl ⟨rbc, aba₀, rfl⟩
    | getValue value' aba' => exact .inr ⟨value', aba', rfl⟩
    | accepted | complete =>
      obtain ⟨rfl, -⟩ := Prod.mk.inj (Option.some.inj taken)
      cases hvalue
  | message taken =>
    cases step_cases taken with
    | heard | obtained | discussed => exact .inl ⟨_, _, rfl⟩
    | discussedLater => exact .inr ⟨_, _, rfl⟩
    | @settled _ _ _ _ _ _ b => cases b <;> cases hvalue
    | settledLater | finished => cases hvalue
    | idle => exact .inr ⟨value, aba, hvalue⟩

theorem eq_of_baMessage {event : BinaryAgreement.Event} {source : String} {epoch : ℕ} {msg : BaMessage}
    (h : event.baMessage = some (source, epoch, msg)) :
    ∃ name, event = .message source ⟨epoch, .baBroadcast name msg⟩ := by
  cases event with
  | propose => cases h
  | message source' content =>
    obtain ⟨epoch', content⟩ := content
    cases content with
    | baBroadcast name msg' =>
      obtain ⟨rfl, hrest⟩ := Prod.mk.inj (Option.some.inj h)
      obtain ⟨rfl, rfl⟩ := Prod.mk.inj hrest
      exact ⟨name, rfl⟩
    | conf | term | coin | signature => cases h

/-! ## Runs of a node -/

/-- The agreement of a proposer: a run in which what is heard was gossiped for the proposer, and in which a value
is proposed when that of the proposer is there. -/
structure Voiced (X : ProposalExternals) (netinfo : Network) (nonce : ℕ) (run : SubsetRun) (id : String)
    (state : SubsetState) (talk : AgreementRun) (aba : BinaryAgreement) : Prop where
  isRun : IsRun (BinaryAgreement.step X.toExternals) (BinaryAgreement.new netinfo nonce id) talk aba
  heard : ∀ t ∈ talk, ∀ source msg, t.event = .message source msg →
    ∃ u ∈ run, ∃ name, u.event = .gossip source ⟨id, .agreement name msg⟩
  proposed : ∀ t ∈ talk, ∀ b, t.event = .propose b → b = true ∧ ∃ u ∈ run, Obtains id u
  follows : state.Follows aba

/-- Why a node says or decides a value: it got the value of the proposer, or more nodes than can be faulty have
told it. -/
def Reason (f : ℕ) (run : SubsetRun) (id : String) (b : Bool) : Prop :=
  (b = true ∧ ∃ u ∈ run, Obtains id u) ∨ ∃ sources : Finset String, f + 1 ≤ sources.card ∧
    ∀ source ∈ sources, ∃ u ∈ run, ∃ msg, SaysBval id b msg ∧ u.event = .gossip source msg

section Runs

variable {X : ProposalExternals} {netinfo : Network} {nonce : ℕ} {run : SubsetRun} {id : String}
  {state state' : SubsetState} {talk : AgreementRun} {aba : BinaryAgreement} {subset : Subset}
  {t : Transition Subset Subset.Event (List Payload)} {b : Bool} {msg : SubsetMessage}

theorem Voiced.concat (h : Voiced X netinfo nonce run id state talk aba)
    (t : Transition Subset Subset.Event (List Payload)) : Voiced X netinfo nonce (run ++ [t]) id state talk aba where
  isRun := h.isRun
  heard u hu source msg hevent := by
    obtain ⟨v, hv, hgossip⟩ := h.heard u hu source msg hevent
    exact ⟨v, List.mem_append_left _ hv, hgossip⟩
  proposed u hu b hevent := by
    obtain ⟨hb, v, hv, hobtains⟩ := h.proposed u hu b hevent
    exact ⟨hb, v, List.mem_append_left _ hv, hobtains⟩
  follows := h.follows

/-- A turn of the state is a step of its agreement at most, and what it says is said by the agreement. -/
theorem Voiced.turned (h : Voiced X netinfo nonce run id state talk aba)
    (hturned : state.Turned X netinfo id t.event state' t.out) (hpre : t.pre.states.lookup id = some state)
    (hpost : t.post.states.lookup id = some state') : ∃ talk' aba', Voiced X netinfo nonce (run ++ [t]) id state' talk' aba' ∧
      ∀ payload ∈ t.out, payload.baMessage ≠ none → ∃ u ∈ talk', payload ∈ u.out.1 := by
  have hbefore := h.concat t
  cases SubsetState.spoke_of_turned h.follows hturned with
  | silent follows quiet =>
    exact ⟨talk, aba, { hbefore with follows }, fun payload hpayload hsome ↦ absurd (quiet payload hpayload) hsome⟩
  | @obtained aba' result taken before after said =>
    obtain ⟨rbc, aba₀, rfl⟩ := before
    obtain ⟨value, rfl⟩ := after
    have hobtains : Obtains id t := ⟨rbc, aba₀, value, aba', hpre, hpost⟩
    refine ⟨talk ++ [⟨aba, .propose true, result, aba'⟩], aba', ⟨h.isRun.snoc taken, ?_, ?_, rfl⟩, ?_⟩
    · refine List.forall_mem_append.2 ⟨hbefore.heard, List.forall_mem_singleton.2 ?_⟩
      rintro source msg ⟨⟩
    · refine List.forall_mem_append.2 ⟨hbefore.proposed, List.forall_mem_singleton.2 ?_⟩
      rintro b ⟨⟩
      exact ⟨rfl, t, List.mem_concat_self, hobtains⟩
    · exact fun payload hpayload hsome ↦ ⟨_, List.mem_concat_self, said payload hpayload hsome⟩
  | @heard aba' result source name msg taken event_eq follows said =>
    refine ⟨talk ++ [⟨aba, .message source msg, result, aba'⟩], aba', ⟨h.isRun.snoc taken, ?_, ?_, follows⟩, ?_⟩
    · refine List.forall_mem_append.2 ⟨hbefore.heard, List.forall_mem_singleton.2 ?_⟩
      rintro source msg ⟨⟩
      exact ⟨t, List.mem_concat_self, name, event_eq⟩
    · refine List.forall_mem_append.2 ⟨hbefore.proposed, List.forall_mem_singleton.2 ?_⟩
      rintro b ⟨⟩
    · exact fun payload hpayload _ ↦ ⟨_, List.mem_concat_self, said payload hpayload⟩

theorem voiced_of_isRun (h : IsRun (Subset.step X) (Subset.new X.toExternals netinfo nonce) run subset) :
    subset.netinfo = netinfo ∧ ∀ id state, subset.states.lookup id = some state →
      ∃ talk aba, Voiced X netinfo nonce run id state talk aba := by
  refine forall_states_of_isRun (P := fun run id state ↦ ∃ talk aba, Voiced X netinfo nonce run id state talk aba)
    ?initial ?turned ?other ?nothing h
  case initial =>
    exact fun id ↦ ⟨[], _, .nil, List.forall_mem_nil _, List.forall_mem_nil _, rfl⟩
  case turned =>
    rintro run t id state state' ⟨talk, aba, hvoiced⟩ hturned hpre hpost
    obtain ⟨talk', aba', hvoiced', -⟩ := hvoiced.turned hturned hpre hpost
    exact ⟨talk', aba', hvoiced'⟩
  case other =>
    rintro run t id state state' id' state'' - - - - ⟨talk, aba, hvoiced⟩
    exact ⟨talk, aba, hvoiced.concat t⟩
  case nothing =>
    rintro run t id state - - ⟨talk, aba, hvoiced⟩
    exact ⟨talk, aba, hvoiced.concat t⟩

/-- What justifies a value for the agreement is a reason for the node. -/
theorem Voiced.reason (h : Voiced X netinfo nonce run id state talk aba)
    (hjustified : Justified netinfo.faultNum talk b) : Reason netinfo.faultNum run id b := by
  rcases hjustified with ⟨t, ht, hpropose⟩ | hmany
  · exact .inl (h.proposed t ht b hpropose)
  · refine .inr ⟨_, hmany, fun source hsource ↦ ?_⟩
    simp only [baSenders, List.mem_toFinset, List.mem_map, List.mem_filter, List.mem_filterMap, Prod.exists,
      decide_eq_true_eq] at hsource
    obtain ⟨_, epoch, content, ⟨⟨t, ht, hmessage⟩, -, hkind⟩, rfl⟩ := hsource
    obtain ⟨name, value, rfl⟩ : ∃ name value, content = .bval name value := by
      cases content with
      | bval name value => exact ⟨name, value, rfl⟩
      | aux => cases hkind
    obtain rfl : value = b := eq_of_beq hkind
    obtain ⟨name', hevent⟩ := eq_of_baMessage hmessage
    obtain ⟨u, hu, name'', hgossip⟩ := h.heard t ht _ _ hevent
    exact ⟨u, hu, _, ⟨rfl, name, rfl⟩, hgossip⟩

theorem Reason.concat {f : ℕ} (h : Reason f run id b) (later : SubsetRun) : Reason f (run ++ later) id b := by
  rcases h with ⟨hb, u, hu, hobtains⟩ | ⟨sources, hcard, hfrom⟩
  · exact .inl ⟨hb, u, List.mem_append_left _ hu, hobtains⟩
  · refine .inr ⟨sources, hcard, fun source hsource ↦ ?_⟩
    obtain ⟨u, hu, msg, hmeans, hevent⟩ := hfrom source hsource
    exact ⟨u, List.mem_append_left _ hu, msg, hmeans, hevent⟩

/-- A node has a reason for every BVAL that it sends. -/
theorem reason_of_said (h : IsRun (Subset.step X) (Subset.new X.toExternals netinfo nonce) run subset)
    (ht : t ∈ run) (hout : .subset msg ∈ t.out) (hmeans : SaysBval id b msg) : Reason netinfo.faultNum run id b := by
  obtain ⟨before, after, rfl⟩ := List.append_of_mem ht
  obtain ⟨hbefore, htaken⟩ := h.before rfl
  obtain ⟨hnetinfo, hvoiced⟩ := voiced_of_isRun hbefore
  obtain ⟨rfl, name, hbval⟩ := hmeans
  have hstepped := Subset.step_cases htaken
  generalize hpost : t.post = post at hstepped
  generalize hsent : t.out = out at hstepped hout
  cases hstepped with
  | nothing => cases hout
  | @turned id state state' out found turned =>
    obtain ⟨talk, aba, hvoiced⟩ := hvoiced id state found
    have hlookup : t.post.states.lookup id = some state' := by rw [hpost, Finmap.lookup_insert]
    rw [hnetinfo, ← hsent] at turned
    obtain ⟨talk', aba', hvoiced', hsaid⟩ := hvoiced.turned turned found hlookup
    obtain ⟨u, hu, hpayload⟩ := hsaid (.subset msg) (hsent ▸ hout) (by rw [hbval]; exact Option.some_ne_none _)
    have hsayable := (spoken_of_isRun hvoiced'.isRun).said u hu _ hpayload
    obtain ⟨_, _, hmsg⟩ := hsayable.about
    obtain rfl := Payload.subset.inj hmsg
    have hreason := hvoiced'.reason (hsayable.bval name b hbval)
    rw [List.append_cons]
    exact hreason.concat after

/-- A node has a reason for every decision. -/
theorem reason_of_decision (h : IsRun (Subset.step X) (Subset.new X.toExternals netinfo nonce) run subset)
    (hstate : subset.states.lookup id = some state)
    (hdecision : (state.isAccepted = true ∧ b = true) ∨ state = .complete b) : Reason netinfo.faultNum run id b := by
  obtain ⟨talk, aba, hvoiced⟩ := (voiced_of_isRun h).2 id state hstate
  have hdecided : aba.decision = some b := by
    have hfollows := hvoiced.follows
    rcases hdecision with ⟨haccepted, rfl⟩ | rfl
    · cases state with
      | ongoing | getValue => cases haccepted
      | accepted => exact hfollows
      | complete c =>
        obtain rfl : c = true := haccepted
        exact hfollows
    · exact hfollows
  exact hvoiced.reason ((spoken_of_isRun hvoiced.isRun).decision b hdecided).justified

/-- A value that is there has been got. -/
theorem obtains_of_getValue {value : Bytes}
    (h : IsRun (Subset.step X) (Subset.new X.toExternals netinfo nonce) run subset)
    (hstate : subset.states.lookup id = some (.getValue value aba)) : ∃ u ∈ run, Obtains id u := by
  have hconcat {run : SubsetRun} {id : String} (t : Transition Subset Subset.Event (List Payload))
      (h : ∃ u ∈ run, Obtains id u) : ∃ u ∈ run ++ [t], Obtains id u := by
    obtain ⟨u, hu, hobtains⟩ := h
    exact ⟨u, List.mem_append_left _ hu, hobtains⟩
  have hstates := (forall_states_of_isRun
    (P := fun run id state ↦ ∀ value aba, state = .getValue value aba → ∃ u ∈ run, Obtains id u)
    ?initial ?turned ?other ?nothing h).2
  · exact hstates id _ hstate value aba rfl
  case initial => rintro id value aba ⟨⟩
  case turned =>
    rintro run t id state state' hbefore hturned hpre hpost value aba hvalue
    rcases SubsetState.before_of_getValue hturned hvalue with ⟨rbc, aba₀, rfl⟩ | ⟨value', aba', rfl⟩
    · exact ⟨t, List.mem_concat_self, rbc, aba₀, value, aba, hpre, hvalue ▸ hpost⟩
    · exact hconcat t (hbefore value' aba' rfl)
  case other => exact fun run t _ _ _ id' state'' _ _ _ _ hbefore value aba hvalue ↦ hconcat t (hbefore value aba hvalue)
  case nothing => exact fun run t id state _ _ hbefore value aba hvalue ↦ hconcat t (hbefore value aba hvalue)

end Runs

/-! ## All the nodes -/

namespace Committee

variable {ι : Type} [Fintype ι] [DecidableEq ι] {c : Committee ι} {w v : SubsetWorld ι} {i j : ι} {id : String}
  {b : Bool}

/-- A node that is not faulty has got the value of the proposer. -/
def Obtained (c : Committee ι) (history : SubsetHistory ι) (id : String) : Prop :=
  ∃ entry ∈ history, entry.1 ∉ c.faulty ∧ Obtains id entry.2

omit [Fintype ι] [DecidableEq ι] in
theorem Obtained.append {history : SubsetHistory ι} (h : c.Obtained history id) (later : SubsetHistory ι) :
    c.Obtained (history ++ later) id := by
  obtain ⟨entry, hentry, hcorrect, hobtains⟩ := h
  exact ⟨entry, List.mem_append_left _ hentry, hcorrect, hobtains⟩

/-- Nothing but `true` is said when what the nodes are told is that, after some node has got the value. -/
theorem obtained_of_reason (hi : i ∉ c.faulty)
    (hsaid : ∀ source t msg, SaysBval id b msg → (i, t) ∈ w.history → t.event = .gossip source msg →
      c.From v.history source msg)
    (hbefore : ∀ j msg, j ∉ c.faulty → Sent v.history j msg → SaysBval id b msg → b = true ∧ c.Obtained w.history id)
    (hreason : Reason (c.netinfo i).faultNum (History.perNode some w.history i) id b) :
    b = true ∧ c.Obtained w.history id := by
  rcases hreason with ⟨hb, t, ht, hobtains⟩ | ⟨sources, hcard, hfrom⟩
  · exact ⟨hb, (i, t), History.mem_perNode.1 ht, hi, hobtains⟩
  · rw [c.faultNum_eq] at hcard
    have hsome : ∃ j msg, j ∉ c.faulty ∧ SaysBval id b msg ∧ Sent v.history j msg := by
      refine exists_correct_sent (fun source hsource ↦ ?_) hcard
      obtain ⟨t, ht, msg, hmeans, hevent⟩ := hfrom source hsource
      exact ⟨msg, hmeans, hsaid source t msg hmeans (History.mem_perNode.1 ht) hevent⟩
    obtain ⟨j, msg, hj, hmeans, hsent⟩ := hsome
    exact hbefore j msg hj hsent hmeans

/-- The BVALs of the nodes that are not faulty are for `true`, and a node of them has got the value first. -/
theorem obtained_of_sent (h : c.Reachable w) :
    ∀ j msg, j ∉ c.faulty → Sent w.history j msg → SaysBval id b msg → b = true ∧ c.Obtained w.history id := by
  induction h with
  | start =>
    rintro j msg - ⟨entry, hentry, -⟩
    cases hentry
  | @deliver w w' delivery previous met taken ih =>
    intro j msg hj hsent hmeans
    have hreached : c.Reachable w' := World.Reachable.deliver previous met taken
    obtain ⟨s, out, -, -, hhistory⟩ := World.deliver_cases taken
    obtain ⟨⟨j, t⟩, ht, rfl, hout⟩ := hsent
    refine obtained_of_reason (v := w) hj ?_ ?_ (reason_of_said (isRun hreached j) (History.mem_perNode.2 ht) hout hmeans)
    · exact fun source t msg _ ht hevent ↦ Reachable.attributed_before previous met taken ht hevent
    · intro j msg hj hsent hmeans
      obtain ⟨hb, hobtained⟩ := ih j msg hj hsent hmeans
      exact ⟨hb, hhistory ▸ hobtained.append _⟩

/-- A node that is not faulty decides on `true` only, after such a node has got the value. -/
theorem obtained_of_decision (h : c.Reachable w) (hi : i ∉ c.faulty) {state : SubsetState}
    (hstate : (w.nodes i).states.lookup id = some state)
    (hdecision : (state.isAccepted = true ∧ b = true) ∨ state = .complete b) : b = true ∧ c.Obtained w.history id := by
  refine obtained_of_reason (v := w) hi ?_ ?_ (reason_of_decision (isRun h i) hstate hdecision)
  · exact fun source t msg _ ht hevent ↦ Reachable.attributed h ht hevent
  · exact obtained_of_sent h

/-- No node that is not faulty rejects a proposer, and one that accepts it does so after some such node has got
the value of the proposer. -/
theorem obtained_of_accepted (h : c.Reachable w) (hi : i ∉ c.faulty) {state : SubsetState}
    (hstate : (w.nodes i).states.lookup id = some state) :
    state ≠ .complete false ∧ (state.isAccepted = true → c.Obtained w.history id) := by
  constructor
  · intro hrejected
    cases (obtained_of_decision h hi hstate (.inr hrejected)).1
  · exact fun haccepted ↦ (obtained_of_decision h hi hstate (.inl ⟨haccepted, rfl⟩)).2

/-- As long as no node that is not faulty has got the value of a proposer, none of them is done with it. -/
theorem ongoing_of_not_obtained (h : c.Reachable w) (hi : i ∉ c.faulty) (hnone : ¬ c.Obtained w.history id)
    {state : SubsetState} (hstate : (w.nodes i).states.lookup id = some state) :
    ∃ rbc aba, state = .ongoing rbc aba := by
  cases state with
  | ongoing rbc aba => exact ⟨rbc, aba, rfl⟩
  | getValue value aba =>
    obtain ⟨t, ht, hobtains⟩ := obtains_of_getValue (isRun h i) hstate
    exact absurd ⟨(i, t), History.mem_perNode.1 ht, hi, hobtains⟩ hnone
  | accepted rbc => exact absurd (obtained_of_decision h hi hstate (.inl ⟨rfl, rfl⟩)).2 hnone
  | complete b => exact absurd (obtained_of_decision h hi hstate (.inr rfl)).2 hnone

end Committee

/-! ## Four nodes -/

theorem markKey_injective :
    Function.Injective fun mark : String × ℕ ↦ Nat.pair (Word.asBytes mark.1).key mark.2 := by
  rintro ⟨id, number⟩ ⟨id', number'⟩ h
  obtain ⟨hid, hnumber⟩ := Nat.pair_eq_pair.1 h
  exact Prod.ext (Word.asBytes_injective (Bytes.key_injective hid)) hnumber

def ProposalExternals.solving : ProposalExternals where
  toExternals := Externals.solving
  encode := encodeTwo
  marks := .ofKey _ markKey_injective

def memberNetwork (i : Fin 4) : Network :=
  (Network.new .solving (["a", "b", "c", "d"].get i) true none none (some []) ["a", "b", "c", "d"]).get
    (by revert i; decide +kernel)

/-- The node with the name `d` is faulty. -/
def fourMembers : Committee (Fin 4) where
  externals _ := .solving
  netinfo := memberNetwork
  nonce := 1
  faulty := {3}
  faultNum := 1
  faultNum_eq := by decide +kernel
  faulty_le := by decide

def aboutFaulty (source : String) (content : SubsetContent) : Subset.Event := .gossip source ⟨"d", content⟩

def readyOfFaulty (source : String) : Subset.Event := .gossip source (readyMessage "d" mockTree.rootHash)

def bvalOfFaulty (source : String) : Subset.Event :=
  aboutFaulty source (.agreement source ⟨0, .baBroadcast source (.bval source true)⟩)

def auxOfFaulty (source : String) : Subset.Event :=
  aboutFaulty source (.agreement source ⟨0, .baBroadcast source (.aux source true)⟩)

/-- Two nodes get the value of the faulty one, from its Echoes and everyone's Readys. -/
def valueDeliveries : List (Fin 4 × Subset.Event) :=
  ([0, 1, 2].flatMap fun i ↦ mockProofs.map fun proof ↦ (i, aboutFaulty "d" (.broadcast "d" (.echo "d" ⟨proof⟩)))) ++
    ["d", "b", "c"].map (fun source ↦ (0, readyOfFaulty source)) ++
    ["d", "a", "c"].map (fun source ↦ (1, readyOfFaulty source))

/-- The BVALs reach all the nodes, and the AUXs the first one. -/
def verdictDeliveries : List (Fin 4 × Subset.Event) :=
  ["d", "a", "b"].map (fun source ↦ (2, bvalOfFaulty source)) ++
    ["d", "a", "c"].map (fun source ↦ (1, bvalOfFaulty source)) ++
    ["d", "b", "c"].map (fun source ↦ (0, bvalOfFaulty source)) ++
    ["d", "b", "c"].map (fun source ↦ (0, auxOfFaulty source))

def acceptedWorld : SubsetWorld (Fin 4) :=
  World.final fourMembers.step fourMembers.Attributed fourMembers.start (valueDeliveries ++ verdictDeliveries)

/-- The world after the Echoes and one Ready. -/
def waitingWorld : SubsetWorld (Fin 4) :=
  World.final fourMembers.step fourMembers.Attributed fourMembers.start (valueDeliveries.take 13)

def acceptedState : SubsetState := ((acceptedWorld.nodes 0).states.lookup "d").get (by decide +kernel)

def waitingState : SubsetState := ((waitingWorld.nodes 0).states.lookup "d").get (by decide +kernel)

theorem lookup_acceptedWorld : (acceptedWorld.nodes 0).states.lookup "d" = some acceptedState := by
  rw [acceptedState, Option.some_get]

theorem lookup_waitingWorld : (waitingWorld.nodes 0).states.lookup "d" = some waitingState := by
  rw [waitingState, Option.some_get]

theorem not_obtained_waitingWorld : ¬ fourMembers.Obtained waitingWorld.history "d" := by
  have hreceived : ∀ entry ∈ waitingWorld.history,
      (entry.2.post.states.lookup "d").any SubsetState.received = false := by decide +kernel
  rintro ⟨entry, hentry, -, _, _, _, _, -, hpost⟩
  have hnot := hreceived entry hentry
  rw [hpost] at hnot
  cases hnot

theorem obtained_of_accepted_acceptedWorld :
    acceptedState.isAccepted = true ∧ fourMembers.Obtained acceptedWorld.history "d" := by
  have haccepted : acceptedState.isAccepted = true := by decide +kernel
  have hreached : fourMembers.Reachable acceptedWorld := World.Reachable.of_isSome (by decide +kernel)
  exact ⟨haccepted, (Committee.obtained_of_accepted hreached (by decide) lookup_acceptedWorld).2 haccepted⟩

theorem ongoing_of_not_obtained_waitingWorld : ∃ rbc aba, waitingState = .ongoing rbc aba := by
  have hreached : fourMembers.Reachable waitingWorld := World.Reachable.of_isSome (by decide +kernel)
  exact Committee.ongoing_of_not_obtained hreached (by decide) not_obtained_waitingWorld lookup_waitingWorld

end BFTDiagnosis.Honeybadger
