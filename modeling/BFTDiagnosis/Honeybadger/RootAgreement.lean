import BFTDiagnosis.Honeybadger.Acceptance

/-!
# One root for a proposer

A node gets a value when Readys for one root hash have come from `2 * f + 1` nodes, and an instance sends one Ready
for its proposer at most. So two nodes that are not faulty get the value of a proposer for one root hash, unless a
message that names the proposer has been given to the instance of another one, which the code does not look at.
-/

namespace BFTDiagnosis.Honeybadger

/-- A Ready for the root hash, for the instance of the proposer. -/
def SaysReady (id : String) (hash : Digest) (msg : SubsetMessage) : Prop :=
  msg.proposerId = id ∧ ∃ name name', msg.content = .broadcast name (.ready name' ⟨hash⟩)

def IsReady (msg : SubsetMessage) : Prop := ∃ name name' hash, msg.content = .broadcast name (.ready name' ⟨hash⟩)

theorem isReady_readyMessage (id : String) (hash : Digest) : IsReady (readyMessage id hash) := ⟨id, id, hash, rfl⟩

/-- An Echo or a Ready names the proposer, but goes to the state of another one. -/
def Misnames (id : String) : Subset.Event → Prop
  | .gossip _ ⟨proposerId, .broadcast _ (.echo name _)⟩ | .gossip _ ⟨proposerId, .broadcast _ (.ready name _)⟩ =>
    name = id ∧ proposerId ≠ id
  | _ => False

instance Misnames.decidable (id : String) (event : Subset.Event) : Decidable (Misnames id event) :=
  match event with
  | .gossip _ ⟨_, .broadcast _ (.echo _ _)⟩ | .gossip _ ⟨_, .broadcast _ (.ready _ _)⟩ =>
    inferInstanceAs (Decidable (_ = _ ∧ ¬ _ = _))
  | .gossip _ ⟨_, .broadcast _ (.value _ _)⟩ | .gossip _ ⟨_, .broadcast _ (.canDecode _ _)⟩
  | .gossip _ ⟨_, .broadcast _ (.complete _)⟩ | .gossip _ ⟨_, .broadcast _ (.reply _)⟩
  | .gossip _ ⟨_, .agreement _ _⟩ | .gossip _ ⟨_, .request _⟩ | .gossip _ ⟨_, .reply _ _⟩ | .request _ _ =>
    .isFalse not_false

/-! ## One step of a broadcast -/

/-- What a step does to the Readys: one is stored, and one is sent if none for its proposer was. -/
structure ReadyStep (rbc rbc' : Broadcast) (delivery : Delivery) (sent : List SubsetMessage) : Prop where
  faultEstimate : rbc'.faultEstimate = rbc.faultEstimate
  readys : ∀ sender bytes, rbc'.readys.lookup sender = some bytes → rbc.readys.lookup sender = some bytes ∨
    sender = delivery.source ∧ ∃ name hash, delivery.msg = .ready name ⟨hash⟩ ∧ hash.bytes = bytes
  readySent : ∀ id, rbc.readySent.lookup id = some true → rbc'.readySent.lookup id = some true
  sends : ∀ msg ∈ sent, ∀ name name' hash, msg.content = .broadcast name (.ready name' ⟨hash⟩) →
    sent = [readyMessage name' hash] ∧ rbc.readySent.lookup name' = some false ∧
      rbc'.readySent.lookup name' = some true ∧
        ((∃ e, delivery.msg = .echo name' e) ∨ ∃ r, delivery.msg = .ready name' r)
  decides : rbc.decided = false → rbc'.decided = true → ∃ name hash, delivery.msg = .ready name ⟨hash⟩ ∧
    rbc'.readys.count (· == hash.bytes) = 2 * rbc.faultEstimate + 1

theorem lookup_announced {readySent : HashMap String Bool} {announces : Prop} [Decidable announces] {id name : String}
    (h : readySent.lookup id = some true) :
    (if announces then readySent.insert name true else readySent).lookup id = some true := by
  split
  case isTrue =>
    by_cases hid : id = name
    · rw [hid, Finmap.lookup_insert]
    · rw [Finmap.lookup_insert_of_ne _ hid, h]
  case isFalse => exact h

theorem readyStep {X : Externals} {rbc rbc' : Broadcast} {delivery : Delivery} {out : BroadcastOut}
    (h : rbc.step X delivery = some (rbc', out)) : ReadyStep rbc rbc' delivery out.1 := by
  have hstepped := (Broadcast.step_cases h).1
  generalize out.1 = sent at hstepped
  cases hstepped with
  | @echo id proof proofs before msg stored ready =>
    refine ⟨rfl, fun _ _ hlookup ↦ .inl hlookup, fun _ hsent ↦ lookup_announced hsent, ?_, ?_⟩
    · intro answer hmem name name' hash hcontent
      by_cases hannounces : rbc.EchoAnnounces proof proofs before
      · rw [if_pos hannounces, List.mem_singleton] at hmem
        rw [hmem] at hcontent
        obtain ⟨rfl, hready⟩ := SubsetContent.broadcast.inj hcontent
        obtain ⟨rfl, hhash⟩ := RbcMessage.ready.inj hready
        obtain rfl := Ready.mk.inj hhash
        refine ⟨if_pos hannounces, hannounces.1 ▸ ready, ?_, .inl ⟨_, msg⟩⟩
        rw [Broadcast.afterEcho, if_pos hannounces, Finmap.lookup_insert]
      · rw [if_neg hannounces] at hmem
        cases hmem
    · intro hundecided hdecided
      cases hundecided.symm.trans hdecided
  | @ready id hash before _ msg ready after frame =>
    rw [frame]
    refine ⟨rfl, ?_, fun _ hsent ↦ lookup_announced hsent, ?_, ?_⟩
    · intro sender bytes hlookup
      by_cases hsender : sender = delivery.source
      · rw [hsender] at hlookup
        have hbytes := Option.some.inj ((Finmap.lookup_insert _).symm.trans hlookup)
        exact .inr ⟨hsender, id, hash, msg, hbytes⟩
      · exact .inl ((Finmap.lookup_insert_of_ne _ hsender).symm.trans hlookup)
    · intro ready' hmem name name' hash' hcontent
      by_cases hannounces : rbc.ReadyAnnounces delivery.source hash before
      · rw [if_pos hannounces, List.mem_singleton] at hmem
        rw [hmem] at hcontent
        obtain ⟨rfl, hready⟩ := SubsetContent.broadcast.inj hcontent
        obtain ⟨rfl, hhash⟩ := RbcMessage.ready.inj hready
        obtain rfl := Ready.mk.inj hhash
        refine ⟨if_pos hannounces, hannounces.1 ▸ ready, ?_, .inr ⟨_, msg⟩⟩
        rw [Broadcast.afterReady, if_pos hannounces, Finmap.lookup_insert]
      · rw [if_neg hannounces] at hmem
        cases hmem
    · intro hundecided hdecided
      split at after
      case isTrue hdelivers => exact ⟨id, hash, msg, hdelivers.1⟩
      case isFalse =>
        rw [← Option.some.inj after] at hdecided
        cases hundecided.symm.trans hdecided
  | @value id proof msg =>
    refine ⟨rfl, fun _ _ hlookup ↦ .inl hlookup, fun _ hsent ↦ hsent, ?_, ?_⟩
    · intro msg hmem name name' hash hcontent
      rw [List.mem_singleton.1 hmem] at hcontent
      cases hcontent
    · intro hundecided hdecided
      cases hundecided.symm.trans hdecided
  | other =>
    refine ⟨rfl, fun _ _ hlookup ↦ .inl hlookup, fun _ hsent ↦ hsent, List.forall_mem_nil _, ?_⟩
    intro hundecided hdecided
    cases hundecided.symm.trans hdecided

/-! ## The broadcast of a state -/

/-- Nothing about the Readys has changed, but there may be more proposers. -/
structure Keeps (rbc rbc' : Broadcast) : Prop where
  faultEstimate : rbc'.faultEstimate = rbc.faultEstimate
  readys : rbc'.readys = rbc.readys
  decided : rbc'.decided = rbc.decided
  readySent : ∀ id, rbc.readySent.lookup id = some true → rbc'.readySent.lookup id = some true

theorem Keeps.refl (rbc : Broadcast) : Keeps rbc rbc := ⟨rfl, rfl, rfl, fun _ hsent ↦ hsent⟩

theorem keeps_of_enterPeers (source : String) (nodes : List (ℕ × String)) (rbc : Broadcast) :
    Keeps rbc (nodes.foldl (SubsetState.enterPeer source) rbc) := by
  induction nodes generalizing rbc with
  | nil => exact .refl rbc
  | cons node rest ih =>
    have hrest := ih (SubsetState.enterPeer source rbc node)
    have hfirst : Keeps rbc (SubsetState.enterPeer source rbc node) := by
      unfold SubsetState.enterPeer
      split
      case isTrue =>
        refine ⟨rfl, rfl, rfl, fun id hsent ↦ ?_⟩
        rw [HashMap.lookup_insertNew, hsent, Option.some_or]
      case isFalse => exact .refl rbc
    exact ⟨hrest.faultEstimate.trans hfirst.faultEstimate, hrest.readys.trans hfirst.readys,
      hrest.decided.trans hfirst.decided, fun id hsent ↦ hrest.readySent id (hfirst.readySent id hsent)⟩

/-- What a turn of a state is to its broadcast: nothing, or one step. -/
inductive SubsetState.Relayed (X : Externals) (id : String) (event : Subset.Event) (state state' : SubsetState)
    (out : List Payload) : Prop
  | quiet (kept : ∀ rbc' aba', state' = .ongoing rbc' aba' → ∃ rbc aba, state = .ongoing rbc aba ∧ Keeps rbc rbc')
      (obtains : ∀ value aba', state' = .getValue value aba' → ∀ rbc aba, state ≠ .ongoing rbc aba)
      (silent : ∀ msg, IsReady msg → .subset msg ∉ out)
  | handled {rbc rbc' : Broadcast} {aba : BinaryAgreement} {source name : String} {msg : RbcMessage}
      {sent : List SubsetMessage} {value : Option Bytes} (before : state = .ongoing rbc aba)
      (event_eq : event = .gossip source ⟨id, .broadcast name msg⟩)
      (taken : rbc.step X ⟨source, msg⟩ = some (rbc', (sent, value)))
      (after : ∀ rbc'' aba', state' = .ongoing rbc'' aba' → rbc'' = rbc' ∧ rbc'.decided = false)
      (obtains : ∀ value aba', state' = .getValue value aba' → rbc'.decided = true)
      (relayed : ∀ msg, IsReady msg → .subset msg ∈ out → msg ∈ sent)

/-- An agreement sends no Ready. -/
theorem Voiced.not_ready {X : ProposalExternals} {netinfo : Network} {nonce : ℕ} {run : SubsetRun} {id : String}
    {state : SubsetState} {talk : AgreementRun} {aba aba' : BinaryAgreement}
    (h : Voiced X netinfo nonce run id state talk aba) {event : BinaryAgreement.Event} {result : AgreementOut}
    (htaken : aba.step X.toExternals event = some (aba', result)) (msg : SubsetMessage) (hready : IsReady msg) :
    .subset msg ∉ result.1 := by
  intro hmem
  have hsayable := (spoken_of_isRun (h.isRun.snoc htaken)).said _ List.mem_concat_self _ hmem
  obtain ⟨name, content, hpayload⟩ := hsayable.about
  obtain rfl := Payload.subset.inj hpayload
  obtain ⟨_, _, _, hcontent⟩ := hready
  cases hcontent

theorem mem_of_mem_map_subset {msg : SubsetMessage} {sent : List SubsetMessage}
    (h : .subset msg ∈ sent.map Payload.subset) : msg ∈ sent := by
  obtain ⟨msg', hmsg, hsame⟩ := List.mem_map.1 h
  exact Payload.subset.inj hsame ▸ hmsg

theorem not_decided_of_getOutput {rbc : Broadcast} (h : rbc.getOutput = none) : rbc.decided = false := by
  rw [Broadcast.getOutput] at h
  cases hdecided : rbc.decided with
  | false => rfl
  | true =>
    rw [hdecided] at h
    cases h

theorem decided_of_getOutput {rbc : Broadcast} {value : Bytes} (h : rbc.getOutput = some value) :
    rbc.decided = true := (Option.ite_none_right_eq_some.1 h).1

theorem SubsetState.relayed_of_turned {X : ProposalExternals} {netinfo : Network} {nonce : ℕ} {run : SubsetRun}
    {id : String} {state state' : SubsetState} {event : Subset.Event} {out : List Payload} {talk : AgreementRun}
    {aba : BinaryAgreement} (hvoiced : Voiced X netinfo nonce run id state talk aba)
    (h : state.Turned X netinfo id event state' out) : Relayed X.toExternals id event state state' out := by
  cases h with
  | proposal own taken =>
    cases state with
    | ongoing rbc aba₀ =>
      simp only [propose, bind, pure, Option.bind_eq_some_iff, Option.some.injEq, Prod.mk.injEq] at taken
      obtain ⟨sent, hinput, rfl, rfl⟩ := taken
      refine .quiet ?_ (by rintro _ _ ⟨⟩) ?_
      · rintro rbc' aba' ⟨⟩
        exact ⟨rbc, _, rfl, keeps_of_enterPeers _ _ rbc⟩
      · -- only shards are sent
        rintro msg ⟨_, _, _, hready⟩ hmem
        obtain ⟨tree, -, hmap⟩ := (Broadcast.handleInput_eq_some_iff _ _).1 hinput
        have hshard : some msg ∈ sent.map some := List.mem_map_of_mem (mem_of_mem_map_subset hmem)
        rw [← hmap] at hshard
        obtain ⟨mark, -, hproof⟩ := List.mem_map.1 hshard
        obtain ⟨proof, -, rfl⟩ := Option.map_eq_some_iff.1 hproof
        cases hready
    | getValue | accepted | complete =>
      obtain ⟨rfl, rfl⟩ := Prod.mk.inj (Option.some.inj taken)
      exact .quiet (by rintro _ _ ⟨⟩) (by rintro _ _ _ _ _ ⟨⟩) fun _ _ ↦ List.not_mem_nil
  | message taken =>
    have hfollows := hvoiced.follows
    cases step_cases taken with
    | @heard rbc rbc' aba₀ name msg sent content stepped =>
      obtain rfl := content
      have hundecided := not_decided_of_getOutput (Broadcast.step_cases stepped).2.symm
      refine .handled rfl rfl stepped ?_ (by rintro _ _ ⟨⟩) ?_
      · rintro rbc'' aba' ⟨⟩
        exact ⟨rfl, hundecided⟩
      · exact fun msg _ hmem ↦ mem_of_mem_map_subset hmem
    | @obtained rbc rbc' aba₀ name msg sent value content stepped =>
      obtain rfl := content
      obtain rfl : aba₀ = aba := hfollows
      have hdecided := decided_of_getOutput (Broadcast.step_cases stepped).2.symm
      refine .handled rfl rfl stepped (by rintro _ _ ⟨⟩) (fun _ _ _ ↦ hdecided) ?_
      intro msg hready hmem
      rcases List.mem_append.1 hmem with hbroadcast | hagreement
      · exact mem_of_mem_map_subset hbroadcast
      · have hproposed : aba₀.step X.toExternals (.propose true) =
            some ((aba₀.propose X.toExternals true).1, ((aba₀.propose X.toExternals true).2, none)) := rfl
        exact absurd hagreement (hvoiced.not_ready hproposed msg hready)
    | @discussed rbc aba₀ aba' name msg out content stepped =>
      obtain rfl : aba₀ = aba := hfollows
      refine .quiet ?_ (by rintro _ _ ⟨⟩) (hvoiced.not_ready stepped)
      rintro rbc' aba' ⟨⟩
      exact ⟨rbc, _, rfl, .refl rbc⟩
    | @discussedLater value aba₀ aba' name msg out content stepped =>
      obtain rfl : aba₀ = aba := hfollows
      exact .quiet (by rintro _ _ ⟨⟩) (by rintro _ _ _ _ _ ⟨⟩) (hvoiced.not_ready stepped)
    | @settled rbc aba₀ aba' name msg out b content stepped =>
      obtain rfl : aba₀ = aba := hfollows
      refine .quiet ?_ ?_ (hvoiced.not_ready stepped)
      · cases b <;> rintro _ _ ⟨⟩
      · cases b <;> rintro _ _ ⟨⟩
    | @settledLater value aba₀ aba' name msg out b content stepped =>
      obtain rfl : aba₀ = aba := hfollows
      exact .quiet (by rintro _ _ ⟨⟩) (by rintro _ _ ⟨⟩) (hvoiced.not_ready stepped)
    | finished => exact .quiet (by rintro _ _ ⟨⟩) (by rintro _ _ ⟨⟩) fun _ _ ↦ List.not_mem_nil
    | idle notOngoing =>
      refine .quiet ?_ ?_ fun _ _ ↦ List.not_mem_nil
      · exact fun rbc aba hongoing ↦ absurd hongoing (notOngoing rbc aba)
      · exact fun _ _ _ rbc aba ↦ notOngoing rbc aba

/-! ## Runs of a node -/

/-- The sources of the Readys for the root hash are as many as a quorum has. -/
def ReadyQuorum (f : ℕ) (run : SubsetRun) (id : String) (hash : Digest) : Prop :=
  ∃ sources : Finset String, 2 * f + 1 ≤ sources.card ∧
    ∀ source ∈ sources, ∃ u ∈ run, ∃ msg, SaysReady id hash msg ∧ u.event = .gossip source msg

/-- A Ready for the root hash is given to the state of the proposer. -/
def HandlesReady (id : String) (hash : Digest) (event : Subset.Event) : Prop :=
  ∃ source msg, SaysReady id hash msg ∧ event = .gossip source msg

/-- The Readys of a broadcast: where the stored ones come from, and that it knows of the one that it sent. -/
structure Stores (f : ℕ) (run : SubsetRun) (id : String) (rbc : Broadcast) : Prop where
  faultEstimate : rbc.faultEstimate = f
  undecided : rbc.decided = false
  readys : ∀ sender bytes, rbc.readys.lookup sender = some bytes →
    ∃ u ∈ run, ∃ msg hash, SaysReady id hash msg ∧ hash.bytes = bytes ∧ u.event = .gossip sender msg
  readySent : ∀ u ∈ run, ∀ hash, .subset (readyMessage id hash) ∈ u.out → rbc.readySent.lookup id = some true

/-- A proposer at a node: one Ready is sent at most, and the value is there after a quorum of them. -/
structure Tallied (f : ℕ) (run : SubsetRun) (id : String) (state : SubsetState) : Prop where
  stores : ∀ rbc aba, state = .ongoing rbc aba → Stores f run id rbc
  once : ∀ u ∈ run, ∀ u' ∈ run, ∀ hash hash', .subset (readyMessage id hash) ∈ u.out →
    .subset (readyMessage id hash') ∈ u'.out → hash = hash'
  obtained : ∀ u ∈ run, Obtains id u → ∃ hash, HandlesReady id hash u.event ∧ ReadyQuorum f run id hash

section Runs

variable {X : ProposalExternals} {netinfo : Network} {nonce f : ℕ} {run : SubsetRun} {id : String}
  {state state' : SubsetState} {rbc rbc' : Broadcast} {t : Transition Subset Subset.Event (List Payload)}
  {hash : Digest}

theorem ReadyQuorum.concat (h : ReadyQuorum f run id hash) (t : Transition Subset Subset.Event (List Payload)) :
    ReadyQuorum f (run ++ [t]) id hash := by
  obtain ⟨sources, hcard, hfrom⟩ := h
  refine ⟨sources, hcard, fun source hsource ↦ ?_⟩
  obtain ⟨u, hu, hready⟩ := hfrom source hsource
  exact ⟨u, List.mem_append_left _ hu, hready⟩

/-- A transition that sends no Ready for the proposer and leaves its broadcast alone. -/
theorem Stores.concat (h : Stores f run id rbc) (hkeeps : Keeps rbc rbc')
    (hsilent : ∀ hash, .subset (readyMessage id hash) ∉ t.out) : Stores f (run ++ [t]) id rbc' where
  faultEstimate := hkeeps.faultEstimate.trans h.faultEstimate
  undecided := hkeeps.decided.trans h.undecided
  readys sender bytes hlookup := by
    rw [hkeeps.readys] at hlookup
    obtain ⟨u, hu, hready⟩ := h.readys sender bytes hlookup
    exact ⟨u, List.mem_append_left _ hu, hready⟩
  readySent := List.forall_mem_append.2 ⟨fun u hu hash hout ↦ hkeeps.readySent id (h.readySent u hu hash hout),
    List.forall_mem_singleton.2 fun hash hout ↦ absurd hout (hsilent hash)⟩

theorem Tallied.concat (h : Tallied f run id state)
    (hstores : ∀ rbc aba, state' = .ongoing rbc aba → Stores f (run ++ [t]) id rbc)
    (hsilent : ∀ hash, .subset (readyMessage id hash) ∉ t.out) (hobtains : ¬ Obtains id t) :
    Tallied f (run ++ [t]) id state' where
  stores := hstores
  once := by
    refine List.forall_mem_append.2 ⟨fun u hu ↦ List.forall_mem_append.2 ⟨h.once u hu, ?_⟩, ?_⟩
    · exact List.forall_mem_singleton.2 fun _ hash' _ hout ↦ absurd hout (hsilent hash')
    · exact List.forall_mem_singleton.2 fun _ _ hash _ hout ↦ absurd hout (hsilent hash)
  obtained := by
    refine List.forall_mem_append.2 ⟨fun u hu hobtains ↦ ?_, ?_⟩
    · obtain ⟨hash, hhandles, hquorum⟩ := h.obtained u hu hobtains
      exact ⟨hash, hhandles, hquorum.concat t⟩
    · exact List.forall_mem_singleton.2 fun hobtained ↦ absurd hobtained hobtains

/-- Where the Readys come from that are stored after a step. -/
theorem Stores.readys_of_step (h : Stores f run id rbc) {source name : String} {msg : RbcMessage}
    {sent : List SubsetMessage} (hstep : ReadyStep rbc rbc' ⟨source, msg⟩ sent)
    (hevent : t.event = .gossip source ⟨id, .broadcast name msg⟩) :
    ∀ sender bytes, rbc'.readys.lookup sender = some bytes →
      ∃ u ∈ run ++ [t], ∃ msg hash, SaysReady id hash msg ∧ hash.bytes = bytes ∧ u.event = .gossip sender msg := by
  intro sender bytes hlookup
  rcases hstep.readys sender bytes hlookup with hold | ⟨rfl, name', hash, rfl, rfl⟩
  · obtain ⟨u, hu, hready⟩ := h.readys sender bytes hold
    exact ⟨u, List.mem_append_left _ hu, hready⟩
  · exact ⟨t, List.mem_concat_self, _, hash, ⟨rfl, name, name', rfl⟩, rfl, hevent⟩

/-- A message for the broadcast: at most one Ready is sent in its life, and a quorum of them brings the value. -/
theorem Tallied.handled (h : Tallied f run id (.ongoing rbc aba)) {source name : String} {msg : RbcMessage}
    {sent : List SubsetMessage} (hstep : ReadyStep rbc rbc' ⟨source, msg⟩ sent)
    (hevent : t.event = .gossip source ⟨id, .broadcast name msg⟩)
    (hpost : t.post.states.lookup id = some state')
    (hafter : ∀ rbc'' aba', state' = .ongoing rbc'' aba' → rbc'' = rbc' ∧ rbc'.decided = false)
    (hobtains : ∀ value aba', state' = .getValue value aba' → rbc'.decided = true)
    (hrelayed : ∀ msg, IsReady msg → .subset msg ∈ t.out → msg ∈ sent) :
    Tallied f (run ++ [t]) id state' := by
  have hstores := h.stores rbc aba rfl
  have hsends (hash : Digest) (hout : .subset (readyMessage id hash) ∈ t.out) :=
    hstep.sends _ (hrelayed _ (isReady_readyMessage id hash) hout) id id hash rfl
  constructor
  case stores =>
    intro rbc'' aba' hongoing
    obtain ⟨rfl, hundecided⟩ := hafter rbc'' aba' hongoing
    refine ⟨hstep.faultEstimate.trans hstores.faultEstimate, hundecided, hstores.readys_of_step hstep hevent, ?_⟩
    refine List.forall_mem_append.2 ⟨fun u hu hash hout ↦ hstep.readySent id (hstores.readySent u hu hash hout), ?_⟩
    exact List.forall_mem_singleton.2 fun hash hout ↦ (hsends hash hout).2.2.1
  case once =>
    have hnew (u : Transition Subset Subset.Event (List Payload)) (hu : u ∈ run) (hash hash' : Digest)
        (hold : .subset (readyMessage id hash) ∈ u.out) : .subset (readyMessage id hash') ∉ t.out := by
      intro hout
      have hfalse := (hsends hash' hout).2.1
      rw [hstores.readySent u hu hash hold] at hfalse
      cases hfalse
    refine List.forall_mem_append.2 ⟨fun u hu ↦ List.forall_mem_append.2 ⟨h.once u hu, ?_⟩, ?_⟩
    · exact List.forall_mem_singleton.2 fun hash hash' hold hout ↦ absurd hout (hnew u hu hash hash' hold)
    · refine List.forall_mem_singleton.2 (List.forall_mem_append.2 ⟨?_, ?_⟩)
      · exact fun u hu hash hash' hout hold ↦ absurd hout (hnew u hu hash' hash hold)
      · refine List.forall_mem_singleton.2 fun hash hash' hout hout' ↦ ?_
        have hmem := hrelayed _ (isReady_readyMessage id hash') hout'
        rw [(hsends hash hout).1, List.mem_singleton] at hmem
        obtain ⟨-, hcontent⟩ := SubsetMessage.mk.inj hmem
        obtain ⟨-, hready⟩ := SubsetContent.broadcast.inj hcontent
        obtain ⟨-, hhash⟩ := RbcMessage.ready.inj hready
        exact (Ready.mk.inj hhash).symm
  case obtained =>
    refine List.forall_mem_append.2 ⟨fun u hu hobtained ↦ ?_, List.forall_mem_singleton.2 ?_⟩
    · obtain ⟨hash, hhandles, hquorum⟩ := h.obtained u hu hobtained
      exact ⟨hash, hhandles, hquorum.concat t⟩
    · rintro ⟨_, _, value, aba', -, hvalue⟩
      have hdecided := hobtains value aba' (Option.some.inj (hpost.symm.trans hvalue))
      obtain ⟨name', hash, rfl, hcount⟩ := hstep.decides hstores.undecided hdecided
      refine ⟨hash, ⟨source, _, ⟨rfl, name, name', rfl⟩, hevent⟩, ?_⟩
      refine ⟨rbc'.readys.keys.filter fun sender ↦ rbc'.readys.lookup sender = some hash.bytes, ?_, ?_⟩
      · rw [← hstores.faultEstimate, ← hcount]
        apply HashMap.count_le_card
        intro sender bytes hlookup hbytes
        rw [eq_of_beq hbytes] at hlookup
        exact Finset.mem_filter.2 ⟨Finmap.mem_keys.2 (Finmap.mem_of_lookup_eq_some hlookup), hlookup⟩
      · intro sender hsender
        obtain ⟨u, hu, msg, hash', hready, hbytes, hgossip⟩ :=
          hstores.readys_of_step hstep hevent sender hash.bytes (Finset.mem_filter.1 hsender).2
        obtain ⟨_, _⟩ := hash
        obtain ⟨_, _⟩ := hash'
        obtain rfl := hbytes
        exact ⟨u, hu, msg, hready, hgossip⟩

theorem not_obtains_of_eq (h : t.pre.states.lookup id = t.post.states.lookup id) : ¬ Obtains id t := by
  rintro ⟨rbc, aba, value, aba', hpre, hpost⟩
  rw [h, hpost] at hpre
  cases hpre

/-- While no message that names the proposer goes to another one, its Readys are in order. -/
theorem tallied_of_isRun {subset : Subset}
    (h : IsRun (Subset.step X) (Subset.new X.toExternals netinfo nonce) run subset) :
    ∀ id state, subset.states.lookup id = some state → (∀ u ∈ run, ¬ Misnames id u.event) →
      Tallied netinfo.faultNum run id state := by
  have hboth := (forall_states_of_isRun (P := fun run id state ↦
    (∃ talk aba, Voiced X netinfo nonce run id state talk aba) ∧
      ((∀ u ∈ run, ¬ Misnames id u.event) → Tallied netinfo.faultNum run id state))
    ?initial ?turned ?other ?nothing h).2
  · exact fun id state hstate ↦ (hboth id state hstate).2
  case initial =>
    intro id
    refine ⟨⟨[], _, .nil, List.forall_mem_nil _, List.forall_mem_nil _, rfl⟩, fun _ ↦ ⟨?_, ?_, ?_⟩⟩
    · rintro rbc aba ⟨⟩
      refine ⟨rfl, rfl, fun sender bytes hlookup ↦ ?_, List.forall_mem_nil _⟩
      cases (Finmap.lookup_empty _).symm.trans hlookup
    · exact List.forall_mem_nil _
    · exact List.forall_mem_nil _
  case turned =>
    rintro run t id state state' ⟨⟨talk, aba, hvoiced⟩, htallied⟩ hturned hpre hpost
    obtain ⟨talk', aba', hvoiced', -⟩ := hvoiced.turned hturned hpre hpost
    refine ⟨⟨talk', aba', hvoiced'⟩, fun hnamed ↦ ?_⟩
    have htallied := htallied fun u hu ↦ hnamed u (List.mem_append_left _ hu)
    cases SubsetState.relayed_of_turned hvoiced hturned with
    | quiet kept obtains silent =>
      have hsilent (hash : Digest) : .subset (readyMessage id hash) ∉ t.out := silent _ (isReady_readyMessage id hash)
      refine htallied.concat ?_ hsilent ?_
      · intro rbc aba hongoing
        obtain ⟨rbc₀, aba₀, hbefore, hkeeps⟩ := kept rbc aba hongoing
        exact (htallied.stores rbc₀ aba₀ hbefore).concat hkeeps hsilent
      · rintro ⟨rbc, aba, value, aba', hongoing, hvalue⟩
        exact obtains value aba' (Option.some.inj (hpost.symm.trans hvalue)) rbc aba
          (Option.some.inj (hpre.symm.trans hongoing))
    | handled before event_eq taken after obtains relayed =>
      obtain rfl := before
      exact htallied.handled (readyStep taken) event_eq hpost after obtains relayed
  case other =>
    rintro run t id state state' id' state'' ⟨⟨talk, aba, hvoiced⟩, -⟩ hturned hsame hid ⟨⟨talk', aba', hvoiced'⟩, htallied⟩
    refine ⟨⟨talk', aba', hvoiced'.concat t⟩, fun hnamed ↦ ?_⟩
    have htallied := htallied fun u hu ↦ hnamed u (List.mem_append_left _ hu)
    have hsilent (hash : Digest) : .subset (readyMessage id' hash) ∉ t.out := by
      intro hout
      cases SubsetState.relayed_of_turned hvoiced hturned with
      | quiet kept obtains silent => exact silent _ (isReady_readyMessage id' hash) hout
      | handled before event_eq taken after obtains relayed =>
        have hsends := (readyStep taken).sends _ (relayed _ (isReady_readyMessage id' hash) hout) id' id' hash rfl
        apply hnamed t List.mem_concat_self
        rw [event_eq]
        rcases hsends.2.2.2 with ⟨e, rfl⟩ | ⟨r, rfl⟩
        · exact ⟨rfl, hid.symm⟩
        · exact ⟨rfl, hid.symm⟩
    refine htallied.concat (fun rbc aba hongoing ↦ ?_) hsilent (not_obtains_of_eq hsame)
    exact (htallied.stores rbc aba hongoing).concat (.refl rbc) hsilent
  case nothing =>
    rintro run t id state hsame hout ⟨⟨talk, aba, hvoiced⟩, htallied⟩
    refine ⟨⟨talk, aba, hvoiced.concat t⟩, fun hnamed ↦ ?_⟩
    have htallied := htallied fun u hu ↦ hnamed u (List.mem_append_left _ hu)
    have hsilent (hash : Digest) : .subset (readyMessage id hash) ∉ t.out := by
      rw [hout]
      exact List.not_mem_nil
    refine htallied.concat (fun rbc aba hongoing ↦ ?_) hsilent (not_obtains_of_eq (by rw [hsame]))
    exact (htallied.stores rbc aba hongoing).concat (.refl rbc) hsilent

/-- A proposer that has a state keeps one. -/
theorem mem_states_of_isRun {subset subset' : Subset} (h : IsRun (Subset.step X) subset run subset')
    (hid : id ∈ subset.states) : id ∈ subset'.states := by
  induction h with
  | nil => exact hid
  | snoc previous taken ih =>
    cases Subset.step_cases taken with
    | turned found turned => exact Finmap.mem_insert.2 (.inr ih)
    | nothing => exact ih

/-- A Ready that a node sends is one for the proposer that it names, and this proposer has a state. -/
theorem eq_readyMessage_of_said {subset : Subset}
    (h : IsRun (Subset.step X) (Subset.new X.toExternals netinfo nonce) run subset) (ht : t ∈ run)
    (hnamed : ¬ Misnames id t.event) {msg : SubsetMessage} (hout : .subset msg ∈ t.out)
    (hready : SaysReady id hash msg) : msg = readyMessage id hash ∧ id ∈ subset.states := by
  obtain ⟨before, after, rfl⟩ := List.append_of_mem ht
  obtain ⟨hbefore, htaken⟩ := h.before rfl
  obtain ⟨rfl, name, name', hcontent⟩ := hready
  obtain ⟨hnetinfo, hvoiced⟩ := voiced_of_isRun hbefore
  have hkept : msg.proposerId ∈ t.pre.states → msg.proposerId ∈ subset.states := fun hmem ↦
    mem_states_of_isRun ((h.after rfl).cons htaken) hmem
  have hstepped := Subset.step_cases htaken
  generalize t.post = post at hstepped
  generalize t.out = out at hstepped hout
  cases hstepped with
  | nothing => cases hout
  | @turned id state state' out found turned =>
    obtain ⟨talk, aba, hvoiced⟩ := hvoiced id state found
    rw [hnetinfo] at turned
    cases SubsetState.relayed_of_turned hvoiced turned with
    | quiet kept obtains silent => exact absurd hout (silent msg ⟨name, name', hash, hcontent⟩)
    | @handled rbc rbc' aba source name'' content sent value before event_eq taken after obtains relayed =>
      have hmem := relayed msg ⟨name, name', hash, hcontent⟩ hout
      obtain ⟨hsent, -, -, hnames⟩ := (readyStep taken).sends msg hmem name name' hash hcontent
      have hsent' : sent = [readyMessage name' hash] := hsent
      rw [hsent', List.mem_singleton] at hmem
      have hname : name' = msg.proposerId := by rw [hmem]; rfl
      -- a message that names the proposer has been given to its own state
      have hid : id = msg.proposerId := by
        by_contra hother
        apply hnamed
        rw [event_eq]
        rcases hnames with ⟨e, rfl⟩ | ⟨r, rfl⟩
        · exact ⟨hname, hother⟩
        · exact ⟨hname, hother⟩
      exact ⟨hname ▸ hmem, hkept (hid ▸ Finmap.mem_of_lookup_eq_some found)⟩

/-- A node sends Readys of one root hash for a proposer. -/
theorem eq_of_said {subset : Subset}
    (h : IsRun (Subset.step X) (Subset.new X.toExternals netinfo nonce) run subset)
    (hnamed : ∀ u ∈ run, ¬ Misnames id u.event) {t' : Transition Subset Subset.Event (List Payload)}
    {hash' : Digest} {msg msg' : SubsetMessage} (ht : t ∈ run) (ht' : t' ∈ run) (hout : .subset msg ∈ t.out)
    (hout' : .subset msg' ∈ t'.out) (hready : SaysReady id hash msg) (hready' : SaysReady id hash' msg') :
    hash = hash' := by
  obtain ⟨rfl, hid⟩ := eq_readyMessage_of_said h ht (hnamed t ht) hout hready
  obtain ⟨rfl, -⟩ := eq_readyMessage_of_said h ht' (hnamed t' ht') hout' hready'
  obtain ⟨state, hstate⟩ := Finmap.mem_iff.1 hid
  exact (tallied_of_isRun h id state hstate hnamed).once t ht t' ht' hash hash' hout hout'

end Runs

/-! ## All the nodes -/

namespace Committee

variable {ι : Type} [Fintype ι] [DecidableEq ι] {c : Committee ι} {w : SubsetWorld ι} {i j : ι} {id : String}
  {hash hash' : Digest}

/-- Two quorums of Readys for a proposer are for one root hash. -/
theorem eq_of_quorums (hcard : Fintype.card ι = 3 * c.faultNum + 1) (h : c.Reachable w)
    (hnamed : ∀ entry ∈ w.history, entry.1 ∉ c.faulty → ¬ Misnames id entry.2.event)
    (hquorum : ReadyQuorum c.faultNum (History.perNode some w.history i) id hash)
    (hquorum' : ReadyQuorum c.faultNum (History.perNode some w.history j) id hash') : hash = hash' := by
  have hmembers {i : ι} {hash : Digest} (hquorum : ReadyQuorum c.faultNum (History.perNode some w.history i) id hash) :
      ∃ members : Finset ι, 2 * c.faultNum + 1 ≤ members.card ∧
        ∀ k ∈ members, k ∈ c.faulty ∨ ∃ msg, SaysReady id hash msg ∧ Sent w.history k msg := by
    obtain ⟨sources, hsources, hfrom⟩ := hquorum
    obtain ⟨members, hcard, hsent⟩ := Quorum.exists_members (fun k ↦ (c.netinfo k).id) sources
      (P := fun k ↦ k ∈ c.faulty ∨ ∃ msg, SaysReady id hash msg ∧ Sent w.history k msg) (by
        intro source hsource
        obtain ⟨u, hu, msg, hready, hevent⟩ := hfrom source hsource
        obtain ⟨k, hname, hsent⟩ := Reachable.attributed h (History.mem_perNode.1 hu) hevent
        exact ⟨k, hname, hsent.imp_right fun hsent ↦ ⟨msg, hready, hsent⟩⟩)
    exact ⟨members, hsources.trans hcard, hsent⟩
  obtain ⟨members, hlarge, hsent⟩ := hmembers hquorum
  obtain ⟨members', hlarge', hsent'⟩ := hmembers hquorum'
  obtain ⟨k, hk, hk', hcorrect⟩ := Quorum.exists_correct_of_two_quorums hcard c.faulty_le hlarge hlarge'
  obtain ⟨msg, hready, ⟨_, t⟩, ht, rfl, hout⟩ := (hsent k hk).resolve_left hcorrect
  obtain ⟨msg', hready', ⟨_, t'⟩, ht', rfl, hout'⟩ := (hsent' _ hk').resolve_left hcorrect
  refine eq_of_said (isRun h _) (fun u hu ↦ hnamed _ (History.mem_perNode.1 hu) hcorrect) (History.mem_perNode.2 ht)
    (History.mem_perNode.2 ht') hout hout' hready hready'

/-- The nodes that are not faulty get the value of a proposer at Readys for one root hash. -/
theorem exists_root (hcard : Fintype.card ι = 3 * c.faultNum + 1) (h : c.Reachable w)
    (hnamed : ∀ entry ∈ w.history, entry.1 ∉ c.faulty → ¬ Misnames id entry.2.event) :
    ∃ root, ∀ entry ∈ w.history, entry.1 ∉ c.faulty → Obtains id entry.2 → HandlesReady id root entry.2.event := by
  have hobtained (i : ι) (t : Transition Subset Subset.Event (List Payload)) (ht : (i, t) ∈ w.history)
      (hi : i ∉ c.faulty) (hobtains : Obtains id t) : ∃ hash, HandlesReady id hash t.event ∧
        ReadyQuorum c.faultNum (History.perNode some w.history i) id hash := by
    have hrun := isRun h i
    have hmem := History.mem_perNode.2 ht
    obtain ⟨before, after, hsplit⟩ := List.append_of_mem hmem
    have hrest := hrun.after hsplit
    have hid : id ∈ (w.nodes i).states := by
      apply mem_states_of_isRun hrest
      obtain ⟨_, _, _, _, -, hpost⟩ := hobtains
      exact Finmap.mem_of_lookup_eq_some hpost
    obtain ⟨state, hstate⟩ := Finmap.mem_iff.1 hid
    have htallied := tallied_of_isRun hrun id state hstate fun u hu ↦ hnamed _ (History.mem_perNode.1 hu) hi
    rw [c.faultNum_eq] at htallied
    exact htallied.obtained t hmem hobtains
  by_cases hsome : ∃ i t, (i, t) ∈ w.history ∧ i ∉ c.faulty ∧ Obtains id t
  · obtain ⟨i, t, ht, hi, hobtains⟩ := hsome
    obtain ⟨root, -, hquorum⟩ := hobtained i t ht hi hobtains
    refine ⟨root, ?_⟩
    rintro ⟨j, u⟩ hu hj hobtains'
    obtain ⟨hash, hhandles, hquorum'⟩ := hobtained j u hu hj hobtains'
    rw [eq_of_quorums hcard h hnamed hquorum hquorum']
    exact hhandles
  · refine ⟨Digest.ofNat 0, ?_⟩
    rintro ⟨j, u⟩ hu hj hobtains
    exact absurd ⟨j, u, hu, hj, hobtains⟩ hsome

end Committee

/-! ## Two nodes with the value -/

def valueWorld : SubsetWorld (Fin 4) :=
  World.final fourMembers.step fourMembers.Attributed fourMembers.start valueDeliveries

theorem exists_root_valueWorld :
    (∀ i : Fin 2, ((valueWorld.nodes (i.castLE (by decide))).states.lookup "d").any SubsetState.received = true) ∧
      ∃ root, ∀ entry ∈ valueWorld.history, entry.1 ∉ fourMembers.faulty → Obtains "d" entry.2 →
        HandlesReady "d" root entry.2.event :=
  ⟨by decide +kernel, Committee.exists_root (by decide) (World.Reachable.of_isSome (by decide +kernel))
    (by decide +kernel)⟩

end BFTDiagnosis.Honeybadger
