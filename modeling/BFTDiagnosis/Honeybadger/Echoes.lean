import BFTDiagnosis.Honeybadger.Broadcast

/-!
# What a Ready of reliable broadcast is backed by

An Echo with a proof that does not validate is reported and stored all the same, and a Ready is counted for
its root hash whatever proposer it was sent for. In a run in which neither happens, every stored proof
validates, and a Ready is sent when proofs with enough different indices are stored or when enough nodes
have sent one for the same proposer and root hash.
-/

namespace BFTDiagnosis.Honeybadger

variable {X : Externals}

namespace Broadcast

/-- An instance with the peers entered. -/
def withPeers (X : Externals) (myId : String) (netinfo : Network) (peers : PeerSet) : Broadcast :=
  { Broadcast.new X myId netinfo with peerSet := peers }

variable {b b' : Broadcast} {delivery : Delivery} {out : List SubsetMessage}

/-- The peers and the fault estimate are fixed. -/
theorem Stepped.frame (h : Stepped X b delivery b' out) :
    b'.peerSet = b.peerSet ∧ b'.faultEstimate = b.faultEstimate := by
  cases h with
  | echo | value | other => exact ⟨rfl, rfl⟩
  | ready msg ready after frame =>
    rw [frame]
    exact ⟨rfl, rfl⟩

/-- A proof is stored because it was stored before or because it is echoed. -/
theorem Stepped.stored (h : Stepped X b delivery b' out) {id : String} {proofs : Finset Proof} {proof : Proof}
    (hlookup : b'.echoSet.lookup id = some proofs) (hmem : proof ∈ proofs) :
    (∃ before, b.echoSet.lookup id = some before ∧ proof ∈ before) ∨ delivery.msg = .echo id ⟨proof⟩ := by
  cases h with
  | value | other => exact .inl ⟨proofs, hlookup, hmem⟩
  | ready msg ready after frame =>
    rw [frame] at hlookup
    exact .inl ⟨proofs, hlookup, hmem⟩
  | @echo id' echoed before sent msg stored ready =>
    by_cases hid : id = id'
    · subst hid
      have hproofs : some (insert echoed before) = some proofs := by
        rw [← hlookup]
        exact (Finmap.lookup_insert b.echoSet).symm
      obtain rfl := Option.some.inj hproofs
      rcases Finset.mem_insert.1 hmem with rfl | hbefore
      · exact .inr msg
      · exact .inl ⟨before, stored, hbefore⟩
    · have hsame : b.echoSet.lookup id = some proofs := by
        rw [← hlookup]
        exact (Finmap.lookup_insert_of_ne b.echoSet hid).symm
      exact .inl ⟨proofs, hsame, hmem⟩

/-- A Ready is sent at an Echo or at a Ready, when no Ready of the proposer has been sent. -/
theorem Stepped.announces (h : Stepped X b delivery b' out) {id : String} {hash : Digest}
    (hout : readyMessage id hash ∈ out) :
    (∃ proofs, b'.echoSet.lookup id = some proofs ∧ proofCount proofs hash = 2 * b.faultEstimate + 1) ∨
      delivery.msg = .ready id ⟨hash⟩ ∧ b.readySent.lookup id = some false ∧
        b.ReadyAnnounces delivery.source hash false := by
  cases h with
  | value => simp [handleValue, readyMessage] at hout
  | other => simp at hout
  | @echo id' proof proofs sent msg stored ready =>
    rw [List.mem_ite_nil_right, List.mem_singleton] at hout
    obtain ⟨⟨-, hcount⟩, hsame⟩ := hout
    simp only [readyMessage, SubsetMessage.mk.injEq, SubsetContent.broadcast.injEq, RbcMessage.ready.injEq,
      Ready.mk.injEq] at hsame
    obtain ⟨rfl, -, -, rfl⟩ := hsame
    exact .inl ⟨_, Finmap.lookup_insert b.echoSet, hcount⟩
  | @ready id' hash' sent _ msg ready after frame =>
    rw [List.mem_ite_nil_right, List.mem_singleton] at hout
    obtain ⟨hannounce, hsame⟩ := hout
    simp only [readyMessage, SubsetMessage.mk.injEq, SubsetContent.broadcast.injEq, RbcMessage.ready.injEq,
      Ready.mk.injEq] at hsame
    obtain ⟨rfl, -, -, rfl⟩ := hsame
    obtain rfl : sent = false := hannounce.1
    exact .inr ⟨msg, ready, hannounce⟩

end Broadcast

/-! ## The property -/

/-- Every proof that is held validates for the peers. -/
def EchoesValid (X : Externals) (b : Broadcast) : Prop :=
  ∀ id proofs, b.echoSet.lookup id = some proofs → ∀ proof ∈ proofs, b.validateProof X proof = true

/-- The indices of the proofs stored for a proposer with a root hash. -/
def storedIndices (b : Broadcast) (id : String) (hash : Digest) : Finset ℕ :=
  (((b.echoSet.lookup id).getD ∅).filter fun proof ↦ proof.rootHash = hash).image Proof.index

/-- The nodes from which a Ready for the proposer and the root hash was handled. -/
def readySenders (run : BroadcastRun) (id : String) (hash : Digest) : Finset String :=
  (run.filterMap fun t ↦ if t.event.msg = .ready id ⟨hash⟩ then some t.event.source else none).toFinset

theorem mem_readySenders {run : BroadcastRun} {id : String} {hash : Digest} {sender : String} :
    sender ∈ readySenders run id hash ↔ ∃ t ∈ run, t.event.msg = .ready id ⟨hash⟩ ∧ t.event.source = sender := by
  simp [readySenders]

/-- A Ready is sent after proofs with enough different indices have been stored, or after enough nodes have
sent one for the same proposer and root hash. -/
def ReadyBacked (f : ℕ) (before : BroadcastRun) (t : Transition Broadcast Delivery BroadcastOut) : Prop :=
  ∀ id hash, readyMessage id hash ∈ t.out.1 →
    2 * f + 1 ≤ (storedIndices t.post id hash).card ∨ f + 1 ≤ (readySenders (before ++ [t]) id hash).card

/-! ## The condition -/

/-- What the handlers should have made sure of: the proof of an Echo validates, and while no Ready of the
proposer has been sent, the Readys that are counted with one for it have been sent for it. -/
def CheckedMessage (X : Externals) (before : BroadcastRun) (b : Broadcast) (source : String) : RbcMessage → Prop
  | .echo _ e => b.validateProof X e.proof = true
  | .ready id ready => b.readySent.lookup id = some false → ∀ sender ∈ b.readys.keys, sender ≠ source →
    b.readys.lookup sender = some ready.hash.bytes → sender ∈ readySenders before id ready.hash
  | _ => True

instance CheckedMessage.decidable (X : Externals) (before : BroadcastRun) (b : Broadcast) (source : String)
    (msg : RbcMessage) : Decidable (CheckedMessage X before b source msg) :=
  match msg with
  | .echo _ e => inferInstanceAs (Decidable (b.validateProof X e.proof = true))
  | .ready id ready => inferInstanceAs (Decidable (b.readySent.lookup id = some false →
      ∀ sender ∈ b.readys.keys, sender ≠ source → b.readys.lookup sender = some ready.hash.bytes →
        sender ∈ readySenders before id ready.hash))
  | .value _ _ | .canDecode _ _ | .complete _ | .reply _ => inferInstanceAs (Decidable True)

def Checked (X : Externals) (before : BroadcastRun) (t : Transition Broadcast Delivery BroadcastOut) : Prop :=
  CheckedMessage X before t.pre t.event.source t.event.msg

instance Checked.decidable (X : Externals) (before : BroadcastRun)
    (t : Transition Broadcast Delivery BroadcastOut) : Decidable (Checked X before t) :=
  CheckedMessage.decidable X before t.pre t.event.source t.event.msg

/-- What is hashed to check the proofs of a run. -/
def hashedInputs (X : Externals) (n : ℕ) (run : BroadcastRun) : List Bytes :=
  run.flatMap fun t ↦ match t.event.msg with
    | .echo _ e => e.proof.hashed X n
    | _ => []

theorem mem_hashedInputs {n : ℕ} {run : BroadcastRun} {t : Transition Broadcast Delivery BroadcastOut}
    {id : String} {proof : Proof} (ht : t ∈ run) (hmsg : t.event.msg = .echo id ⟨proof⟩) {bytes : Bytes}
    (h : bytes ∈ proof.hashed X n) : bytes ∈ hashedInputs X n run :=
  List.mem_flatMap.2 ⟨t, ht, by rwa [hmsg]⟩

/-! ## Runs -/

/-- The nodes that an instance is set up for: this one and the connected ones. -/
def knownNodes (X : Externals) (myId : String) (netinfo : Network) : List String :=
  myId :: (X.nodes.order netinfo.connectedNodes.entrySet).map Prod.snd

theorem lookup_initMap {ν : Type} (myId id : String) (netinfo : Network) (value : ν) :
    (Broadcast.initMap X myId netinfo value).lookup id =
      if id ∈ knownNodes X myId netinfo then some value else none := by
  have hfold (nodes : List (ℕ × String)) (m : HashMap String ν) :
      (nodes.foldl (fun initial node ↦ HashMap.insertNew initial node.2 value) m).lookup id =
        (m.lookup id).or (if id ∈ nodes.map Prod.snd then some value else none) := by
    induction nodes generalizing m with
    | nil => simp
    | cons node rest ih =>
      rw [List.foldl_cons, ih, HashMap.lookup_insertNew, Option.or_assoc, List.map_cons]
      by_cases hnode : node.2 = id
      · simp [hnode]
      · have hmem : id ∈ node.2 :: rest.map Prod.snd ↔ id ∈ rest.map Prod.snd := by
          simp [Ne.symm hnode]
        rw [if_neg hnode, Option.none_or, if_congr hmem rfl rfl]
  rw [Broadcast.initMap, hfold, knownNodes]
  by_cases hid : id = myId
  · subst hid
    rw [Finmap.lookup_insert, Option.some_or, if_pos List.mem_cons_self]
  · rw [Finmap.lookup_insert_of_ne _ hid, Finmap.lookup_empty, Option.none_or]
    exact if_congr (List.mem_cons.trans (or_iff_right hid)).symm rfl rfl

theorem eq_of_lookup_initMap {ν : Type} {myId id : String} {netinfo : Network} {value found : ν}
    (h : (Broadcast.initMap X myId netinfo value).lookup id = some found) : found = value := by
  rw [lookup_initMap, Option.ite_none_right_eq_some] at h
  exact (Option.some.inj h.2).symm

section Runs

variable {myId : String} {netinfo : Network} {peers : PeerSet} {run : BroadcastRun} {s : Broadcast}

/-- What a run leaves fixed, and where the stored proofs come from. -/
structure Recorded (peers : PeerSet) (f : ℕ) (run : BroadcastRun) (s : Broadcast) : Prop where
  peerSet : s.peerSet = peers
  faultEstimate : s.faultEstimate = f
  echoes : ∀ id proofs, s.echoSet.lookup id = some proofs → ∀ proof ∈ proofs,
    ∃ t ∈ run, t.event.msg = .echo id ⟨proof⟩

theorem recorded (hrun : IsRun (Broadcast.step X) (Broadcast.withPeers X myId netinfo peers) run s) :
    Recorded peers netinfo.faultNum run s := by
  induction hrun with
  | nil =>
    refine ⟨rfl, rfl, fun id proofs hlookup proof hproof ↦ ?_⟩
    rw [eq_of_lookup_initMap hlookup] at hproof
    cases hproof
  | @snoc run s s' event out previous taken ih =>
    have hstep := (Broadcast.step_cases taken).1
    refine ⟨hstep.frame.1.trans ih.peerSet, hstep.frame.2.trans ih.faultEstimate, ?_⟩
    intro id proofs hlookup proof hproof
    rcases hstep.stored hlookup hproof with ⟨before, hbefore, hmem⟩ | hmsg
    · obtain ⟨t, ht, hmsg⟩ := ih.echoes id before hbefore proof hmem
      exact ⟨t, List.mem_append_left _ ht, hmsg⟩
    · exact ⟨_, List.mem_append_right _ (List.mem_singleton_self _), hmsg⟩

/-- The proofs that are held come from Echoes that were checked. -/
theorem echoesValid_of_checked (hrun : IsRun (Broadcast.step X) (Broadcast.withPeers X myId netinfo peers) run s)
    (hchecked : ∀ before t after, run = before ++ t :: after → Checked X before t) : EchoesValid X s := by
  have hrecorded := recorded hrun
  intro id proofs hlookup proof hproof
  obtain ⟨t, ht, hmsg⟩ := hrecorded.echoes id proofs hlookup proof hproof
  obtain ⟨before, after, hsplit⟩ := List.append_of_mem ht
  have hvalid := hchecked before t after hsplit
  rw [Checked, hmsg] at hvalid
  rw [Broadcast.validateProof, hrecorded.peerSet, ← (recorded (hrun.before hsplit).1).peerSet]
  exact hvalid

/-- Valid proofs of one proposer and root hash have different indices. -/
theorem card_storedIndices {b : Broadcast} {id : String} {proofs : Finset Proof} {hash : Digest} {run : BroadcastRun}
    (hrecorded : Recorded peers netinfo.faultNum run b) (hvalid : EchoesValid X b)
    (hfree : X.NoCollision (hashedInputs X peers.num run)) (hlookup : b.echoSet.lookup id = some proofs) :
    (storedIndices b id hash).card = Broadcast.proofCount proofs hash := by
  rw [storedIndices, hlookup, Option.getD_some, Broadcast.proofCount]
  apply Finset.card_image_of_injOn
  intro proof hproof proof' hproof' hindex
  obtain ⟨hmem, hroot⟩ := Finset.mem_filter.1 (Finset.mem_coe.1 hproof)
  obtain ⟨hmem', hroot'⟩ := Finset.mem_filter.1 (Finset.mem_coe.1 hproof')
  have hchecks := hvalid id proofs hlookup proof hmem
  have hchecks' := hvalid id proofs hlookup proof' hmem'
  rw [Broadcast.validateProof, hrecorded.peerSet] at hchecks hchecks'
  obtain ⟨t, ht, hmsg⟩ := hrecorded.echoes id proofs hlookup proof hmem
  obtain ⟨t', ht', hmsg'⟩ := hrecorded.echoes id proofs hlookup proof' hmem'
  apply Proof.eq_of_validate hchecks hchecks' hindex (hroot.trans hroot'.symm)
  apply hfree.mono
  rintro bytes (hbytes | hbytes)
  · exact mem_hashedInputs ht hmsg hbytes
  · exact mem_hashedInputs ht' hmsg' hbytes

/-- The Readys that are counted for a root hash come from different nodes. -/
theorem readySenders_of_announces {before : BroadcastRun} {t : Transition Broadcast Delivery BroadcastOut}
    {id : String} {hash : Digest} {f : ℕ} (hfault : t.pre.faultEstimate = f)
    (hchecked : Checked X before t) (hmsg : t.event.msg = .ready id ⟨hash⟩)
    (hready : t.pre.readySent.lookup id = some false) (hannounce : t.pre.ReadyAnnounces t.event.source hash false) :
    f + 1 ≤ (readySenders (before ++ [t]) id hash).card := by
  rw [← hfault, ← hannounce.2]
  apply HashMap.count_le_card
  intro sender bytes hlookup hbytes
  obtain rfl : bytes = hash.bytes := beq_iff_eq.1 hbytes
  by_cases hsender : sender = t.event.source
  · exact mem_readySenders.2 ⟨t, List.mem_append_right _ (List.mem_singleton_self _), hmsg, hsender.symm⟩
  · rw [Finmap.lookup_insert_of_ne _ hsender] at hlookup
    rw [Checked, hmsg] at hchecked
    have hkey : sender ∈ t.pre.readys.keys := Finmap.mem_keys.2 (Finmap.mem_of_lookup_eq_some hlookup)
    obtain ⟨t', ht', hmsg', hsource'⟩ := mem_readySenders.1 (hchecked hready sender hkey hsender hlookup)
    exact mem_readySenders.2 ⟨t', List.mem_append_left _ ht', hmsg', hsource'⟩

/-- In a run whose Echoes validate and whose Readys are counted for their own proposer, only valid proofs
are held and every Ready that is sent is backed. -/
theorem readyBacked_of_checked (hrun : IsRun (Broadcast.step X) (Broadcast.withPeers X myId netinfo peers) run s)
    (hfree : X.NoCollision (hashedInputs X peers.num run))
    (hchecked : ∀ before t after, run = before ++ t :: after → Checked X before t) :
    EchoesValid X s ∧ ∀ before t after, run = before ++ t :: after →
      EchoesValid X t.post ∧ ReadyBacked netinfo.faultNum before t := by
  refine ⟨echoesValid_of_checked hrun hchecked, fun before t after hsplit ↦ ?_⟩
  obtain ⟨hbefore, htaken⟩ := hrun.before hsplit
  have hsplit' : run = (before ++ [t]) ++ after := by
    rw [hsplit, List.append_assoc, List.singleton_append]
  have hupto : IsRun (Broadcast.step X) _ (before ++ [t]) t.post := .snoc hbefore htaken
  have hvalid := echoesValid_of_checked hupto (forall_split_of_append hchecked hsplit')
  refine ⟨hvalid, fun id hash hout ↦ ?_⟩
  have hfault := (recorded hbefore).faultEstimate
  rcases (Broadcast.step_cases htaken).1.announces hout with ⟨proofs, hlookup, hcount⟩ | ⟨hmsg, hready, hannounce⟩
  · left
    have hfree' : X.NoCollision (hashedInputs X peers.num (before ++ [t])) := by
      apply hfree.mono
      intro bytes hbytes
      change bytes ∈ hashedInputs X peers.num run
      rw [hsplit', hashedInputs, List.flatMap_append]
      exact List.mem_append_left _ hbytes
    rw [card_storedIndices (recorded hupto) hvalid hfree' hlookup, hcount, hfault]
  · right
    exact readySenders_of_announces hfault (hchecked before t after hsplit) hmsg hready hannounce

end Runs

/-! ## Runs of four nodes -/

def fourNodes : Network :=
  (Network.new .transparent "a" true none none (some []) ["a", "b", "c", "d"]).get (by decide +kernel)

def fourPeers : PeerSet := ["a", "b", "c", "d"].foldl PeerSet.insert PeerSet.new

def shardTree : MerkleTree :=
  (MerkleTree.fromVec .transparent [[0, 0, 0, 2], [7, 9, 0, 0], [1, 1, 1, 1], [2, 2, 2, 2]]).get (by decide +kernel)

def shardProofs : List Proof := (List.range 4).filterMap shardTree.proof

def echoOf (proof : Proof) : Delivery := ⟨"b", .echo "a" ⟨proof⟩⟩

def readyFrom (id : String) (hash : Digest) (source : String) : Delivery := ⟨source, .ready id ⟨hash⟩⟩

/-- Echoes for one proposer and Readys for another. -/
def checkedEvents : List Delivery :=
  (shardProofs.take 3).map echoOf ++ ["c", "d"].map (readyFrom "b" (Digest.ofNat 5))

def checkedRun : BroadcastRun :=
  transitions (Broadcast.step .transparent) (Broadcast.withPeers .transparent "a" fourNodes fourPeers) checkedEvents

theorem isRun_checkedRun :
    IsRun (Broadcast.step .transparent) (Broadcast.withPeers .transparent "a" fourNodes fourPeers) checkedRun
      (final (Broadcast.step .transparent) (Broadcast.withPeers .transparent "a" fourNodes fourPeers) checkedEvents) :=
  IsRun.of_isSome (by decide +kernel)

theorem readyBacked_of_checked_bothKinds :
    checkedRun.map (fun t ↦ t.out.1.length) = [0, 0, 1, 0, 1] ∧
      ∀ before t after, checkedRun = before ++ t :: after →
        EchoesValid .transparent t.post ∧ ReadyBacked fourNodes.faultNum before t :=
  ⟨by decide +kernel, (readyBacked_of_checked isRun_checkedRun (by decide +kernel)
    (forall_split_of_forall (by decide +kernel))).2⟩

/-- A proof that is not one of any tree. -/
def forgedProof (byte : UInt8) : Proof := ⟨[byte], 0, [], Digest.ofNat 5⟩

def forgedRun : BroadcastRun :=
  transitions (Broadcast.step .transparent) (Broadcast.withPeers .transparent "a" fourNodes fourPeers)
    ([1, 2, 3].map fun byte ↦ echoOf (forgedProof byte))

theorem two_lt_length_forgedRun : 2 < forgedRun.length := by decide +kernel

/-- Readys for two proposers with one root hash. -/
def mixedRun : BroadcastRun :=
  transitions (Broadcast.step .transparent) (Broadcast.withPeers .transparent "a" fourNodes fourPeers)
    [readyFrom "b" (Digest.ofNat 5) "c", readyFrom "a" (Digest.ofNat 5) "d"]

theorem one_lt_length_mixedRun : 1 < mixedRun.length := by decide +kernel

/-- Three forged Echoes with one index are stored and lead to a Ready, and so do two Readys that are not for
one proposer. -/
theorem not_readyBacked_of_forged :
    (¬ ∀ t ∈ forgedRun, EchoesValid .transparent t.post) ∧
      (¬ ∀ before t after, forgedRun = before ++ t :: after → ReadyBacked fourNodes.faultNum before t) ∧
      ¬ ∀ before t after, mixedRun = before ++ t :: after → ReadyBacked fourNodes.faultNum before t := by
  refine ⟨fun h ↦ ?_, fun h ↦ ?_, fun h ↦ ?_⟩
  · have hstored := h _ (List.get_mem forgedRun ⟨2, two_lt_length_forgedRun⟩) "a"
      ([1, 2, 3].map forgedProof).toFinset (by decide +kernel) (forgedProof 1) (by decide +kernel)
    exact absurd hstored (by decide +kernel)
  · have hbacked := h _ _ _ (eq_take_append_cons_drop forgedRun 2 two_lt_length_forgedRun) "a" (Digest.ofNat 5)
      (by decide +kernel)
    exact absurd hbacked (by decide +kernel)
  · have hbacked := h _ _ _ (eq_take_append_cons_drop mixedRun 1 one_lt_length_mixedRun) "a" (Digest.ofNat 5)
      (by decide +kernel)
    exact absurd hbacked (by decide +kernel)

end BFTDiagnosis.Honeybadger
