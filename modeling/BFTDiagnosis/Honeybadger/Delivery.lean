import BFTDiagnosis.Honeybadger.Decoding

/-!
# Delivery and the order of messages

The value is restored at the Ready that completes a quorum, if enough Echoes have come before it, and at no
other message. So with enough Echoes and Readys the order of the messages decides: after all Readys the
Echoes come too late.
-/

namespace BFTDiagnosis.Honeybadger

variable {X : Externals}

/-! ## Messages for one root hash -/

def echoedProof (delivery : Delivery) : Option Proof :=
  match delivery.msg with
  | .echo _ e => some e.proof
  | _ => none

def readyNode (delivery : Delivery) : Option String :=
  match delivery.msg with
  | .ready _ _ => some delivery.source
  | _ => none

def echoedProofs (messages : List Delivery) : List Proof := messages.filterMap echoedProof

def readyNodes (messages : List Delivery) : List String := messages.filterMap readyNode

section Lists

variable (source id : String) (e : Echo) (ready : Ready) (rest : List Delivery)

@[simp] theorem echoedProofs_nil : echoedProofs [] = [] := rfl

@[simp] theorem readyNodes_nil : readyNodes [] = [] := rfl

@[simp] theorem echoedProofs_cons_echo :
    echoedProofs (⟨source, .echo id e⟩ :: rest) = e.proof :: echoedProofs rest := rfl

@[simp] theorem readyNodes_cons_echo : readyNodes (⟨source, .echo id e⟩ :: rest) = readyNodes rest := rfl

@[simp] theorem echoedProofs_cons_ready :
    echoedProofs (⟨source, .ready id ready⟩ :: rest) = echoedProofs rest := rfl

@[simp] theorem readyNodes_cons_ready :
    readyNodes (⟨source, .ready id ready⟩ :: rest) = source :: readyNodes rest := rfl

theorem echoedProofs_cons_of_none {delivery : Delivery} (h : echoedProof delivery = none) :
    echoedProofs (delivery :: rest) = echoedProofs rest := List.filterMap_cons_none h

theorem readyNodes_cons_of_none {delivery : Delivery} (h : readyNode delivery = none) :
    readyNodes (delivery :: rest) = readyNodes rest := List.filterMap_cons_none h

@[simp] theorem echoedProofs_append (messages messages' : List Delivery) :
    echoedProofs (messages ++ messages') = echoedProofs messages ++ echoedProofs messages' :=
  List.filterMap_append

@[simp] theorem readyNodes_append (messages messages' : List Delivery) :
    readyNodes (messages ++ messages') = readyNodes messages ++ readyNodes messages' :=
  List.filterMap_append

end Lists

/-- Echoes of a proposer that validate, one for each index, and Readys, one from each node, all for one
root hash. -/
structure OneRoot (X : Externals) (n : ℕ) (id : String) (root : Digest) (messages : List Delivery) : Prop where
  kinds : ∀ delivery ∈ messages,
    (∃ proof, delivery.msg = .echo id ⟨proof⟩ ∧ proof.rootHash = root ∧ proof.validate X n = true) ∨
      delivery.msg = .ready id ⟨root⟩
  indices : ((echoedProofs messages).map Proof.index).Nodup
  nodes : (readyNodes messages).Nodup

namespace OneRoot

variable {n : ℕ} {id : String} {root : Digest} {messages messages' : List Delivery}

theorem perm (h : OneRoot X n id root messages) (hperm : messages.Perm messages') :
    OneRoot X n id root messages' where
  kinds delivery hdelivery := h.kinds delivery (hperm.mem_iff.2 hdelivery)
  indices := ((hperm.filterMap echoedProof).map Proof.index).nodup_iff.1 h.indices
  nodes := (hperm.filterMap readyNode).nodup_iff.1 h.nodes

theorem rootHash_of_mem (h : OneRoot X n id root messages) {proof : Proof} (hproof : proof ∈ echoedProofs messages) :
    proof.rootHash = root := by
  obtain ⟨delivery, hdelivery, hechoed⟩ := List.mem_filterMap.1 hproof
  rcases h.kinds delivery hdelivery with ⟨proof', hmsg, hroot, -⟩ | hmsg
  · rw [echoedProof, hmsg] at hechoed
    rw [← Option.some.inj hechoed]
    exact hroot
  · rw [echoedProof, hmsg] at hechoed
    cases hechoed

theorem of_append {rest : List Delivery} (h : OneRoot X n id root (messages ++ rest)) :
    OneRoot X n id root messages where
  kinds delivery hdelivery := h.kinds delivery (List.mem_append_left _ hdelivery)
  indices := by
    have hindices := h.indices
    rw [echoedProofs, List.filterMap_append, List.map_append] at hindices
    exact (List.nodup_append.1 hindices).1
  nodes := by
    have hnodes := h.nodes
    rw [readyNodes, List.filterMap_append] at hnodes
    exact (List.nodup_append.1 hnodes).1

end OneRoot

/-! ## Restoring the value -/

/-- The leaves that are used are the values of the proofs, in some order. -/
theorem exists_leafValues {proofs : List Proof} {root : Digest} (hindices : (proofs.map Proof.index).Nodup)
    (hroot : ∀ proof ∈ proofs, proof.rootHash = root) :
    ∃ pieces : List Bytes, Broadcast.leafValues X proofs.toFinset root = pieces.map some ∧
      pieces.Perm (proofs.map Proof.value) := by
  have hfilter : proofs.toFinset.filter (fun proof ↦ proof.rootHash = root) = proofs.toFinset :=
    Finset.filter_true_of_mem fun proof hproof ↦ hroot proof (List.mem_toFinset.1 hproof)
  obtain ⟨found, hfound, -, hleaves⟩ := exists_found X fun proof hproof proof' hproof' hindex ↦ by
    rw [hfilter, Finset.mem_coe, List.mem_toFinset] at hproof hproof'
    exact List.inj_on_of_nodup_map hindices hproof hproof' hindex
  rw [hfilter, List.toFinset_val, (List.Nodup.of_map _ hindices).dedup, Multiset.coe_eq_coe] at hfound
  exact ⟨found.map Proof.value, by rw [hleaves, List.map_map]; rfl, hfound.map Proof.value⟩

/-- The value, if the proofs are all there is. -/
def restore (X : Externals) (b : Broadcast) (root : Digest) (proofs : List Proof) : Option (Option Bytes) :=
  b.decodeFromShards X (Broadcast.leafValues X proofs.toFinset root)

theorem decodeFromShards_complete (hpieces : X.ChecksPieces) {b : Broadcast} (hcoding : b.coding = .new 2 2)
    (pieces : List Bytes) : b.decodeFromShards X (pieces.map some) =
      if pieces.length = 2 + 2 ∧ SameSize pieces then some (readPayload (pieces.take 2).flatten) else none := by
  have hreconstruct : b.coding.reconstructShards X (pieces.map some) =
      if pieces.length = 2 + 2 ∧ SameSize pieces then some (pieces.map some) else none := by
    rw [hcoding]
    exact hpieces 2 2 pieces
  have hcount : b.coding.dataShardCount = 2 := by rw [hcoding]; rfl
  split
  case isTrue h =>
    rw [if_pos h] at hreconstruct
    have hne : pieces ≠ [] := List.ne_nil_of_length_pos (by omega)
    rw [decodeFromShards_of_reconstruct hreconstruct hne, hcount]
  case isFalse h =>
    rw [if_neg h] at hreconstruct
    rw [Broadcast.decodeFromShards, hreconstruct]
    rfl

/-- Two shards of a size that four of them have hold no length exactly if that size is one byte. -/
theorem length_flatten_take_lt_iff {pieces : List Bytes} (hlength : pieces.length = 2 + 2) (hsize : SameSize pieces) :
    (pieces.take 2).flatten.length < 4 ↔ ∀ piece ∈ pieces, piece.length = 1 := by
  match pieces, hlength with
  | [p0, p1, p2, p3], _ =>
    have hp0 := hsize p0 (by simp)
    have hpos : 0 < p0.length := List.length_pos_iff.2 hp0.1
    have h1 := hp0.2 p1 (by simp)
    have h2 := hp0.2 p2 (by simp)
    have h3 := hp0.2 p3 (by simp)
    simp only [List.take, List.flatten_cons, List.flatten_nil, List.append_nil, List.length_append, List.mem_cons,
      List.not_mem_nil, or_false, forall_eq_or_imp, forall_eq]
    omega

/-- Restoring neither fails nor gives a value exactly for four shards of one byte. -/
theorem restore_eq_some_none_iff (hpieces : X.ChecksPieces) {b : Broadcast} (hcoding : b.coding = .new 2 2)
    {root : Digest} {proofs : List Proof} (hindices : (proofs.map Proof.index).Nodup)
    (hroot : ∀ proof ∈ proofs, proof.rootHash = root) :
    restore X b root proofs = some none ↔
      proofs.length = 4 ∧ ∀ proof ∈ proofs, proof.value.length = 1 := by
  obtain ⟨pieces, hleaves, hperm⟩ := exists_leafValues (X := X) hindices hroot
  have hlength : pieces.length = proofs.length := by rw [hperm.length_eq, List.length_map]
  have hones : (∀ proof ∈ proofs, proof.value.length = 1) ↔ ∀ piece ∈ pieces, piece.length = 1 := by
    simp only [hperm.mem_iff, List.mem_map, forall_exists_index, and_imp, forall_apply_eq_imp_iff₂]
  rw [restore, hleaves, decodeFromShards_complete hpieces hcoding, Option.ite_none_right_eq_some,
    Option.some.injEq, readPayload_eq_none_iff, hones, ← hlength]
  constructor
  · rintro ⟨⟨hfour, hsize⟩, hshort⟩
    exact ⟨hfour, (length_flatten_take_lt_iff hfour hsize).1 hshort⟩
  · rintro ⟨hfour, hone⟩
    have hsize : SameSize pieces := fun piece hpiece ↦
      ⟨fun hnil ↦ by simpa [hnil] using hone piece hpiece,
        fun other hother ↦ (hone piece hpiece).trans (hone other hother).symm⟩
    exact ⟨⟨hfour, hsize⟩, (length_flatten_take_lt_iff hfour hsize).2 hone⟩

/-! ## Counting

What an instance does with messages for one root hash, in terms of the proofs and the number of Readys so
far. -/

structure Tally where
  proofs : List Proof
  readys : ℕ
  result : Bool × Bytes

/-- The value is restored at the Ready that comes after twice as many Readys as there may be faults. -/
def Tally.next (f : ℕ) (restored : List Proof → Option (Option Bytes)) (tally : Tally) (delivery : Delivery) :
    Option Tally :=
  match delivery.msg with
  | .echo _ e => some { tally with proofs := tally.proofs ++ [e.proof] }
  | .ready _ _ =>
    if tally.readys = 2 * f ∧ f + 1 ≤ tally.proofs.length then
      (restored tally.proofs).map fun value ↦
        { tally with
          readys := tally.readys + 1
          result := match value with
            | some value => (true, value)
            | none => tally.result }
    else some { tally with readys := tally.readys + 1 }
  | _ => some tally

section Counting

variable {f : ℕ} {restored : List Proof → Option (Option Bytes)}

/-- A Ready at which the value would be restored, with nothing to show for it. -/
def Silent (f : ℕ) (restored : List Proof → Option (Option Bytes)) (tally : Tally) (messages : List Delivery) :
    Prop :=
  ∀ before delivery after, messages = before ++ delivery :: after → (readyNode delivery).isSome = true →
    tally.readys + (readyNodes before).length = 2 * f →
      f + 1 ≤ (tally.proofs ++ echoedProofs before).length →
        restored (tally.proofs ++ echoedProofs before) = some none

/-- Messages at none of which anything is restored are only counted. -/
theorem foldlM_next_of_silent {messages : List Delivery} {tally : Tally} (h : Silent f restored tally messages) :
    messages.foldlM (Tally.next f restored) tally = some ⟨tally.proofs ++ echoedProofs messages,
      tally.readys + (readyNodes messages).length, tally.result⟩ := by
  induction messages generalizing tally with
  | nil => simp
  | cons delivery rest ih =>
    have hlater (before : List Delivery) (delivery' : Delivery) (after : List Delivery)
        (hsplit : rest = before ++ delivery' :: after) :=
      h (delivery :: before) delivery' after (by rw [hsplit, List.cons_append])
    obtain ⟨source, msg⟩ := delivery
    rw [List.foldlM_cons]
    cases msg with
    | echo id e =>
      have hrest : Silent f restored { tally with proofs := tally.proofs ++ [e.proof] } rest := by
        intro before delivery' after hsplit hready hreadys hlength
        rw [List.append_assoc, List.singleton_append] at hlength ⊢
        exact hlater before delivery' after hsplit hready hreadys hlength
      simp [Tally.next, ih hrest]
    | ready id ready =>
      have hrest : Silent f restored { tally with readys := tally.readys + 1 } rest := by
        intro before delivery' after hsplit hready hreadys hlength
        refine hlater before delivery' after hsplit hready ?_ hlength
        rw [readyNodes_cons_ready, List.length_cons]
        simp only at hreadys
        omega
      have hnext : tally.next f restored ⟨source, .ready id ready⟩ =
          some { tally with readys := tally.readys + 1 } := by
        simp only [Tally.next]
        split
        case isTrue hat =>
          have hnone := h [] ⟨source, .ready id ready⟩ rest rfl rfl (by simpa using hat.1) (by simpa using hat.2)
          rw [echoedProofs_nil, List.append_nil] at hnone
          rw [hnone]
          rfl
        case isFalse => rfl
      rw [hnext]
      simp [ih hrest, Nat.add_assoc, Nat.add_comm 1]
    | value | canDecode | complete | reply =>
      rw [echoedProofs_cons_of_none rest rfl, readyNodes_cons_of_none rest rfl]
      exact ih fun before delivery' after hsplit ↦ hlater before delivery' after hsplit

/-- Nothing is decided when the decisive Ready is missing or comes too early. -/
theorem verdict_of_silent {messages : List Delivery} (h : Silent f restored ⟨[], 0, (false, [])⟩ messages) :
    (messages.foldlM (Tally.next f restored) ⟨[], 0, (false, [])⟩).map Tally.result = some (false, []) := by
  rw [foldlM_next_of_silent h]
  rfl

/-- When restoring fails or gives a value at the decisive Ready, the result is not that of an instance that
is undecided. -/
theorem verdict_ne_of_restored {before after : List Delivery} {delivery : Delivery}
    (hready : (readyNode delivery).isSome = true) (hreadys : (readyNodes before).length = 2 * f)
    (hlength : f + 1 ≤ (echoedProofs before).length) (hrestored : restored (echoedProofs before) ≠ some none) :
    ((before ++ delivery :: after).foldlM (Tally.next f restored) ⟨[], 0, (false, [])⟩).map Tally.result ≠
      some (false, []) := by
  have hbefore : Silent f restored ⟨[], 0, (false, [])⟩ before := by
    intro first delivery' second hsplit hready' hcount
    have htotal : (readyNodes before).length = (readyNodes first).length + 1 + (readyNodes second).length := by
      obtain ⟨node, hnode⟩ := Option.isSome_iff_exists.1 hready'
      have hsecond : readyNodes (delivery' :: second) = node :: readyNodes second := List.filterMap_cons_some hnode
      rw [hsplit, readyNodes_append, hsecond, List.length_append, List.length_cons]
      omega
    simp only [Nat.zero_add] at hcount
    omega
  rw [List.foldlM_append, foldlM_next_of_silent hbefore]
  simp only [List.nil_append, Nat.zero_add, hreadys, bind, Option.bind_some, List.foldlM_cons]
  obtain ⟨source, msg⟩ := delivery
  cases msg with
  | ready id ready =>
    have hnext : Tally.next f restored ⟨echoedProofs before, 2 * f, (false, [])⟩ ⟨source, .ready id ready⟩ =
        (restored (echoedProofs before)).map fun value ↦ ⟨echoedProofs before, 2 * f + 1,
          match value with
          | some value => (true, value)
          | none => (false, [])⟩ := if_pos ⟨rfl, hlength⟩
    rw [hnext]
    match hvalue : restored (echoedProofs before) with
    | none => simp
    | some none => exact absurd hvalue hrestored
    | some (some value) =>
      -- no later Ready is the decisive one
      have hafter : Silent f restored ⟨echoedProofs before, 2 * f + 1, (true, value)⟩ after := by
        intro first delivery' second _ _ hcount
        simp only at hcount
        omega
      simp [foldlM_next_of_silent hafter]
  | value | echo | canDecode | complete | reply => cases hready

end Counting

/-! ## An instance counts -/

/-- Whether an instance has decided after handling the messages, and its value; `none` if it panics. -/
def outcome (X : Externals) (b : Broadcast) (messages : List Delivery) : Option (Bool × Bytes) :=
  (messages.foldlM (fun (b : Broadcast) delivery ↦ (b.step X delivery).map Prod.fst) b).map
    fun b ↦ (b.decided, b.output)

section Simulation

variable {b₀ b : Broadcast} {id : String} {root : Digest} {n f : ℕ} {done : List Delivery} {tally : Tally}
  {delivery : Delivery}

/-- An instance that has handled messages for one root hash, and the tally of them. -/
structure Counted (b₀ : Broadcast) (id : String) (root : Digest) (f : ℕ) (done : List Delivery) (b : Broadcast)
    (tally : Tally) : Prop where
  proofs : tally.proofs = echoedProofs done
  readys : tally.readys = (readyNodes done).length
  result : tally.result = (b.decided, b.output)
  stored : b.echoSet.lookup id = some (echoedProofs done).toFinset
  known : (b.readySent.lookup id).isSome = true
  senders : ∀ source ∈ b.readys, source ∈ readyNodes done
  count : b.readys.count (fun h ↦ h == root.bytes) = (readyNodes done).length
  canDecode : root ∈ b.canDecode ↔ f + 1 ≤ (echoedProofs done).length
  fault : b.faultEstimate = f
  coding : b.coding = b₀.coding

/-- The proofs of messages for one root hash are different and all have it. -/
theorem proofCount_toFinset {messages : List Delivery} (h : OneRoot X n id root messages) :
    Broadcast.proofCount (echoedProofs messages).toFinset root = (echoedProofs messages).length := by
  rw [Broadcast.proofCount, Finset.filter_true_of_mem fun proof hproof ↦
    h.rootHash_of_mem (List.mem_toFinset.1 hproof)]
  exact List.toFinset_card_of_nodup (List.Nodup.of_map _ h.indices)

theorem Counted.echo (h : Counted b₀ id root f done b tally) {proof : Proof}
    (hmsg : delivery.msg = .echo id ⟨proof⟩) (hroot : proof.rootHash = root)
    (hmessages : OneRoot X n id root (done ++ [delivery])) (restored : List Proof → Option (Option Bytes)) :
    ∃ b' tally', (b.step X delivery).map Prod.fst = some b' ∧ tally.next f restored delivery = some tally' ∧
      Counted b₀ id root f (done ++ [delivery]) b' tally' := by
  obtain ⟨source, msg⟩ := delivery
  obtain rfl : msg = .echo id ⟨proof⟩ := hmsg
  obtain ⟨sent, hsent⟩ := Option.isSome_iff_exists.1 h.known
  have hproofs : (echoedProofs (done ++ [⟨source, .echo id ⟨proof⟩⟩])).toFinset =
      insert proof (echoedProofs done).toFinset := by
    rw [echoedProofs_append, echoedProofs_cons_echo, echoedProofs_nil]
    ext other
    simp
  have hcount := proofCount_toFinset hmessages
  rw [hproofs] at hcount
  have hlength : (echoedProofs (done ++ [⟨source, .echo id ⟨proof⟩⟩])).length = (echoedProofs done).length + 1 := by
    rw [echoedProofs_append, echoedProofs_cons_echo, echoedProofs_nil, List.length_append, List.length_singleton]
  refine ⟨b.afterEcho id proof (echoedProofs done).toFinset sent, _, ?_, rfl, ?_⟩
  · rw [Broadcast.step, Broadcast.handleMessage, Broadcast.handleEcho_eq h.stored hsent]
    rfl
  · constructor
    case proofs => simp [h.proofs]
    case readys => simp [h.readys]
    case result => exact h.result
    case stored =>
      rw [hproofs]
      exact Finmap.lookup_insert b.echoSet
    case known =>
      simp only [Broadcast.afterEcho]
      split
      · rw [Finmap.lookup_insert, Option.isSome_some]
      · exact h.known
    case senders =>
      intro source' hsource'
      rw [readyNodes_append]
      exact List.mem_append_left _ (h.senders source' hsource')
    case count =>
      rw [readyNodes_append, readyNodes_cons_echo, readyNodes_nil, List.append_nil]
      exact h.count
    case canDecode =>
      simp only [Broadcast.afterEcho, hroot, hcount, hlength, h.fault]
      split
      case isTrue hfirst =>
        simp only [Finset.mem_insert_self, true_iff]
        omega
      case isFalse hnot =>
        rw [h.canDecode]
        omega
    case fault => exact h.fault
    case coding => exact h.coding

/-- Only the coding of the instance matters for decoding. -/
theorem decodeFromShards_congr (h : b.coding = b₀.coding) (leafValues : List (Option Bytes)) :
    b.decodeFromShards X leafValues = b₀.decodeFromShards X leafValues := by
  rw [Broadcast.decodeFromShards, Broadcast.decodeFromShards, h]

/-- The node of a Ready has not sent one before, so it is one more that is counted. -/
theorem Counted.count_ready (h : Counted b₀ id root f done b tally) {source : String}
    (hmessages : OneRoot X n id root (done ++ [⟨source, .ready id ⟨root⟩⟩])) :
    (b.readys.insert source root.bytes).count (fun h ↦ h == root.bytes) = (readyNodes done).length + 1 := by
  have hnodes := hmessages.nodes
  rw [readyNodes_append, readyNodes_cons_ready, readyNodes_nil] at hnodes
  have hnew : source ∉ b.readys := fun hold ↦
    List.disjoint_of_nodup_append hnodes (h.senders source hold) (List.mem_singleton_self _)
  have hone := HashMap.count_insert_of_notMem (fun h ↦ h == root.bytes) hnew (beq_self_eq_true root.bytes)
  rw [hone, h.count]

/-- Whatever becomes of the value, a Ready has been counted. -/
theorem Counted.afterReady (h : Counted b₀ id root f done b tally) {source : String} (sent : Bool)
    (hmessages : OneRoot X n id root (done ++ [⟨source, .ready id ⟨root⟩⟩])) (decided : Bool) (value : Bytes) :
    Counted b₀ id root f (done ++ [⟨source, .ready id ⟨root⟩⟩])
      { b.afterReady id source root sent with decided := decided, output := value }
      { tally with readys := tally.readys + 1, result := (decided, value) } := by
  have hnodes : readyNodes (done ++ [⟨source, .ready id ⟨root⟩⟩]) = readyNodes done ++ [source] :=
    readyNodes_append _ _
  have hproofs : echoedProofs (done ++ [⟨source, .ready id ⟨root⟩⟩]) = echoedProofs done := by
    rw [echoedProofs_append, echoedProofs_cons_ready, echoedProofs_nil, List.append_nil]
  constructor
  case proofs => rw [hproofs, h.proofs]
  case readys => rw [hnodes, List.length_append, List.length_singleton, h.readys]
  case result => rfl
  case stored =>
    rw [hproofs]
    exact h.stored
  case known =>
    simp only [Broadcast.afterReady]
    split
    · rw [Finmap.lookup_insert, Option.isSome_some]
    · exact h.known
  case senders =>
    intro source' hsource'
    rw [hnodes, List.mem_append, List.mem_singleton]
    rcases Finmap.mem_insert.1 hsource' with rfl | hold
    · exact .inr rfl
    · exact .inl (h.senders source' hold)
  case count =>
    rw [hnodes, List.length_append, List.length_singleton]
    exact h.count_ready hmessages
  case canDecode =>
    rw [hproofs]
    exact h.canDecode
  case fault => exact h.fault
  case coding => exact h.coding

/-- What is restored depends on the counted proofs only. -/
theorem Counted.outputValue (h : Counted b₀ id root f done b tally) (source : String) (sent : Bool) :
    (b.afterReady id source root sent).outputValue X id root =
      (restore X b₀ root tally.proofs).map fun value ↦ match value with
        | some value => { b.afterReady id source root sent with decided := true, output := value }
        | none => b.afterReady id source root sent := by
  have hstored : (b.afterReady id source root sent).echoSet.lookup id = some (echoedProofs done).toFinset := h.stored
  have hdecode : (b.afterReady id source root sent).decodeFromShards X = b₀.decodeFromShards X :=
    funext (decodeFromShards_congr h.coding)
  simp only [Broadcast.outputValue, hstored, hdecode, bind, pure, Option.bind_some, restore, h.proofs]
  cases b₀.decodeFromShards X (Broadcast.leafValues X (echoedProofs done).toFinset root) with
  | none => rfl
  | some value => cases value <;> rfl

theorem Counted.ready (h : Counted b₀ id root f done b tally) (hmsg : delivery.msg = .ready id ⟨root⟩)
    (hmessages : OneRoot X n id root (done ++ [delivery])) :
    (b.step X delivery).map Prod.fst = none ∧ tally.next f (restore X b₀ root) delivery = none ∨
    ∃ b' tally', (b.step X delivery).map Prod.fst = some b' ∧
      tally.next f (restore X b₀ root) delivery = some tally' ∧
        Counted b₀ id root f (done ++ [delivery]) b' tally' := by
  obtain ⟨source, msg⟩ := delivery
  obtain rfl : msg = .ready id ⟨root⟩ := hmsg
  obtain ⟨sent, hsent⟩ := Option.isSome_iff_exists.1 h.known
  have hstep : (b.step X ⟨source, .ready id ⟨root⟩⟩).map Prod.fst =
      if b.ReadyDelivers source root then (b.afterReady id source root sent).outputValue X id root
      else some (b.afterReady id source root sent) := by
    rw [Broadcast.step, Broadcast.handleMessage, Broadcast.handleReady_eq X hsent]
    simp only [bind, pure, Option.map_bind, Option.bind_map, Function.comp_def, Option.map_some,
      Option.bind_fun_some]
  have hdelivers : b.ReadyDelivers source root ↔ tally.readys = 2 * f ∧ f + 1 ≤ tally.proofs.length := by
    rw [Broadcast.ReadyDelivers, h.count_ready hmessages, h.fault, h.canDecode, h.readys, h.proofs]
    omega
  have hsame := h.afterReady sent hmessages b.decided b.output
  rw [hstep]
  by_cases hat : tally.readys = 2 * f ∧ f + 1 ≤ tally.proofs.length
  · have hnext : tally.next f (restore X b₀ root) ⟨source, .ready id ⟨root⟩⟩ =
        (restore X b₀ root tally.proofs).map fun value ↦ { tally with
          readys := tally.readys + 1
          result := match value with
            | some value => (true, value)
            | none => tally.result } := if_pos hat
    rw [if_pos (hdelivers.2 hat), h.outputValue, hnext]
    cases restore X b₀ root tally.proofs with
    | none => exact .inl ⟨rfl, rfl⟩
    | some restored =>
      refine .inr ⟨_, _, rfl, rfl, ?_⟩
      cases restored with
      | none =>
        rw [h.result]
        exact hsame
      | some value => exact h.afterReady sent hmessages true value
  · right
    rw [if_neg (mt hdelivers.1 hat)]
    refine ⟨_, _, rfl, if_neg hat, ?_⟩
    rw [← h.result] at hsame
    exact hsame

/-- An instance that knows the proposer comes to the result of the tally. -/
theorem Counted.outcome {rest : List Delivery} (h : Counted b₀ id root f done b tally)
    (hmessages : OneRoot X n id root (done ++ rest)) :
    outcome X b rest = (rest.foldlM (Tally.next f (restore X b₀ root)) tally).map Tally.result := by
  induction rest generalizing done b tally with
  | nil => exact congrArg some h.result.symm
  | cons delivery rest ih =>
    have hsplit : done ++ delivery :: rest = (done ++ [delivery]) ++ rest := by
      rw [List.append_assoc, List.singleton_append]
    have hupto : OneRoot X n id root (done ++ [delivery]) := (hsplit ▸ hmessages).of_append
    have hstep : ((b.step X delivery).map Prod.fst = none ∧ tally.next f (restore X b₀ root) delivery = none) ∨
        ∃ b' tally', (b.step X delivery).map Prod.fst = some b' ∧
          tally.next f (restore X b₀ root) delivery = some tally' ∧
            Counted b₀ id root f (done ++ [delivery]) b' tally' := by
      rcases hmessages.kinds delivery (List.mem_append_right _ List.mem_cons_self) with ⟨proof, hmsg, hroot, -⟩ | hmsg
      · exact .inr (h.echo hmsg hroot hupto _)
      · exact h.ready hmsg hupto
    rw [Honeybadger.outcome, List.foldlM_cons, List.foldlM_cons]
    rcases hstep with ⟨hnone, hnone'⟩ | ⟨b', tally', hsome, hsome', hcounted⟩
    · rw [hnone, hnone']
      rfl
    · rw [hsome, hsome']
      exact ih hcounted (hsplit ▸ hmessages)

end Simulation

/-! ## Every order -/

section Orders

variable {myId id : String} {netinfo : Network} {peers : PeerSet} {root : Digest} {messages : List Delivery}

theorem counted_new (hknown : id ∈ knownNodes X myId netinfo) :
    Counted (Broadcast.withPeers X myId netinfo peers) id root netinfo.faultNum []
      (Broadcast.withPeers X myId netinfo peers) ⟨[], 0, (false, [])⟩ where
  proofs := rfl
  readys := rfl
  result := rfl
  stored := (lookup_initMap myId id netinfo ∅).trans (if_pos hknown)
  known := by
    rw [show (Broadcast.withPeers X myId netinfo peers).readySent.lookup id = _ from
      lookup_initMap myId id netinfo false, if_pos hknown, Option.isSome_some]
  senders source hsource := absurd hsource Finmap.notMem_empty
  count := rfl
  canDecode := by simp [Broadcast.withPeers, Broadcast.new]
  fault := rfl
  coding := rfl

/-- What messages for one root hash come to, in any order. -/
theorem outcome_eq (hknown : id ∈ knownNodes X myId netinfo) {n : ℕ} (h : OneRoot X n id root messages) :
    outcome X (Broadcast.withPeers X myId netinfo peers) messages =
      (messages.foldlM (Tally.next netinfo.faultNum (restore X (Broadcast.withPeers X myId netinfo peers) root))
        ⟨[], 0, (false, [])⟩).map Tally.result :=
  (counted_new hknown).outcome (by rwa [List.nil_append])

/-- An instance that does not know the proposer panics at the first message. -/
theorem outcome_of_unknown (hunknown : id ∉ knownNodes X myId netinfo) {n : ℕ} (h : OneRoot X n id root messages)
    (hne : messages ≠ []) : outcome X (Broadcast.withPeers X myId netinfo peers) messages = none := by
  obtain ⟨⟨source, msg⟩, rest, rfl⟩ := List.exists_cons_of_ne_nil hne
  have hstored : (Broadcast.withPeers X myId netinfo peers).echoSet.lookup id = none :=
    (lookup_initMap myId id netinfo ∅).trans (if_neg hunknown)
  have hsent : (Broadcast.withPeers X myId netinfo peers).readySent.lookup id = none :=
    (lookup_initMap myId id netinfo false).trans (if_neg hunknown)
  rw [outcome, List.foldlM_cons]
  rcases h.kinds _ List.mem_cons_self with ⟨proof, hmsg, -, -⟩ | hmsg
  · obtain rfl : msg = .echo id ⟨proof⟩ := hmsg
    simp [Broadcast.step, Broadcast.handleMessage, Broadcast.handleEcho, hstored]
  · obtain rfl : msg = .ready id ⟨root⟩ := hmsg
    simp [Broadcast.step, Broadcast.handleMessage, Broadcast.handleReady, hsent]

variable {f : ℕ} {restored : List Proof → Option (Option Bytes)}

/-- Too few messages of one kind never come to a decision. -/
theorem silent_of_few (h : (readyNodes messages).length ≤ 2 * f ∨ (echoedProofs messages).length ≤ f) :
    Silent f restored ⟨[], 0, (false, [])⟩ messages := by
  intro before delivery after hsplit hready hreadys hlength
  obtain ⟨node, hnode⟩ := Option.isSome_iff_exists.1 hready
  have hnodes : readyNodes (delivery :: after) = node :: readyNodes after := List.filterMap_cons_some hnode
  have htotal : (readyNodes messages).length = (readyNodes before).length + (readyNodes after).length + 1 := by
    rw [hsplit, readyNodes_append, hnodes, List.length_append, List.length_cons, Nat.add_assoc]
  have hechoes : (echoedProofs before).length ≤ (echoedProofs messages).length := by
    rw [hsplit, echoedProofs_append, List.length_append]
    exact Nat.le_add_right _ _
  simp only [Nat.zero_add, List.nil_append] at hreadys hlength
  omega

/-- When all proofs are needed, only restoring all of them matters. -/
theorem silent_of_exact (hlength : (echoedProofs messages).length = f + 1)
    (hall : restored (echoedProofs messages) = some none) : Silent f restored ⟨[], 0, (false, [])⟩ messages := by
  intro before delivery after hsplit _ _ hbefore
  have htotal : echoedProofs messages = echoedProofs before ++ echoedProofs (delivery :: after) := by
    rw [hsplit, echoedProofs_append]
  have hnil : echoedProofs (delivery :: after) = [] := by
    rw [htotal, List.length_append] at hlength
    rw [List.nil_append] at hbefore
    exact List.length_eq_zero_iff.1 (by omega)
  rw [htotal, hnil, List.append_nil] at hall
  exact hall

/-! The two orders that tell the difference: all Readys first, and just enough Echoes first. -/

theorem lengths_of_echoes {echoes : List Delivery} (h : ∀ delivery ∈ echoes, (echoedProof delivery).isSome = true) :
    (echoedProofs echoes).length = echoes.length ∧ readyNodes echoes = [] := by
  induction echoes with
  | nil => exact ⟨rfl, rfl⟩
  | cons delivery rest ih =>
    obtain ⟨hlength, hnodes⟩ := ih fun delivery' hmem ↦ h delivery' (List.mem_cons_of_mem _ hmem)
    have hfirst := h delivery List.mem_cons_self
    obtain ⟨source, msg⟩ := delivery
    cases msg with
    | echo id e => simp [hlength, hnodes]
    | value | ready | canDecode | complete | reply => cases hfirst

theorem lengths_of_readys {readys : List Delivery} (h : ∀ delivery ∈ readys, (readyNode delivery).isSome = true) :
    (readyNodes readys).length = readys.length ∧ echoedProofs readys = [] := by
  induction readys with
  | nil => exact ⟨rfl, rfl⟩
  | cons delivery rest ih =>
    obtain ⟨hlength, hproofs⟩ := ih fun delivery' hmem ↦ h delivery' (List.mem_cons_of_mem _ hmem)
    have hfirst := h delivery List.mem_cons_self
    obtain ⟨source, msg⟩ := delivery
    cases msg with
    | ready id ready => simp [hlength, hproofs]
    | value | echo | canDecode | complete | reply => cases hfirst

/-- The messages are Echoes and Readys. -/
theorem OneRoot.exists_kinds {n : ℕ} (h : OneRoot X n id root messages) :
    ∃ echoes readys, messages.Perm (echoes ++ readys) ∧
      (∀ delivery ∈ echoes, (echoedProof delivery).isSome = true) ∧
        ∀ delivery ∈ readys, (readyNode delivery).isSome = true := by
  refine ⟨messages.filter fun delivery ↦ (echoedProof delivery).isSome,
    messages.filter fun delivery ↦ !(echoedProof delivery).isSome, (List.filter_append_perm _ _).symm, ?_, ?_⟩
  · intro delivery hdelivery
    exact (List.mem_filter.1 hdelivery).2
  · intro delivery hdelivery
    obtain ⟨hmem, hnot⟩ := List.mem_filter.1 hdelivery
    rcases h.kinds delivery hmem with ⟨proof, hmsg, -, -⟩ | hmsg
    · simp [echoedProof, hmsg] at hnot
    · simp [readyNode, hmsg]

/-- Their numbers are those of the proofs and of the nodes. -/
theorem counts_of_kinds {echoes readys : List Delivery} (hperm : messages.Perm (echoes ++ readys))
    (hechoes : ∀ delivery ∈ echoes, (echoedProof delivery).isSome = true)
    (hreadys : ∀ delivery ∈ readys, (readyNode delivery).isSome = true) :
    (echoedProofs messages).Perm (echoedProofs echoes) ∧ (echoedProofs messages).length = echoes.length ∧
      (readyNodes messages).length = readys.length := by
  obtain ⟨hechoesLength, hechoesNodes⟩ := lengths_of_echoes hechoes
  obtain ⟨hreadysLength, hreadysProofs⟩ := lengths_of_readys hreadys
  have hproofs : (echoedProofs messages).Perm (echoedProofs (echoes ++ readys)) := hperm.filterMap echoedProof
  have hnodes : (readyNodes messages).Perm (readyNodes (echoes ++ readys)) := hperm.filterMap readyNode
  rw [echoedProofs_append, hreadysProofs, List.append_nil] at hproofs
  rw [readyNodes_append, hechoesNodes, List.nil_append] at hnodes
  exact ⟨hproofs, hproofs.length_eq.trans hechoesLength, hnodes.length_eq.trans hreadysLength⟩

/-- With all Readys first, nothing is decided. -/
theorem silent_of_readys_first {echoes readys : List Delivery}
    (hechoes : ∀ delivery ∈ echoes, (echoedProof delivery).isSome = true)
    (hreadys : ∀ delivery ∈ readys, (readyNode delivery).isSome = true) :
    Silent f restored ⟨[], 0, (false, [])⟩ (readys ++ echoes) := by
  intro before delivery after hsplit hready _ hlength
  exfalso
  rcases List.append_eq_append_iff.1 hsplit with ⟨middle, rfl, hmiddle⟩ | ⟨middle, rfl, hmiddle⟩
  · have hmem : delivery ∈ echoes := by
      rw [hmiddle]
      exact List.mem_append_right _ List.mem_cons_self
    have hnodes := (lengths_of_echoes hechoes).2
    rw [readyNodes, List.filterMap_eq_nil_iff] at hnodes
    rw [hnodes delivery hmem] at hready
    cases hready
  · have hproofs := (lengths_of_readys hreadys).2
    rw [echoedProofs_append, List.append_eq_nil_iff] at hproofs
    rw [hproofs.1] at hlength
    simp at hlength

/-- Some number of Echoes is enough and cannot be told from an undecided instance only if four of one byte
are all there are. -/
theorem exists_restored (hpieces : X.ChecksPieces) {b : Broadcast} (hcoding : b.coding = .new 2 2) {n : ℕ}
    {echoes : List Delivery} (h : OneRoot X n id root echoes)
    (hechoes : ∀ delivery ∈ echoes, (echoedProof delivery).isSome = true) (henough : f + 1 ≤ echoes.length)
    (hnot : ¬ (f = 3 ∧ echoes.length = 4 ∧ ∀ proof ∈ echoedProofs echoes, proof.value.length = 1)) :
    ∃ k ≤ echoes.length, f + 1 ≤ k ∧ restore X b root (echoedProofs (echoes.take k)) ≠ some none := by
  have hiff (k : ℕ) (hk : k ≤ echoes.length) : restore X b root (echoedProofs (echoes.take k)) = some none ↔
      k = 4 ∧ ∀ proof ∈ echoedProofs (echoes.take k), proof.value.length = 1 := by
    have hfirst : OneRoot X n id root (echoes.take k) := by
      rw [← List.take_append_drop k echoes] at h
      exact h.of_append
    have htake : ∀ delivery ∈ echoes.take k, (echoedProof delivery).isSome = true :=
      fun delivery hmem ↦ hechoes delivery (List.mem_of_mem_take hmem)
    have hlength := (lengths_of_echoes htake).1
    rw [List.length_take_of_le hk] at hlength
    rw [restore_eq_some_none_iff hpieces hcoding hfirst.indices fun proof ↦ hfirst.rootHash_of_mem, hlength]
  by_cases hfirst : restore X b root (echoedProofs (echoes.take (f + 1))) = some none
  · -- four shards of one byte, so there is a fifth Echo
    obtain ⟨hfour, hone⟩ := (hiff _ henough).1 hfirst
    have hmore : echoes.length ≠ 4 := fun hlength ↦ hnot ⟨by omega, hlength, by
      rwa [hfour, ← hlength, List.take_length] at hone⟩
    refine ⟨f + 2, by omega, by omega, fun hsecond ↦ ?_⟩
    have hfour' := ((hiff (f + 2) (by omega)).1 hsecond).1
    omega
  · exact ⟨f + 1, henough, le_rfl, hfirst⟩

/-- With enough Echoes first, and proofs that give a value or cannot be put together, the instance does not
stay undecided. -/
theorem exists_order_decided (hknown : id ∈ knownNodes X myId netinfo) {n : ℕ} {echoes readys : List Delivery}
    (h : OneRoot X n id root (echoes ++ readys))
    (hechoes : ∀ delivery ∈ echoes, (echoedProof delivery).isSome = true)
    (hreadys : ∀ delivery ∈ readys, (readyNode delivery).isSome = true)
    (hlt : 2 * netinfo.faultNum < readys.length) {k : ℕ} (hk : k ≤ echoes.length) (henough : netinfo.faultNum + 1 ≤ k)
    (hrestored : restore X (Broadcast.withPeers X myId netinfo peers) root (echoedProofs (echoes.take k)) ≠ some none) :
    ∃ order, (echoes ++ readys).Perm order ∧
      outcome X (Broadcast.withPeers X myId netinfo peers) order ≠ some (false, []) := by
  have hsplit := eq_take_append_cons_drop readys _ hlt
  have hperm : (echoes ++ readys).Perm ((echoes.take k ++ readys.take (2 * netinfo.faultNum)) ++
      readys[2 * netinfo.faultNum] :: (readys.drop (2 * netinfo.faultNum + 1) ++ echoes.drop k)) := by
    conv_lhs => rw [← List.take_append_drop k echoes, hsplit]
    rw [List.perm_iff_count]
    intro delivery
    simp only [List.count_append, List.count_cons]
    omega
  have htakeReadys : ∀ delivery ∈ readys.take (2 * netinfo.faultNum), (readyNode delivery).isSome = true :=
    fun delivery hmem ↦ hreadys delivery (List.mem_of_mem_take hmem)
  have htakeEchoes : ∀ delivery ∈ echoes.take k, (echoedProof delivery).isSome = true :=
    fun delivery hmem ↦ hechoes delivery (List.mem_of_mem_take hmem)
  have hproofs : echoedProofs (echoes.take k ++ readys.take (2 * netinfo.faultNum)) =
      echoedProofs (echoes.take k) := by
    rw [echoedProofs_append, (lengths_of_readys htakeReadys).2, List.append_nil]
  have hnodes : (readyNodes (echoes.take k ++ readys.take (2 * netinfo.faultNum))).length = 2 * netinfo.faultNum := by
    rw [readyNodes_append, (lengths_of_echoes htakeEchoes).2, List.nil_append, (lengths_of_readys htakeReadys).1,
      List.length_take_of_le (by omega)]
  refine ⟨_, hperm, ?_⟩
  rw [outcome_eq hknown (h.perm hperm)]
  apply verdict_ne_of_restored (hreadys _ (List.getElem_mem hlt)) hnodes
  · rw [hproofs, (lengths_of_echoes htakeEchoes).1, List.length_take_of_le hk]
    exact henough
  · rwa [hproofs]

/-- When all the proofs needed are all there are and hold nothing, nothing is decided in any order. -/
theorem silent_of_empty (hpieces : X.ChecksPieces) {b : Broadcast} (hcoding : b.coding = .new 2 2) {n : ℕ}
    (h : OneRoot X n id root messages) (hfour : (echoedProofs messages).length = 4)
    (hone : ∀ proof ∈ echoedProofs messages, proof.value.length = 1) :
    Silent 3 (restore X b root) ⟨[], 0, (false, [])⟩ messages := by
  apply silent_of_exact hfour
  exact (restore_eq_some_none_iff hpieces hcoding h.indices fun proof ↦ h.rootHash_of_mem).2 ⟨hfour, hone⟩

/-- With too few Readys or Echoes, or when the proofs needed are all there are and hold nothing, nothing is
decided. -/
theorem outcome_of_few (hpieces : X.ChecksPieces) (hknown : id ∈ knownNodes X myId netinfo)
    (h : OneRoot X peers.num id root messages)
    (hfew : (readyNodes messages).length ≤ 2 * netinfo.faultNum ∨
      (echoedProofs messages).length ≤ netinfo.faultNum ∨
        netinfo.faultNum = 3 ∧ (echoedProofs messages).length = 4 ∧
          ∀ proof ∈ echoedProofs messages, proof.value.length = 1) :
    outcome X (Broadcast.withPeers X myId netinfo peers) messages = some (false, []) := by
  rw [outcome_eq hknown h]
  apply verdict_of_silent
  rcases hfew with hreadys | hechoes | ⟨hf, hfour, hone⟩
  · exact silent_of_few (.inl hreadys)
  · exact silent_of_few (.inr hechoes)
  · rw [hf]
    exact silent_of_empty hpieces rfl h hfour hone

/-- Otherwise one order leads to a decision and another one does not. -/
theorem exists_orders_ne (hpieces : X.ChecksPieces) (hknown : id ∈ knownNodes X myId netinfo)
    (h : OneRoot X peers.num id root messages) (hreadyCount : 2 * netinfo.faultNum < (readyNodes messages).length)
    (hechoCount : netinfo.faultNum < (echoedProofs messages).length)
    (hnot : ¬ (netinfo.faultNum = 3 ∧ (echoedProofs messages).length = 4 ∧
      ∀ proof ∈ echoedProofs messages, proof.value.length = 1)) :
    ∃ early late, messages.Perm early ∧ messages.Perm late ∧
      outcome X (Broadcast.withPeers X myId netinfo peers) early ≠
        outcome X (Broadcast.withPeers X myId netinfo peers) late := by
  obtain ⟨echoes, readys, hperm, hechoes, hreadys⟩ := h.exists_kinds
  obtain ⟨hproofs, hechoesLength, hreadysLength⟩ := counts_of_kinds hperm hechoes hreadys
  rw [hechoesLength] at hechoCount hnot
  rw [hreadysLength] at hreadyCount
  simp only [hproofs.mem_iff] at hnot
  obtain ⟨k, hk, henough, hrestored⟩ := exists_restored hpieces
    (show (Broadcast.withPeers X myId netinfo peers).coding = .new 2 2 from rfl)
    (h.perm hperm).of_append hechoes hechoCount hnot
  obtain ⟨early, hearly, hdecided⟩ := exists_order_decided hknown (h.perm hperm) hechoes hreadys hreadyCount hk
    henough hrestored
  have hlast := hperm.trans List.perm_append_comm
  refine ⟨early, readys ++ echoes, hperm.trans hearly, hlast, ?_⟩
  rw [outcome_eq hknown (h.perm hlast), verdict_of_silent (silent_of_readys_first hechoes hreadys)]
  exact hdecided

/-- Delivery does not depend on the order of the messages exactly when the proposer is unknown, when there
are too few Readys or Echoes to decide, or when the proofs needed are all there are and hold nothing. -/
theorem outcome_perm_iff (hpieces : X.ChecksPieces) (h : OneRoot X peers.num id root messages) :
    (∀ messages', messages.Perm messages' →
        outcome X (Broadcast.withPeers X myId netinfo peers) messages' =
          outcome X (Broadcast.withPeers X myId netinfo peers) messages) ↔
      id ∉ knownNodes X myId netinfo ∨ (readyNodes messages).length ≤ 2 * netinfo.faultNum ∨
        (echoedProofs messages).length ≤ netinfo.faultNum ∨
          netinfo.faultNum = 3 ∧ (echoedProofs messages).length = 4 ∧
            ∀ proof ∈ echoedProofs messages, proof.value.length = 1 := by
  by_cases hknown : id ∈ knownNodes X myId netinfo
  swap
  · refine iff_of_true (fun messages' hperm ↦ ?_) (.inl hknown)
    rcases List.eq_nil_or_concat messages with rfl | ⟨rest, last, rfl⟩
    · rw [List.nil_perm.1 hperm]
    · have hne : messages' ≠ [] := fun hnil ↦ by simp [hnil] at hperm
      rw [outcome_of_unknown hknown h (by simp), outcome_of_unknown hknown (h.perm hperm) hne]
  constructor
  · intro hsame
    by_contra hnot
    push Not at hnot
    obtain ⟨-, hreadyCount, hechoCount, hnotEmpty⟩ := hnot
    obtain ⟨early, late, hearly, hlate, hne⟩ := exists_orders_ne hpieces hknown h hreadyCount hechoCount
      fun ⟨hf, hfour, hone⟩ ↦ by
        obtain ⟨proof, hproof, hlong⟩ := hnotEmpty hf hfour
        exact hlong (hone proof hproof)
    exact hne ((hsame early hearly).trans (hsame late hlate).symm)
  · rintro (hunknown | hfew)
    · exact absurd hknown hunknown
    · intro messages' hperm
      have hproofs := hperm.filterMap echoedProof
      rw [outcome_of_few hpieces hknown h hfew, outcome_of_few hpieces hknown (h.perm hperm)]
      simpa only [readyNodes, echoedProofs, (hperm.filterMap readyNode).length_eq, hproofs.length_eq,
        hproofs.mem_iff] using hfew

end Orders

/-! ## Four nodes -/

theorem oneRoot_of_lists {n : ℕ} {root : Digest} {proofs : List Proof} {nodes : List String}
    (hproofs : ∀ proof ∈ proofs, proof.rootHash = root ∧ proof.validate X n = true)
    (hindices : (proofs.map Proof.index).Nodup) (hnodes : nodes.Nodup) :
    OneRoot X n "a" root (proofs.map echoOf ++ nodes.map (readyFrom "a" root)) := by
  have hechoed : echoedProofs (proofs.map echoOf ++ nodes.map (readyFrom "a" root)) = proofs := by
    rw [echoedProofs, List.filterMap_append, List.filterMap_map, List.filterMap_map]
    exact (congrArg₂ _ List.filterMap_some (List.filterMap_eq_nil_iff.2 fun _ _ ↦ rfl)).trans (List.append_nil _)
  have hready : readyNodes (proofs.map echoOf ++ nodes.map (readyFrom "a" root)) = nodes := by
    rw [readyNodes, List.filterMap_append, List.filterMap_map, List.filterMap_map]
    exact congrArg₂ _ (List.filterMap_eq_nil_iff.2 fun _ _ ↦ rfl) List.filterMap_some
  refine ⟨fun delivery hdelivery ↦ ?_, hechoed.symm ▸ hindices, hready.symm ▸ hnodes⟩
  rcases List.mem_append.1 hdelivery with hecho | hready
  · obtain ⟨proof, hproof, rfl⟩ := List.mem_map.1 hecho
    exact .inl ⟨proof, rfl, hproofs proof hproof⟩
  · obtain ⟨node, -, rfl⟩ := List.mem_map.1 hready
    exact .inr rfl

/-- All the Echoes and Readys of an instance with four nodes. -/
def shardMessages : List Delivery :=
  shardProofs.map echoOf ++ ["b", "c", "d"].map (readyFrom "a" shardTree.rootHash)

theorem oneRoot_shardMessages : OneRoot .transparent fourPeers.num "a" shardTree.rootHash shardMessages :=
  oneRoot_of_lists (by decide +kernel) (by decide +kernel) (by decide +kernel)

theorem outcome_perm_iff_fourNodes :
    ¬ ∀ messages', shardMessages.Perm messages' →
      outcome .transparent (Broadcast.withPeers .transparent "a" fourNodes fourPeers) messages' =
        outcome .transparent (Broadcast.withPeers .transparent "a" fourNodes fourPeers) shardMessages :=
  mt (outcome_perm_iff checksPieces_transparent oneRoot_shardMessages).1 (by decide +kernel)

/-- The Echoes before the Readys lead to the value, the Readys before the Echoes do not. -/
theorem not_outcome_perm_of_fourNodes :
    outcome .transparent (Broadcast.withPeers .transparent "a" fourNodes fourPeers) shardMessages =
        some (true, [7, 9]) ∧
      outcome .transparent (Broadcast.withPeers .transparent "a" fourNodes fourPeers) shardMessages.reverse =
        some (false, []) ∧
      ¬ ∀ messages', shardMessages.Perm messages' →
        outcome .transparent (Broadcast.withPeers .transparent "a" fourNodes fourPeers) messages' =
          outcome .transparent (Broadcast.withPeers .transparent "a" fourNodes fourPeers) shardMessages := by
  have hforward : outcome .transparent (Broadcast.withPeers .transparent "a" fourNodes fourPeers) shardMessages =
      some (true, [7, 9]) := by decide +kernel
  have hback : outcome .transparent (Broadcast.withPeers .transparent "a" fourNodes fourPeers)
      shardMessages.reverse = some (false, []) := by decide +kernel
  refine ⟨hforward, hback, fun h ↦ ?_⟩
  have hsame := h _ shardMessages.reverse_perm.symm
  rw [hforward, hback] at hsame
  cases hsame

end BFTDiagnosis.Honeybadger
