import BFTDiagnosis.Lib.Json
import BFTDiagnosis.Pbft.SlotIndependence
import BFTDiagnosis.Pbft.ViewChange

/-!
# The messages on the wire

A handler hands its messages to `coder::serialize_into_json_bytes` and the receiver reads them with
`coder::deserialize_for_json_bytes`, which panics on anything that is not a `ConsensusMessage`. The
derived serialization of the message types is modelled at the level of JSON values: a record is an
object with its fields in order, an enumeration is tagged by the name of the variant, a byte string is
an array of numbers. The text of a JSON value is a parameter, of which only the round trip is assumed.

Every handler wraps its messages in a `ConsensusMessage` except `handle_newview`, whose Prepares are
bare. The main theorem says that exactly these do not decode.
-/

namespace BFTDiagnosis.Pbft

open Components Word PBFTProtocol

variable {X : Externals}

/-! ## Records -/

section Records

def requestToJson (request : Request) : Json := .object [("cmd", .string request.cmd)]

def requestOfValue (value : Json) : Option Request := do
  let [cmd] ← value.record ["cmd"] | none
  return { cmd := ← cmd.asString }

@[simp] theorem requestOfValue_toJson (request : Request) :
    requestOfValue (requestToJson request) = some request := by
  simp [requestOfValue, requestToJson, Json.record]

def PrePrepare.toJson (msg : PrePrepare) : Json :=
  .object [("view", .ofUInt64 msg.view), ("number", .ofUInt64 msg.number), ("m_hash", .string msg.mHash),
    ("m", .ofBytes msg.m), ("signature", .ofBytes msg.signature),
    ("from_peer_id", .ofBytes msg.fromPeerId)]

def PrePrepare.ofJson (value : Json) : Option PrePrepare := do
  let [view, number, mHash, m, signature, fromPeerId] ←
    value.record ["view", "number", "m_hash", "m", "signature", "from_peer_id"] | none
  return {
    view := ← view.asUInt64, number := ← number.asUInt64, mHash := ← mHash.asString,
    m := ← m.asByteString, signature := ← signature.asByteString,
    fromPeerId := ← fromPeerId.asByteString }

@[simp] theorem PrePrepare.ofJson_toJson (msg : PrePrepare) : PrePrepare.ofJson msg.toJson = some msg := by
  simp [PrePrepare.ofJson, PrePrepare.toJson, Json.record]

def Prepare.toJson (msg : Prepare) : Json :=
  .object [("view", .ofUInt64 msg.view), ("number", .ofUInt64 msg.number), ("m_hash", .string msg.mHash),
    ("from_peer_id", .ofBytes msg.fromPeerId), ("signature", .ofBytes msg.signature)]

def Prepare.ofJson (value : Json) : Option Prepare := do
  let [view, number, mHash, fromPeerId, signature] ←
    value.record ["view", "number", "m_hash", "from_peer_id", "signature"] | none
  return {
    view := ← view.asUInt64, number := ← number.asUInt64, mHash := ← mHash.asString,
    fromPeerId := ← fromPeerId.asByteString, signature := ← signature.asByteString }

@[simp] theorem Prepare.ofJson_toJson (msg : Prepare) : Prepare.ofJson msg.toJson = some msg := by
  simp [Prepare.ofJson, Prepare.toJson, Json.record]

def Commit.toJson (msg : Commit) : Json :=
  .object [("view", .ofUInt64 msg.view), ("number", .ofUInt64 msg.number), ("m_hash", .string msg.mHash),
    ("from_peer_id", .ofBytes msg.fromPeerId), ("signature", .ofBytes msg.signature)]

def Commit.ofJson (value : Json) : Option Commit := do
  let [view, number, mHash, fromPeerId, signature] ←
    value.record ["view", "number", "m_hash", "from_peer_id", "signature"] | none
  return {
    view := ← view.asUInt64, number := ← number.asUInt64, mHash := ← mHash.asString,
    fromPeerId := ← fromPeerId.asByteString, signature := ← signature.asByteString }

@[simp] theorem Commit.ofJson_toJson (msg : Commit) : Commit.ofJson msg.toJson = some msg := by
  simp [Commit.ofJson, Commit.toJson, Json.record]

def Reply.toJson (msg : Reply) : Json :=
  .object [("cmd", .string msg.cmd), ("view", .ofUInt64 msg.view), ("number", .ofUInt64 msg.number),
    ("from_peer_id", .ofBytes msg.fromPeerId), ("signature", .ofBytes msg.signature),
    ("result", .ofBytes msg.result)]

def Reply.ofJson (value : Json) : Option Reply := do
  let [cmd, view, number, fromPeerId, signature, result] ←
    value.record ["cmd", "view", "number", "from_peer_id", "signature", "result"] | none
  return {
    cmd := ← cmd.asString, view := ← view.asUInt64, number := ← number.asUInt64,
    fromPeerId := ← fromPeerId.asByteString, signature := ← signature.asByteString,
    result := ← result.asByteString }

@[simp] theorem Reply.ofJson_toJson (msg : Reply) : Reply.ofJson msg.toJson = some msg := by
  simp [Reply.ofJson, Reply.toJson, Json.record]

def CheckPoint.toJson (msg : CheckPoint) : Json :=
  .object [("current_max_number", .ofUInt64 msg.currentMaxNumber),
    ("checkpoint_state_digest", .string msg.checkpointStateDigest),
    ("from_peer_id", .ofBytes msg.fromPeerId), ("signature", .string msg.signature)]

def CheckPoint.ofJson (value : Json) : Option CheckPoint := do
  let [currentMaxNumber, checkpointStateDigest, fromPeerId, signature] ←
    value.record ["current_max_number", "checkpoint_state_digest", "from_peer_id", "signature"] | none
  return {
    currentMaxNumber := ← currentMaxNumber.asUInt64,
    checkpointStateDigest := ← checkpointStateDigest.asString,
    fromPeerId := ← fromPeerId.asByteString, signature := ← signature.asString }

@[simp] theorem CheckPoint.ofJson_toJson (msg : CheckPoint) : CheckPoint.ofJson msg.toJson = some msg := by
  simp [CheckPoint.ofJson, CheckPoint.toJson, Json.record]

def PublicKey.toJson (key : PublicKey) : Json :=
  .object [("pk", .ofBytes key.pk), ("from_peer_id", .ofBytes key.fromPeerId)]

def PublicKey.ofJson (value : Json) : Option PublicKey := do
  let [pk, fromPeerId] ← value.record ["pk", "from_peer_id"] | none
  return { pk := ← pk.asByteString, fromPeerId := ← fromPeerId.asByteString }

@[simp] theorem PublicKey.ofJson_toJson (key : PublicKey) : PublicKey.ofJson key.toJson = some key := by
  simp [PublicKey.ofJson, PublicKey.toJson, Json.record]

end Records

/-! ## Message types

Proofs hold messages again, so the encoding recurses through them. The decoding takes a bound on the
nesting, for which the size of the value is enough. -/

mutual

def MessageType.toJson : MessageType → Json
  | .request request => .object [("Request", requestToJson request)]
  | .prePrepare msg => .object [("PrePrepare", msg.toJson)]
  | .prepare msg => .object [("Prepare", msg.toJson)]
  | .commit msg => .object [("Commit", msg.toJson)]
  | .reply msg => .object [("Reply", msg.toJson)]
  | .checkPoint msg => .object [("CheckPoint", msg.toJson)]
  | .viewChange msg => .object [("ViewChange", viewChangeToJson msg)]
  | .newView ⟨view, viewchanges, preprepares, signature⟩ =>
    .object [("NewView", .object [("view", .ofUInt64 view),
      ("viewchanges", .array (viewChangesToJson viewchanges)),
      ("preprepares", .array (preprepares.map PrePrepare.toJson)), ("signature", .string signature)])]
  | .publicKey key => .object [("PublicKey", key.toJson)]
  | .distributePK => .string "DistributePK"

def viewChangeToJson : ViewChange MessageType → Json
  | ⟨newView, proofMessages, fromPeerId, signature⟩ =>
    .object [("new_view", .ofUInt64 newView), ("proof_messages", proofMessagesToJson proofMessages),
      ("from_peer_id", .ofBytes fromPeerId), ("signature", .string signature)]

def viewChangesToJson : List (ViewChange MessageType) → List Json
  | [] => []
  | msg :: rest => viewChangeToJson msg :: viewChangesToJson rest

def proofMessagesToJson : ProofMessages MessageType → Json
  | ⟨preprepares, prepares⟩ =>
    .object [("preprepares", .array (messagesToJson preprepares)),
      ("prepares", .array (messagesToJson prepares))]

def messagesToJson : List MessageType → List Json
  | [] => []
  | msg :: rest => msg.toJson :: messagesToJson rest

end

section Nested

variable {μ : Type} (decode : Json → Option μ)

def ProofMessages.ofJson (value : Json) : Option (ProofMessages μ) := do
  let [preprepares, prepares] ← value.record ["preprepares", "prepares"] | none
  return {
    preprepares := ← (← preprepares.asList).mapM decode
    prepares := ← (← prepares.asList).mapM decode }

def ViewChange.ofJson (value : Json) : Option (ViewChange μ) := do
  let [newView, proofMessages, fromPeerId, signature] ←
    value.record ["new_view", "proof_messages", "from_peer_id", "signature"] | none
  return {
    newView := ← newView.asUInt64, proofMessages := ← ProofMessages.ofJson decode proofMessages,
    fromPeerId := ← fromPeerId.asByteString, signature := ← signature.asString }

def NewView.ofJson (value : Json) : Option (NewView μ) := do
  let [view, viewchanges, preprepares, signature] ←
    value.record ["view", "viewchanges", "preprepares", "signature"] | none
  return {
    view := ← view.asUInt64
    viewchanges := ← (← viewchanges.asList).mapM (ViewChange.ofJson decode)
    preprepares := ← (← preprepares.asList).mapM PrePrepare.ofJson
    signature := ← signature.asString }

end Nested

def MessageType.ofJson : ℕ → Json → Option MessageType
  | 0, _ => none
  | nesting + 1, value =>
    match value.tagged with
    | some ("Request", some body) => (requestOfValue body).map .request
    | some ("PrePrepare", some body) => (PrePrepare.ofJson body).map .prePrepare
    | some ("Prepare", some body) => (Prepare.ofJson body).map .prepare
    | some ("Commit", some body) => (Commit.ofJson body).map .commit
    | some ("Reply", some body) => (Reply.ofJson body).map .reply
    | some ("CheckPoint", some body) => (CheckPoint.ofJson body).map .checkPoint
    | some ("ViewChange", some body) =>
      (ViewChange.ofJson (MessageType.ofJson nesting) body).map .viewChange
    | some ("NewView", some body) => (NewView.ofJson (MessageType.ofJson nesting) body).map .newView
    | some ("PublicKey", some body) => (PublicKey.ofJson body).map .publicKey
    | some ("DistributePK", none) => some .distributePK
    | some ("DistributePK", some .null) => some .distributePK
    | _ => none

mutual

theorem MessageType.ofJson_toJson (msg : MessageType) {nesting : ℕ}
    (h : (Json.print msg.toJson).length ≤ nesting) : MessageType.ofJson nesting msg.toJson = some msg := by
  have hpos := Json.length_print_pos msg.toJson
  obtain ⟨nesting, rfl⟩ : ∃ rest, nesting = rest + 1 := ⟨nesting - 1, by omega⟩
  match msg with
  | .request request => simp [MessageType.toJson, MessageType.ofJson, Json.tagged]
  | .prePrepare msg => simp [MessageType.toJson, MessageType.ofJson, Json.tagged]
  | .prepare msg => simp [MessageType.toJson, MessageType.ofJson, Json.tagged]
  | .commit msg => simp [MessageType.toJson, MessageType.ofJson, Json.tagged]
  | .reply msg => simp [MessageType.toJson, MessageType.ofJson, Json.tagged]
  | .checkPoint msg => simp [MessageType.toJson, MessageType.ofJson, Json.tagged]
  | .viewChange msg =>
    rw [MessageType.toJson] at h
    have hbody := Json.length_print_lt_of_field h "ViewChange" List.mem_cons_self
    have hmsg := @viewChange_ofJson_toJson msg nesting (Nat.le_of_lt_succ hbody)
    simp [MessageType.toJson, MessageType.ofJson, Json.tagged, hmsg]
  | .newView ⟨view, viewchanges, preprepares, signature⟩ =>
    rw [MessageType.toJson] at h
    have hbody := Nat.le_of_lt_succ (Json.length_print_lt_of_field h "NewView" List.mem_cons_self)
    have hlist := Json.length_print_lt_of_field hbody "viewchanges"
      (List.mem_cons_of_mem _ List.mem_cons_self)
    have hviewchanges := @viewChanges_ofJson_toJson viewchanges nesting fun value hvalue ↦
      (Json.length_print_lt_of_mem hlist.le hvalue).le
    have hpreprepares : (preprepares.map PrePrepare.toJson).mapM PrePrepare.ofJson = some preprepares :=
      Json.mapM_map_of_forall fun preprepare _ ↦ preprepare.ofJson_toJson
    simp [MessageType.toJson, MessageType.ofJson, Json.tagged, NewView.ofJson, Json.record, hviewchanges,
      hpreprepares]
  | .publicKey key => simp [MessageType.toJson, MessageType.ofJson, Json.tagged]
  | .distributePK => simp [MessageType.toJson, MessageType.ofJson, Json.tagged]

theorem viewChange_ofJson_toJson (msg : ViewChange MessageType) {nesting : ℕ}
    (h : (Json.print (viewChangeToJson msg)).length ≤ nesting) :
    ViewChange.ofJson (MessageType.ofJson nesting) (viewChangeToJson msg) = some msg := by
  match msg with
  | ⟨newView, proofMessages, fromPeerId, signature⟩ =>
    rw [viewChangeToJson] at h
    have hproof := Json.length_print_lt_of_field h "proof_messages"
      (List.mem_cons_of_mem _ List.mem_cons_self)
    have hmsg := @proofMessages_ofJson_toJson proofMessages nesting hproof.le
    simp [viewChangeToJson, ViewChange.ofJson, Json.record, hmsg]

theorem viewChanges_ofJson_toJson (msgs : List (ViewChange MessageType)) {nesting : ℕ}
    (h : ∀ value ∈ viewChangesToJson msgs, (Json.print value).length ≤ nesting) :
    (viewChangesToJson msgs).mapM (ViewChange.ofJson (MessageType.ofJson nesting)) = some msgs := by
  match msgs with
  | [] => rfl
  | msg :: rest =>
    rw [viewChangesToJson, List.forall_mem_cons] at h
    have hmsg := @viewChange_ofJson_toJson msg nesting h.1
    have hrest := @viewChanges_ofJson_toJson rest nesting h.2
    simp [viewChangesToJson, hmsg, hrest]

theorem proofMessages_ofJson_toJson (proof : ProofMessages MessageType) {nesting : ℕ}
    (h : (Json.print (proofMessagesToJson proof)).length ≤ nesting) :
    ProofMessages.ofJson (MessageType.ofJson nesting) (proofMessagesToJson proof) = some proof := by
  match proof with
  | ⟨preprepares, prepares⟩ =>
    rw [proofMessagesToJson] at h
    have hfirst := Json.length_print_lt_of_field h "preprepares" List.mem_cons_self
    have hsecond := Json.length_print_lt_of_field h "prepares" (List.mem_cons_of_mem _ List.mem_cons_self)
    have hpreprepares := @messages_ofJson_toJson preprepares nesting fun value hvalue ↦
      (Json.length_print_lt_of_mem hfirst.le hvalue).le
    have hprepares := @messages_ofJson_toJson prepares nesting fun value hvalue ↦
      (Json.length_print_lt_of_mem hsecond.le hvalue).le
    simp [proofMessagesToJson, ProofMessages.ofJson, Json.record, hpreprepares, hprepares]

theorem messages_ofJson_toJson (msgs : List MessageType) {nesting : ℕ}
    (h : ∀ value ∈ messagesToJson msgs, (Json.print value).length ≤ nesting) :
    (messagesToJson msgs).mapM (MessageType.ofJson nesting) = some msgs := by
  match msgs with
  | [] => rfl
  | msg :: rest =>
    rw [messagesToJson, List.forall_mem_cons] at h
    have hmsg := @MessageType.ofJson_toJson msg nesting h.1
    have hrest := @messages_ofJson_toJson rest nesting h.2
    simp [messagesToJson, hmsg, hrest]

end

/-! ## Payloads -/

def ConsensusMessage.toJson (msg : ConsensusMessage) : Json := .object [("msg_type", msg.msgType.toJson)]

def ConsensusMessage.ofJson (value : Json) : Option ConsensusMessage := do
  let [msgType] ← value.record ["msg_type"] | none
  return { msgType := ← MessageType.ofJson msgType.print.length msgType }

theorem ConsensusMessage.ofJson_toJson (msg : ConsensusMessage) :
    ConsensusMessage.ofJson msg.toJson = some msg := by
  have hmsg := msg.msgType.ofJson_toJson le_rfl
  simp [ConsensusMessage.ofJson, ConsensusMessage.toJson, Json.record, hmsg]

/-- A message type alone is no `ConsensusMessage`: its only key is the name of its variant. -/
theorem ConsensusMessage.ofJson_messageType (msg : MessageType) :
    ConsensusMessage.ofJson msg.toJson = none := by
  cases msg <;> simp [ConsensusMessage.ofJson, MessageType.toJson, Json.record]

/-- The message that a handler built. -/
def Payload.built : Payload → MessageType
  | .message msg => msg.msgType
  | .bare msg => msg

def Payload.toJson : Payload → Json
  | .message msg => msg.toJson
  | .bare msg => msg.toJson

section Wire

variable (text : Json.Text)

/-- `coder::serialize_into_json_bytes`. -/
def serializeIntoJsonBytes (payload : Payload) : Bytes := text.print payload.toJson

/-- `coder::deserialize_for_json_bytes` at type `ConsensusMessage`; `none` is the panic. -/
def deserializeForJsonBytes (bytes : Bytes) : Option ConsensusMessage :=
  (text.parse bytes).bind ConsensusMessage.ofJson

def MessageType.phase : MessageType → UInt8
  | .prepare _ => 1
  | .commit _ => 2
  | _ => 0

def getCurrentPhase (bytes : Bytes) : Option UInt8 :=
  if bytes.length = 0 then some 0
  else (deserializeForJsonBytes text bytes).map fun data ↦ data.msgType.phase

/-- `consensus_protocol_message_handler` on the bytes that arrive. -/
def receive (X : Externals) (currentPeerId : Bytes) (p : PBFTProtocol) (bytes : Bytes) :
    Option (PBFTProtocol × Answer) := do
  let message ← deserializeForJsonBytes text bytes
  p.consensusProtocolMessageHandler X currentPeerId message.msgType

/-- The payload is the encoding of a `ConsensusMessage`, and both ends read from it the message that the
handler built. -/
structure Decodes (X : Externals) (payload : Payload) : Prop where
  encodes : ∃ msg : ConsensusMessage, serializeIntoJsonBytes text payload = text.print msg.toJson
  sender : getCurrentPhase text (serializeIntoJsonBytes text payload) = some payload.built.phase
  decoded : deserializeForJsonBytes text (serializeIntoJsonBytes text payload) = some ⟨payload.built⟩
  receiver : ∀ currentPeerId q, receive text X currentPeerId q (serializeIntoJsonBytes text payload) =
    q.consensusProtocolMessageHandler X currentPeerId payload.built

end Wire

variable {text : Json.Text}

theorem deserialize_message (htext : text.RoundTrips) (msg : ConsensusMessage) :
    deserializeForJsonBytes text (serializeIntoJsonBytes text (.message msg)) = some msg := by
  rw [deserializeForJsonBytes, serializeIntoJsonBytes, htext.parse_print]
  exact msg.ofJson_toJson

theorem deserialize_bare (htext : text.RoundTrips) (msg : MessageType) :
    deserializeForJsonBytes text (serializeIntoJsonBytes text (.bare msg)) = none := by
  rw [deserializeForJsonBytes, serializeIntoJsonBytes, htext.parse_print]
  exact ConsensusMessage.ofJson_messageType msg

theorem length_serialize_ne_zero (htext : text.RoundTrips) (payload : Payload) :
    (serializeIntoJsonBytes text payload).length ≠ 0 :=
  fun h ↦ htext.print_ne_nil _ (List.length_eq_zero_iff.1 h)

theorem decodes_message (htext : text.RoundTrips) (msg : ConsensusMessage) :
    Decodes text X (.message msg) where
  encodes := ⟨msg, rfl⟩
  sender := by
    rw [getCurrentPhase, if_neg (length_serialize_ne_zero htext _), deserialize_message htext]
    rfl
  decoded := deserialize_message htext msg
  receiver currentPeerId q := by
    rw [receive, deserialize_message htext]
    rfl

theorem not_decodes_bare (htext : text.RoundTrips) (msg : MessageType) :
    ¬ Decodes text X (.bare msg) := by
  intro h
  have hdecoded := h.decoded
  rw [deserialize_bare htext] at hdecoded
  cases hdecoded

/-! ## What a step sends -/

/-- The payloads that an answer hands to the network. -/
def payloads (out : Answer) : List Payload := out.queue.flatMap SendType.payloads

/-- Apart from a NewView, every event is answered with whole messages. -/
theorem step_payloads {me : Bytes} {p p' : PBFTProtocol} {event : Event} {out : Answer}
    (h : step X me p event = some (p', out)) (hother : event.newview = none) :
    ∀ payload ∈ payloads out, ∃ msg, payload = .message msg := by
  cases step_effect h with
  | initialStart nodes => simp [payloads, extraInitialStart, distributePublicKey, SendType.payloads]
  | distributePK => simp [payloads, distributePublicKey, SendType.payloads]
  | newview msg => cases hother
  | _ => simp [payloads, silent, SendType.payloads]

/-- A NewView is answered with one bare Prepare for each of its PrePrepares. -/
theorem payloads_handleNewview (p : PBFTProtocol) (me : Bytes) (msg : NewView MessageType) :
    payloads (p.handleNewview X me msg).2 = msg.preprepares.map fun preprepare ↦
      .bare (.prepare
        { view := msg.view, number := preprepare.number, mHash := preprepare.mHash, fromPeerId := me,
          signature := [] }) := by
  rw [payloads, handleNewview, PhaseState.queue_continueExecute, List.flatMap_map, List.map_eq_flatMap]
  rfl

/-- Everything a handler sends can be decoded on both ends, except after a NewView with PrePrepares. -/
theorem decodes_iff_newview_empty (htext : text.RoundTrips) {me : Bytes} {p p' : PBFTProtocol}
    {event : Event} {out : Answer} (h : step X me p event = some (p', out)) :
    (∀ payload ∈ payloads out, Decodes text X payload) ↔
      ∀ msg ∈ event.newview, msg.preprepares = [] := by
  cases hnewview : event.newview with
  | none =>
    refine iff_of_true ?_ (by rintro msg ⟨⟩)
    intro payload hpayload
    obtain ⟨msg, rfl⟩ := step_payloads h hnewview payload hpayload
    exact decodes_message htext msg
  | some msg =>
    have hevent : event = .message (.newView msg) := by
      cases event with
      | initialStart nodes => cases hnewview
      | message other =>
        cases other with
        | newView other => rw [Event.newview, Option.some.injEq] at hnewview; rw [hnewview]
        | _ => cases hnewview
    subst hevent
    have hout : out = (p.handleNewview X me msg).2 := (Prod.mk.inj (Option.some.inj h)).2.symm
    rw [hout, payloads_handleNewview]
    simp only [Option.mem_some_iff, forall_eq']
    cases msg.preprepares with
    | nil => exact iff_of_true (by rintro payload ⟨⟩) rfl
    | cons preprepare rest =>
      refine iff_of_false (fun hall ↦ ?_) (List.cons_ne_nil _ _)
      exact not_decodes_bare htext _ (hall _ List.mem_cons_self)

/-- The Prepare with which a replica answers a proposal decodes. -/
theorem decodes_iff_newview_empty_proposal :
    ∃ p' out, step .transparent [1] introducedNode
        (.message (.prePrepare (slotPreprepare 1 [2] ⟨"a"⟩))) = some (p', out) ∧
      (payloads out).length = 1 ∧ ∀ payload ∈ payloads out, Decodes .compact .transparent payload := by
  have hsome : (step .transparent [1] introducedNode
      (.message (.prePrepare (slotPreprepare 1 [2] ⟨"a"⟩)))).isSome = true := by decide +kernel
  have hlength : ((step .transparent [1] introducedNode
      (.message (.prePrepare (slotPreprepare 1 [2] ⟨"a"⟩)))).map fun result ↦
        (payloads result.2).length) = some 1 := by decide +kernel
  obtain ⟨⟨p', out⟩, hstep⟩ := Option.isSome_iff_exists.1 hsome
  rw [hstep] at hlength
  refine ⟨p', out, hstep, Option.some.inj hlength, ?_⟩
  exact (decodes_iff_newview_empty Json.Text.compact_roundTrips hstep).2 (by rintro msg ⟨⟩)

/-- The NewView for view 1 with one empty PrePrepare. -/
def proposingNewview : NewView MessageType :=
  { plainNewview 1 [[2], [3], [4]] with preprepares := [ConsensusLog.nullPreprepare 1 1] }

/-- The Prepare with which a replica answers it. -/
def unwrappedPrepare : Prepare :=
  { view := 1, number := 1, mHash := "NULL", fromPeerId := [1], signature := [] }

theorem serialize_unwrappedPrepare :
    serializeIntoJsonBytes .compact (.bare (.prepare unwrappedPrepare)) =
      asBytes ("\x7b\"Prepare\":\x7b\"view\":1,\"number\":1,\"m_hash\":\"NULL\"," ++
        "\"from_peer_id\":[1],\"signature\":[]\x7d\x7d") := by
  have hchars : Json.print (MessageType.prepare unwrappedPrepare).toJson =
      ("\x7b\"Prepare\":\x7b\"view\":1,\"number\":1,\"m_hash\":\"NULL\"," ++
        "\"from_peer_id\":[1],\"signature\":[]\x7d\x7d").toList := by decide +kernel
  change asBytes (String.ofList (Json.print (MessageType.prepare unwrappedPrepare).toJson)) = _
  rw [hchars, String.ofList_toList]

/-- The answer to a NewView with a PrePrepare: neither end can decode it. -/
theorem not_decodes_of_newview :
    (∃ run, IsRun (step .transparent [1]) (PBFTProtocol.new 1 [1]) run startedNode) ∧
      ∃ p' out payload, step .transparent [1] startedNode (.message (.newView proposingNewview)) =
          some (p', out) ∧ payloads out = [payload] ∧
        serializeIntoJsonBytes .compact payload =
          asBytes ("\x7b\"Prepare\":\x7b\"view\":1,\"number\":1,\"m_hash\":\"NULL\"," ++
            "\"from_peer_id\":[1],\"signature\":[]\x7d\x7d") ∧
        getCurrentPhase .compact (serializeIntoJsonBytes .compact payload) = none ∧
        (∀ q, receive .compact .transparent [2] q (serializeIntoJsonBytes .compact payload) = none) ∧
        ¬ Decodes .compact .transparent payload := by
  have hbare := deserialize_bare Json.Text.compact_roundTrips (.prepare unwrappedPrepare)
  have hpayloads := @payloads_handleNewview .transparent startedNode [1] proposingNewview
  refine ⟨isRun_startedNode, _, _, .bare (.prepare unwrappedPrepare), rfl, hpayloads,
    serialize_unwrappedPrepare, ?_, ?_, not_decodes_bare Json.Text.compact_roundTrips _⟩
  · rw [getCurrentPhase, if_neg (length_serialize_ne_zero Json.Text.compact_roundTrips _), hbare]
    rfl
  · intro q
    rw [receive, hbare]
    rfl

end BFTDiagnosis.Pbft
