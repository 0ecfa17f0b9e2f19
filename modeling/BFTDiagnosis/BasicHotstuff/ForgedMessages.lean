import BFTDiagnosis.BasicHotstuff.FaultInjection
import BFTDiagnosis.Utils.FieldPaths

/-!
# Forged messages of Basic HotStuff

The controller offers the fields of the sample messages of `protocol_phases`, and an actuator forges a message of
the phase in such a field. It looks for the first key of the path only, in the body that `phase_map` names. The name
is that of the message for proposals alone, so that only their outermost fields are ever changed.
-/

namespace BFTDiagnosis.BasicHotstuff

open Components Utils

/-! ## Messages as JSON values -/

/-- The JSON values of what the messages have from elsewhere. -/
structure JsonEncoding where
  signature : Bytes → Json
  signatureShare : Bytes → Json
  tblsKey : TBLSKey → Json
  nodePKs : List (Bytes × ConsensusNodePKInfo) → Json

def optionToJson {α : Type} (toJson : α → Json) : Option α → Json
  | none => .null
  | some value => toJson value

variable (E : JsonEncoding)

def Block.toJson (block : Block) : Json :=
  .object [("cmd", .string block.cmd), ("parent_hash", .string block.parentHash)]

def QC.toJson (qc : QC) : Json :=
  .object [("msg_type", .number qc.msgType.toNat), ("view_num", .ofUInt64 qc.viewNum), ("block", qc.block.toJson),
    ("signature", optionToJson E.signature qc.signature)]

def NewView.toJson (msg : NewView) : Json :=
  .object [("view_num", .ofUInt64 msg.viewNum), ("justify", optionToJson (QC.toJson E) msg.justify),
    ("from_peer_id", .ofBytes msg.fromPeerId)]

def Prepare.toJson (msg : Prepare) : Json :=
  .object [("view_num", .ofUInt64 msg.viewNum), ("block", msg.block.toJson),
    ("justify", optionToJson (QC.toJson E) msg.justify), ("from_peer_id", .ofBytes msg.fromPeerId)]

def PreCommit.toJson (msg : PreCommit) : Json :=
  .object [("view_num", .ofUInt64 msg.viewNum), ("justify", optionToJson (QC.toJson E) msg.justify)]

def Commit.toJson (msg : Commit) : Json :=
  .object [("view_num", .ofUInt64 msg.viewNum), ("justify", optionToJson (QC.toJson E) msg.justify)]

def Decide.toJson (msg : Decide) : Json :=
  .object [("view_num", .ofUInt64 msg.viewNum), ("justify", optionToJson (QC.toJson E) msg.justify)]

def Vote.toJson (vote : Vote) : Json :=
  .object [("view_num", .ofUInt64 vote.viewNum), ("block", vote.block.toJson),
    ("partial_signature", optionToJson E.signatureShare vote.partialSignature),
    ("from_peer_id", .ofBytes vote.fromPeerId)]

/-- The name of the variant, which is the key of the body. -/
def MessageType.tag : MessageType → String
  | .request _ => "Request"
  | .newView _ => "NewView"
  | .prepare _ => "Prepare"
  | .commit _ => "Commit"
  | .preCommit _ => "PreCommit"
  | .decide _ => "Decide"
  | .prepareVote _ => "PrepareVote"
  | .commitVote _ => "CommitVote"
  | .preCommitVote _ => "PreCommitVote"
  | .end _ => "End"
  | .tblsKey _ => "TBLSKey"
  | .consensusNodePKsInfo _ => "ConsensusNodePKsInfo"

def MessageType.body : MessageType → Json
  | .request r => .object [("cmd", .string r.cmd)]
  | .newView msg => msg.toJson E
  | .prepare msg => msg.toJson E
  | .commit msg => msg.toJson E
  | .preCommit msg => msg.toJson E
  | .decide msg => msg.toJson E
  | .prepareVote vote => vote.toJson E
  | .commitVote vote => vote.toJson E
  | .preCommitVote vote => vote.toJson E
  | .end msg => .string msg
  | .tblsKey key => E.tblsKey key
  | .consensusNodePKsInfo entries => E.nodePKs entries

def ConsensusMessage.toJson (msg : ConsensusMessage) : Json :=
  .object [("msg_type", .object [(msg.msgType.tag, msg.msgType.body E)])]

/-- The message as it is parsed again, with sorted maps. -/
def ConsensusMessage.document (msg : ConsensusMessage) : Json := (msg.toJson E).sorted

/-! ## Fields that are offered -/

def sampleOfBlock : Block := { cmd := "test", parentHash := "test" }

def sampleOfQC : QC := { msgType := 1, viewNum := 1, block := sampleOfBlock, signature := none }

def sampleOfVote : Vote := { viewNum := 1, block := sampleOfBlock, partialSignature := none, fromPeerId := [1] }

variable (text : Json.Text)

/-- `protocol_phases`, which also fills `phase_map`. -/
def protocolPhases : HashMap UInt8 Bytes :=
  let prepare : Prepare :=
    { viewNum := 1, block := sampleOfBlock, justify := some sampleOfQC, fromPeerId := [1] }
  let precommit : PreCommit := { viewNum := 1, justify := some sampleOfQC }
  let commit : Commit := { viewNum := 1, justify := some sampleOfQC }
  let vote := text.print (sampleOfVote.toJson E)
  HashMap.ofEntries [(1, text.print (prepare.toJson E)), (2, vote), (3, text.print (precommit.toJson E)), (4, vote),
    (5, text.print (commit.toJson E)), (6, vote)]

/-- The fields that `map_into_string_tree` lists for a phase. -/
def listedFields (p : UInt8) : List (List String) :=
  match ((protocolPhases E text).lookup p).bind text.parse with
  | some value =>
    match value.sorted with
    | .object map => (mapIntoStringTree (toString p.toNat) (Json.toFields map)).2
    | _ => []
  | none => []

/-! ## What a forged message should be -/

/-- The values for which another one stands in. -/
def Differing : JsonValue ℕ → Prop
  | .bool _ => True
  | .number n => n ≤ 2 ^ 64 - 100
  | .string s => s ≠ "ErrorString"
  | .array values => values ≠ ["E", "R", "R", "O", "R"].map .string
  | _ => False

/-- The values are the same except at a path, and differ there. -/
def DiffersAt (path : List String) (original forged : Json) : Prop :=
  ∃ fields fields' new, original.toValue = .object fields ∧ forged.toValue = .object fields' ∧
    JsonValue.modifyAt (fun _ ↦ new) path fields = some fields' ∧
    ∀ old, JsonValue.valueAt path original.toValue = some old → Differing old → new ≠ old

/-- The path of a field below the body of a message. -/
abbrev ConsensusMessage.bodyPath (msg : ConsensusMessage) (field : List String) : List String :=
  "msg_type" :: msg.msgType.tag :: field

/-- `generate_a_error_message` forges exactly the field. -/
def ForgedInField (a : Sender) (msg : ConsensusMessage) (field : List String) (p : UInt8) : Prop :=
  ∃ out forged, a.generateAErrorMessage text (text.print (msg.toJson E)) field p = some out ∧
    text.parse out = some forged ∧ DiffersAt (msg.bodyPath field) (msg.document E) forged

variable {E text}

theorem document_eq (msg : ConsensusMessage) :
    msg.document E = .object [("msg_type", .object [(msg.msgType.tag, (msg.msgType.body E).sorted)])] := by
  simp [ConsensusMessage.document, ConsensusMessage.toJson, Json.sorted, Json.sortedFields, Json.setField]

section Generated

variable {a : Sender} {msg : ConsensusMessage} {p : UInt8} {dataType name : String} {rest : List String}

/-- A body that is not there is added, with the field as its only one. -/
theorem generateAErrorMessage_of_ne (htext : text.RoundTrips) (hphase : a.protocol.phaseMap.lookup p = some dataType)
    (hne : dataType ≠ msg.msgType.tag) :
    a.generateAErrorMessage text (text.print (msg.toJson E)) (name :: rest) p =
      some (text.print (.object [("msg_type", .object
        (Json.setField dataType (.object [(name, .null)]) [(msg.msgType.tag, (msg.msgType.body E).sorted)]))])) := by
  have hdocument := document_eq (E := E) msg
  unfold ConsensusMessage.document at hdocument
  rw [Sender.generateAErrorMessage, htext.parse_print]
  simp only [bind, pure, Option.bind_some, hdocument, hphase, List.head?_cons]
  simp [Json.get, Json.modify, Json.setField, Sender.errorValue, Ne.symm hne]

/-- In the body of the message the field gets its stand-in. -/
theorem generateAErrorMessage_of_tag (htext : text.RoundTrips)
    (hphase : a.protocol.phaseMap.lookup p = some msg.msgType.tag) {fields : List (String × Json)}
    (hbody : (msg.msgType.body E).sorted = .object fields) :
    a.generateAErrorMessage text (text.print (msg.toJson E)) (name :: rest) p =
      (Sender.errorValue ((Json.object fields).get name)).map fun new ↦ text.print
        (.object [("msg_type", .object [(msg.msgType.tag, .object (Json.setField name new fields))])]) := by
  have hdocument := document_eq (E := E) msg
  unfold ConsensusMessage.document at hdocument
  rw [hbody] at hdocument
  rw [Sender.generateAErrorMessage, htext.parse_print]
  simp only [bind, pure, Option.bind_some, hdocument, hphase, List.head?_cons]
  rw [Option.map_eq_bind]
  simp [Json.get, Json.modify, Json.setField, Function.comp_def]

end Generated

/-! ## Messages with another name than the phase -/

/-- A change below the body of the message adds no other body. -/
theorem not_differsAt_of_added {path : List String} {tag dataType : String} {body added : Json}
    (hpath : path ≠ []) (hne : dataType ≠ tag) :
    ¬ DiffersAt ("msg_type" :: tag :: path) (.object [("msg_type", .object [(tag, body)])])
      (.object [("msg_type", .object (Json.setField dataType added [(tag, body)]))]) := by
  rintro ⟨fields, fields', new, horiginal, hforged, hchange, -⟩
  obtain ⟨name, rest, rfl⟩ := List.exists_cons_of_ne_nil hpath
  simp only [Json.toValue, Json.toFields, JsonValue.object.injEq] at horiginal hforged
  subst horiginal hforged
  obtain ⟨next, next', hnext, hinner, hafter⟩ := JsonValue.modifyAt_cons_cons hchange
  obtain rfl : [(tag, body.toValue)] = next := by simpa using hnext
  obtain ⟨body', changed, -, -, rfl⟩ := JsonValue.modifyAt_cons_cons hinner
  -- the message type had one entry before and has one after the change
  simp only [JsonValue.setEntry, if_true, List.cons.injEq, Prod.mk.injEq, true_and, JsonValue.object.injEq] at hafter
  have hlength := congrArg List.length hafter.1
  simp only [Json.setField, if_neg (Ne.symm hne)] at hlength
  split at hlength <;> simp [Json.toFields] at hlength

/-- The name of the phase is that of the message for proposals alone. -/
theorem exists_phaseName_ne {msg : ConsensusMessage} {field : List String}
    (hlisted : field ∈ listedFields E text msg.msgType.currentPhase)
    (hmsg : ∀ prepare, msg.msgType ≠ .prepare prepare) :
    ∃ dataType, protocolPhaseMap.lookup msg.msgType.currentPhase = some dataType ∧ dataType ≠ msg.msgType.tag := by
  have hnone : listedFields E text 0 = [] := rfl
  obtain ⟨msgType⟩ := msg
  cases msgType with
  | prepare prepare => exact absurd rfl (hmsg prepare)
  | prepareVote vote => exact ⟨"Prepare", rfl, show "Prepare" ≠ "PrepareVote" by decide⟩
  | preCommit msg => exact ⟨"Vote", rfl, show "Vote" ≠ "PreCommit" by decide⟩
  | preCommitVote vote => exact ⟨"Vote", rfl, show "Vote" ≠ "PreCommitVote" by decide⟩
  | commit msg => exact ⟨"PreCommit", rfl, show "PreCommit" ≠ "Commit" by decide⟩
  | commitVote vote => exact ⟨"PreCommit", rfl, show "PreCommit" ≠ "CommitVote" by decide⟩
  | request | newView | decide | «end» | tblsKey | consensusNodePKsInfo =>
    change field ∈ listedFields E text 0 at hlisted
    rw [hnone] at hlisted
    cases hlisted

theorem not_forgedInField_of_ne (htext : text.RoundTrips) {a : Sender} {msg : ConsensusMessage} {field : List String}
    {p : UInt8} {dataType : String} (hphase : a.protocol.phaseMap.lookup p = some dataType)
    (hne : dataType ≠ msg.msgType.tag) : ¬ ForgedInField E text a msg field p := by
  rintro ⟨out, forged, hout, hparsed, hdiffers⟩
  cases field with
  | nil =>
    simp only [Sender.generateAErrorMessage, bind, Option.bind_eq_some_iff, List.head?_nil] at hout
    obtain ⟨_, -, _, -, _, hname, -⟩ := hout
    cases hname
  | cons name rest =>
    rw [generateAErrorMessage_of_ne htext hphase hne] at hout
    obtain rfl := Option.some.inj hout
    obtain rfl := Option.some.inj ((htext.parse_print _).symm.trans hparsed)
    rw [document_eq] at hdiffers
    exact not_differsAt_of_added (List.cons_ne_nil name rest) hne hdiffers

/-! ## Proposals -/

/-- The entries of the body of a proposal, sorted by key. -/
def Prepare.entries (E : JsonEncoding) (msg : Prepare) : List (String × Json) :=
  [("block", msg.block.toJson), ("from_peer_id", .ofBytes msg.fromPeerId),
    ("justify", (optionToJson (QC.toJson E) msg.justify).sorted), ("view_num", .ofUInt64 msg.viewNum)]

theorem sorted_ofBytes (bytes : Bytes) : (Json.ofBytes bytes).sorted = .ofBytes bytes := by
  have hvalues : Json.sortedValues (bytes.map fun byte ↦ .number byte.toNat) =
      bytes.map fun byte ↦ .number byte.toNat := by
    induction bytes with
    | nil => rfl
    | cons byte rest ih =>
      rw [List.map_cons, Json.sortedValues, ih]
      rfl
  rw [Json.ofBytes, Json.sorted, hvalues]

theorem sorted_body_prepare (msg : Prepare) :
    ((MessageType.prepare msg).body E).sorted = .object (msg.entries E) := by
  have hbytes := sorted_ofBytes msg.fromPeerId
  simp only [MessageType.body, Prepare.toJson, Prepare.entries, Json.sorted, Json.sortedFields, Json.setField,
    Block.toJson, Json.ofUInt64, hbytes, String.reduceEq, String.reduceLT, reduceIte]

section Entries

variable (msg : Prepare) (new : Json)

theorem setField_block : Json.setField "block" msg.block.toJson (msg.entries E) = msg.entries E := by
  rw [Prepare.entries, Json.setField, if_pos rfl]

theorem setField_justify :
    Json.setField "justify" (optionToJson (QC.toJson E) msg.justify).sorted (msg.entries E) = msg.entries E := by
  simp only [Prepare.entries, Json.setField, String.reduceEq, String.reduceLT, reduceIte]

theorem toFields_setField_fromPeerId : Json.toFields (Json.setField "from_peer_id" new (msg.entries E)) =
    JsonValue.setEntry "from_peer_id" new.toValue (Json.toFields (msg.entries E)) := by
  simp only [Prepare.entries, Json.toFields, Json.setField, JsonValue.setEntry, String.reduceEq, String.reduceLT,
    reduceIte]

theorem toFields_setField_viewNum : Json.toFields (Json.setField "view_num" new (msg.entries E)) =
    JsonValue.setEntry "view_num" new.toValue (Json.toFields (msg.entries E)) := by
  simp only [Prepare.entries, Json.toFields, Json.setField, JsonValue.setEntry, String.reduceEq, String.reduceLT,
    reduceIte]

end Entries

theorem listedFields_prepare (htext : text.RoundTrips) : listedFields E text 1 =
    [["block", "cmd"], ["block", "parent_hash"], ["from_peer_id"], ["justify", "block", "cmd"],
      ["justify", "block", "parent_hash"], ["justify", "msg_type"], ["justify", "signature"],
      ["justify", "view_num"], ["view_num"]] := by
  have hsample : (protocolPhases E text).lookup 1 = some (text.print
      (Prepare.toJson E { viewNum := 1, block := sampleOfBlock, justify := some sampleOfQC, fromPeerId := [1] })) := rfl
  rw [listedFields, hsample, Option.bind_some, htext.parse_print]
  simp only [Prepare.toJson, QC.toJson, Block.toJson, optionToJson, sampleOfQC, sampleOfBlock, Json.sorted,
    Json.sortedFields, Json.setField, Json.ofUInt64, Json.ofBytes, String.reduceEq, String.reduceLT, reduceIte]
  simp [Json.toFields, Json.toValue, mapIntoStringTree, entriesIntoStringTrees, entryIntoStringTree]

section Proposals

variable {a : Sender} {prepare : Prepare} {field : List String}

/-- An object or nothing is its own stand-in, so that the fields below it stay as they are. -/
theorem generateAErrorMessage_of_nested (htext : text.RoundTrips)
    (hphase : a.protocol.phaseMap.lookup 1 = some "Prepare") (prepare : Prepare) {name : String} (rest : List String)
    (hname : name = "block" ∨ name = "justify") :
    a.generateAErrorMessage text (text.print (ConsensusMessage.toJson E ⟨.prepare prepare⟩)) (name :: rest) 1 =
      some (text.print (ConsensusMessage.document E ⟨.prepare prepare⟩)) := by
  have hbody := sorted_body_prepare (E := E) prepare
  rw [generateAErrorMessage_of_tag htext hphase hbody, document_eq, hbody]
  rcases hname with rfl | rfl
  · have hvalue : (Json.object (prepare.entries E)).get "block" = prepare.block.toJson := by
      simp [Prepare.entries, Json.get]
    rw [hvalue, Block.toJson, Sender.errorValue, Option.map_some, ← Block.toJson, setField_block]
  · have hvalue : (Json.object (prepare.entries E)).get "justify" =
        (optionToJson (QC.toJson E) prepare.justify).sorted := by
      simp [Prepare.entries, Json.get]
    have hself : Sender.errorValue (optionToJson (QC.toJson E) prepare.justify).sorted =
        some (optionToJson (QC.toJson E) prepare.justify).sorted := by
      cases prepare.justify with
      | none => rfl
      | some qc => simp only [optionToJson, QC.toJson, Json.sorted, Sender.errorValue]
    rw [hvalue, hself, Option.map_some, setField_justify]

/-- A message that stays as it is differs nowhere. -/
theorem differsAt_self_iff {path : List String} {original : Json} {value : JsonValue ℕ} (hpath : path ≠ [])
    (hvalue : JsonValue.valueAt path original.toValue = some value) :
    DiffersAt path original original ↔ ¬ Differing value := by
  constructor
  · rintro ⟨fields, fields', new, horiginal, hforged, hchange, hdiffers⟩ hvalueDiffers
    obtain rfl : fields = fields' := JsonValue.object.inj (horiginal.symm.trans hforged)
    have hnew := JsonValue.valueAt_modifyAt_self hchange (horiginal ▸ hvalue)
    rw [← horiginal, hvalue] at hnew
    exact hdiffers value hvalue hvalueDiffers (Option.some.inj hnew).symm
  · intro hsame
    obtain ⟨key, rest, rfl⟩ := List.exists_cons_of_ne_nil hpath
    cases horiginal : original.toValue with
    | object fields =>
      rw [horiginal] at hvalue
      refine ⟨fields, fields, value, horiginal, horiginal, JsonValue.modifyAt_const_self hpath hvalue, ?_⟩
      intro old hold holdDiffers
      rw [horiginal, hvalue] at hold
      exact absurd (Option.some.inj hold ▸ holdDiffers) hsame
    | null | bool | number | string | array =>
      rw [horiginal] at hvalue
      cases hvalue

/-- One entry of the body is replaced. -/
theorem differsAt_entry {tag name : String} {fields fields' : List (String × Json)} (old new : Json)
    (hold : (Json.toFields fields).lookup name = some old.toValue)
    (hset : Json.toFields fields' = JsonValue.setEntry name new.toValue (Json.toFields fields))
    (hdiffers : Differing old.toValue → new.toValue ≠ old.toValue) :
    DiffersAt ["msg_type", tag, name] (.object [("msg_type", .object [(tag, .object fields)])])
      (.object [("msg_type", .object [(tag, .object fields')])]) := by
  refine ⟨_, _, new.toValue, by rw [Json.toValue], by rw [Json.toValue], ?_, fun value hvalue hvalueDiffers ↦ ?_⟩
  · simp [JsonValue.modifyAt, Json.toFields, Json.toValue, JsonValue.setEntry, hold, hset]
  · simp only [Json.toValue, Json.toFields, JsonValue.valueAt, JsonValue.fields, List.lookup_cons_self,
      Option.bind_some, hold] at hvalue
    obtain rfl := Option.some.inj hvalue
    exact hdiffers hvalueDiffers

/-- What is made of an outermost field of a proposal. -/
theorem generateAErrorMessage_of_outer (htext : text.RoundTrips)
    (hphase : a.protocol.phaseMap.lookup 1 = some "Prepare")
    (prepare : Prepare) (name : String) :
    a.generateAErrorMessage text (text.print (ConsensusMessage.toJson E ⟨.prepare prepare⟩)) [name] 1 =
      (Sender.errorValue ((Json.object (prepare.entries E)).get name)).map fun new ↦ text.print
        (.object [("msg_type", .object [("Prepare", .object (Json.setField name new (prepare.entries E)))])]) :=
  generateAErrorMessage_of_tag htext hphase (sorted_body_prepare prepare)

/-- The sender of a proposal is forged. -/
theorem forgedInField_fromPeerId (htext : text.RoundTrips) (hphase : a.protocol.phaseMap.lookup 1 = some "Prepare") :
    ForgedInField E text a ⟨.prepare prepare⟩ ["from_peer_id"] 1 := by
  have hout := generateAErrorMessage_of_outer (E := E) htext hphase prepare "from_peer_id"
  have hvalue : (Json.object (prepare.entries E)).get "from_peer_id" = .ofBytes prepare.fromPeerId := by
    simp [Prepare.entries, Json.get]
  rw [hvalue, Json.ofBytes, Sender.errorValue, Option.map_some] at hout
  refine ⟨_, _, hout, htext.parse_print _, ?_⟩
  rw [document_eq, sorted_body_prepare]
  refine differsAt_entry (.ofBytes prepare.fromPeerId) (.array (["E", "R", "R", "O", "R"].map .string)) ?_
    (toFields_setField_fromPeerId _ _) fun _ ↦ ?_
  · simp [Prepare.entries, Json.toFields, List.lookup_cons]
  · -- a list of strings is no list of bytes
    cases prepare.fromPeerId <;> simp [Json.toValue, Json.toValues, Json.ofBytes]

/-- The view of a proposal is forged, unless the sum overflows. -/
theorem forgedInField_viewNum_iff (htext : text.RoundTrips) (hphase : a.protocol.phaseMap.lookup 1 = some "Prepare") :
    ForgedInField E text a ⟨.prepare prepare⟩ ["view_num"] 1 ↔ prepare.viewNum.toNat ≤ 2 ^ 64 - 100 := by
  have hout := generateAErrorMessage_of_outer (E := E) htext hphase prepare "view_num"
  have hvalue : (Json.object (prepare.entries E)).get "view_num" = .number prepare.viewNum.toNat := by
    simp [Prepare.entries, Json.get, Json.ofUInt64]
  rw [hvalue, Sender.errorValue] at hout
  by_cases hsum : prepare.viewNum.toNat + 99 < 2 ^ 64
  · rw [if_pos hsum, Option.map_some] at hout
    refine iff_of_true ⟨_, _, hout, htext.parse_print _, ?_⟩ (by omega)
    rw [document_eq, sorted_body_prepare]
    refine differsAt_entry (.number prepare.viewNum.toNat) (.number (prepare.viewNum.toNat + 99)) ?_
      (toFields_setField_viewNum _ _) fun _ ↦ ?_
    · simp [Prepare.entries, Json.toFields, Json.ofUInt64, List.lookup_cons]
    · simp [Json.toValue]
  · rw [if_neg hsum, Option.map_none] at hout
    refine iff_of_false ?_ (by omega)
    rintro ⟨out, forged, hsome, -⟩
    cases hout.symm.trans hsome

/-- A field below another one stays as it is. -/
theorem forgedInField_nested_iff (htext : text.RoundTrips) (hphase : a.protocol.phaseMap.lookup 1 = some "Prepare")
    {name : String} {rest : List String} (hname : name = "block" ∨ name = "justify") {value : JsonValue ℕ}
    (hvalue : JsonValue.valueAt (ConsensusMessage.bodyPath ⟨.prepare prepare⟩ (name :: rest))
      (ConsensusMessage.document E ⟨.prepare prepare⟩).toValue = some value) :
    ForgedInField E text a ⟨.prepare prepare⟩ (name :: rest) 1 ↔ ¬ Differing value := by
  rw [← differsAt_self_iff (List.cons_ne_nil _ _) hvalue]
  have hout := generateAErrorMessage_of_nested (E := E) htext hphase prepare rest hname
  constructor
  · rintro ⟨out, forged, hsome, hparsed, hdiffers⟩
    obtain rfl := Option.some.inj (hout.symm.trans hsome)
    obtain rfl := Option.some.inj ((htext.parse_print _).symm.trans hparsed)
    exact hdiffers
  · intro hdiffers
    exact ⟨_, _, hout, htext.parse_print _, hdiffers⟩

/-- The values of the outermost fields of a proposal. -/
theorem value_of_fromPeerId {value : JsonValue ℕ}
    (h : JsonValue.valueAt (ConsensusMessage.bodyPath ⟨.prepare prepare⟩ ["from_peer_id"])
      (ConsensusMessage.document E ⟨.prepare prepare⟩).toValue = some value) :
    value = (Json.ofBytes prepare.fromPeerId).toValue := by
  rw [document_eq, sorted_body_prepare] at h
  simpa [Prepare.entries, JsonValue.valueAt, JsonValue.fields, Json.toValue, Json.toFields, List.lookup_cons,
    eq_comm] using h

theorem value_of_viewNum {value : JsonValue ℕ}
    (h : JsonValue.valueAt (ConsensusMessage.bodyPath ⟨.prepare prepare⟩ ["view_num"])
      (ConsensusMessage.document E ⟨.prepare prepare⟩).toValue = some value) :
    value = .number prepare.viewNum.toNat := by
  rw [document_eq, sorted_body_prepare] at h
  simpa [Prepare.entries, JsonValue.valueAt, JsonValue.fields, Json.toValue, Json.toFields, Json.ofUInt64,
    List.lookup_cons, eq_comm] using h

theorem differing_ofBytes (bytes : Bytes) : Differing (Json.ofBytes bytes).toValue := by
  cases bytes <;> simp [Differing, Json.ofBytes, Json.toValue, Json.toValues]

/-- The listed fields of a proposal: two outermost ones, and those below `block` and `justify`. -/
theorem forgedInField_prepare_iff (htext : text.RoundTrips) (hphase : a.protocol.phaseMap.lookup 1 = some "Prepare")
    (hlisted : field ∈ listedFields E text 1) {value : JsonValue ℕ}
    (hvalue : JsonValue.valueAt (ConsensusMessage.bodyPath ⟨.prepare prepare⟩ field)
      (ConsensusMessage.document E ⟨.prepare prepare⟩).toValue = some value) :
    ForgedInField E text a ⟨.prepare prepare⟩ field 1 ↔ (field.length = 1 ↔ Differing value) := by
  have hnested {name second : String} {rest : List String} (hkey : name = "block" ∨ name = "justify")
      (hfield : field = name :: second :: rest) :
      ForgedInField E text a ⟨.prepare prepare⟩ field 1 ↔ (field.length = 1 ↔ Differing value) := by
    subst hfield
    rw [forgedInField_nested_iff htext hphase hkey hvalue]
    simp
  rw [listedFields_prepare htext] at hlisted
  simp only [List.mem_cons, List.not_mem_nil, or_false] at hlisted
  rcases hlisted with h | h | h | h | h | h | h | h | h
  case inr.inr.inl =>
    subst h
    rw [value_of_fromPeerId hvalue]
    exact iff_of_true (forgedInField_fromPeerId htext hphase) (iff_of_true rfl (differing_ofBytes _))
  case inr.inr.inr.inr.inr.inr.inr.inr =>
    subst h
    rw [value_of_viewNum hvalue, forgedInField_viewNum_iff htext hphase]
    simp [Differing]
  all_goals exact hnested (by decide) h

end Proposals

/-! ## All messages -/

/-- For a listed field that a message of the phase has, the forged message differs in exactly this field if and only
if the message is a proposal and the field is an outermost one. Below those nothing changes, which is right only
where no other value has to stand in. -/
theorem forgedInField_iff (htext : text.RoundTrips) (protocol : BasicHotstuffProtocol)
    {decode : Bytes → Option ConsensusMessage} (a : Sender) {msg : ConsensusMessage}
    (hdecode : decode (text.print (msg.toJson E)) = some msg) {p : UInt8}
    (hphase : getCurrentPhase decode (text.print (msg.toJson E)) = some p) {field : List String}
    (hlisted : field ∈ listedFields E text p) {value : JsonValue ℕ}
    (hvalue : JsonValue.valueAt (msg.bodyPath field) (msg.document E).toValue = some value) :
    ForgedInField E text (protocol.sender decode protocolPhaseMap a) msg field p ↔
      (∃ prepare, msg.msgType = .prepare prepare) ∧ (field.length = 1 ↔ Differing value) := by
  have hlength := List.length_eq_zero_iff.not.2 (htext.print_ne_nil (msg.toJson E))
  rw [getCurrentPhase, if_neg hlength, hdecode, Option.map_some] at hphase
  obtain rfl : msg.msgType.currentPhase = p := Option.some.inj hphase
  by_cases hprepare : ∃ prepare, msg.msgType = .prepare prepare
  · obtain ⟨prepare, hmsg⟩ := hprepare
    obtain rfl : msg = ⟨.prepare prepare⟩ := by
      cases msg
      exact congrArg _ hmsg
    rw [and_iff_right ⟨prepare, rfl⟩]
    exact forgedInField_prepare_iff htext rfl hlisted hvalue
  · obtain ⟨dataType, hname, hne⟩ := exists_phaseName_ne hlisted fun prepare hmsg ↦ hprepare ⟨prepare, hmsg⟩
    exact iff_of_false (not_forgedInField_of_ne htext hname hne) fun h ↦ hprepare h.1

section Examples

def byteEncoding : JsonEncoding where
  signature := .ofBytes
  signatureShare := .ofBytes
  tblsKey key := .ofBytes key.publicKey
  nodePKs entries := .array (entries.map fun entry ↦ .ofBytes entry.1)

def firstProposal : ConsensusMessage :=
  ⟨.prepare { viewNum := 1, block := { cmd := "a", parentHash := "" }, justify := none, fromPeerId := [1] }⟩

def decodeFirst (bytes : Bytes) : Option ConsensusMessage :=
  if bytes = Json.Text.compact.print (firstProposal.toJson byteEncoding) then some firstProposal else none

def forgingSender : Sender :=
  (BasicHotstuffProtocol.new 1 "").sender decodeFirst protocolPhaseMap (sampleSender [1] true ambiguousFault)

theorem getCurrentPhase_firstProposal :
    decodeFirst (Json.Text.compact.print (firstProposal.toJson byteEncoding)) = some firstProposal ∧
      getCurrentPhase decodeFirst (Json.Text.compact.print (firstProposal.toJson byteEncoding)) = some 1 := by
  have hdecode : decodeFirst (Json.Text.compact.print (firstProposal.toJson byteEncoding)) = some firstProposal :=
    if_pos rfl
  have hne := Json.Text.compact_roundTrips.print_ne_nil (firstProposal.toJson byteEncoding)
  refine ⟨hdecode, ?_⟩
  rw [getCurrentPhase, if_neg (List.length_eq_zero_iff.not.2 hne), hdecode]
  rfl

theorem forgedInField_iff_viewNum :
    ForgedInField byteEncoding .compact forgingSender firstProposal ["view_num"] 1 ↔
      (∃ prepare, firstProposal.msgType = .prepare prepare) ∧ (1 = 1 ↔ Differing (.number 1)) := by
  have hlisted : ["view_num"] ∈ listedFields byteEncoding .compact 1 := by
    rw [listedFields_prepare Json.Text.compact_roundTrips]
    decide
  exact forgedInField_iff Json.Text.compact_roundTrips _ _ getCurrentPhase_firstProposal.1
    getCurrentPhase_firstProposal.2 hlisted rfl

/-- A proposal is sent as it is when the command of its block is to be forged. -/
theorem not_forgedInField_cmd :
    ¬ ∀ (msg : ConsensusMessage) (p : UInt8) (field : List String) (value : JsonValue ℕ),
      decodeFirst (Json.Text.compact.print (msg.toJson byteEncoding)) = some msg →
      getCurrentPhase decodeFirst (Json.Text.compact.print (msg.toJson byteEncoding)) = some p →
      field ∈ listedFields byteEncoding .compact p →
      JsonValue.valueAt (msg.bodyPath field) (msg.document byteEncoding).toValue = some value → Differing value →
      ForgedInField byteEncoding .compact forgingSender msg field p := by
  intro h
  have hlisted : ["block", "cmd"] ∈ listedFields byteEncoding .compact 1 := by
    rw [listedFields_prepare Json.Text.compact_roundTrips]
    decide
  have hdiffering : Differing (.string "a") := show "a" ≠ "ErrorString" by decide
  have hforged := h firstProposal 1 ["block", "cmd"] (.string "a") getCurrentPhase_firstProposal.1
    getCurrentPhase_firstProposal.2 hlisted rfl hdiffering
  exact (forgedInField_nested_iff Json.Text.compact_roundTrips rfl (.inl rfl) rfl).1 hforged hdiffering

end Examples

end BFTDiagnosis.BasicHotstuff
