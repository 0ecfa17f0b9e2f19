import BFTDiagnosis.Pbft.Message

/-!
# Which messages share a key

A key of one of the three phases is a prefix, two words and the request hash, so it determines all of them.
The key of a Reply puts the command before the two words and the result behind them, and does not say where
the command ends. Two different Replies share a key when the words and the result of the one can be read as
the end of the command, the words and the result of the other.
-/

namespace BFTDiagnosis.Pbft

open Components Word

variable {X : Externals}

/-- The three phases whose messages are about a slot. -/
inductive SlotPhase where
  | prePrepare
  | prepare
  | commit
deriving DecidableEq

def SlotPhase.kind : SlotPhase → UInt8
  | .prePrepare => prePreparePrefix
  | .prepare => preparePrefix
  | .commit => commitPrefix

theorem SlotPhase.kind_injective : Function.Injective SlotPhase.kind := by
  intro phase phase' h
  cases phase <;> cases phase' <;> first | rfl | exact absurd h (by decide)

/-- The kind of a signed message and the fields that enter its key. -/
inductive KeyFields where
  | slot (phase : SlotPhase) (slot : Slot)
  | reply (cmd : String) (view number : UInt64) (result : Bytes)
deriving DecidableEq

def MessageType.keyFields : MessageType → Option KeyFields
  | .prePrepare msg => some (.slot .prePrepare msg.slot)
  | .prepare msg => some (.slot .prepare msg.slot)
  | .commit msg => some (.slot .commit msg.slot)
  | .reply msg => some (.reply msg.cmd msg.view msg.number msg.result)
  | _ => none

/-- The key tells the two messages apart, unless they have the same kind and key fields. -/
def ToldApart (X : Externals) (msg msg' : MessageType) : Prop :=
  getMessageKey X msg = getMessageKey X msg' → msg.keyFields = msg'.keyFields

/-- The command of the second Reply is that of the first with some further bytes, and those bytes and the words
of the second Reply are the words of the first and the beginning of its result. -/
def Shifted (reply reply' : Reply) : Prop :=
  ∃ further rest, further ≠ [] ∧ asBytes reply'.cmd = asBytes reply.cmd ++ further ∧
    reply.result = rest ++ reply'.result ∧
    toBeBytes reply.view ++ toBeBytes reply.number ++ rest =
      further ++ (toBeBytes reply'.view ++ toBeBytes reply'.number)

/-- The bytes behind the key of a Reply, after its prefix. -/
def replyKeyBytes (reply : Reply) : Bytes :=
  asBytes reply.cmd ++ toBeBytes reply.view ++ toBeBytes reply.number ++ reply.result

theorem Shifted.replyKeyBytes_eq {reply reply' : Reply} (h : Shifted reply reply') :
    replyKeyBytes reply = replyKeyBytes reply' := by
  obtain ⟨further, rest, -, hcmd, hresult, hwords⟩ := h
  calc replyKeyBytes reply
      = asBytes reply.cmd ++ (toBeBytes reply.view ++ toBeBytes reply.number ++ rest) ++ reply'.result := by
        simp only [replyKeyBytes, hresult, List.append_assoc]
    _ = asBytes reply.cmd ++ (further ++ (toBeBytes reply'.view ++ toBeBytes reply'.number)) ++ reply'.result := by
        rw [hwords]
    _ = replyKeyBytes reply' := by simp only [replyKeyBytes, hcmd, List.append_assoc]

theorem Shifted.cmd_ne {reply reply' : Reply} (h : Shifted reply reply') : reply.cmd ≠ reply'.cmd := by
  obtain ⟨further, rest, hfurther, hcmd, -⟩ := h
  intro hsame
  rw [hsame, List.self_eq_append_right] at hcmd
  exact hfurther hcmd

/-- Replies with the same key bytes, the command of the second starting with that of the first. -/
theorem fields_eq_or_shifted {reply reply' : Reply} {further : Bytes}
    (hcmd : asBytes reply'.cmd = asBytes reply.cmd ++ further)
    (hrest : toBeBytes reply.view ++ toBeBytes reply.number ++ reply.result =
      further ++ (toBeBytes reply'.view ++ toBeBytes reply'.number ++ reply'.result)) :
    MessageType.keyFields (.reply reply) = MessageType.keyFields (.reply reply') ∨ Shifted reply reply' := by
  by_cases hfurther : further = []
  · subst hfurther
    rw [List.append_nil] at hcmd
    rw [List.nil_append] at hrest
    obtain ⟨hwords, hresult⟩ := List.append_inj hrest (by simp)
    obtain ⟨hview, hnumber⟩ := List.append_inj hwords (by simp)
    refine .inl ?_
    rw [MessageType.keyFields, MessageType.keyFields, asBytes_injective hcmd.symm, toBeBytes_injective hview,
      toBeBytes_injective hnumber, hresult]
  · refine .inr ?_
    have hwords : toBeBytes reply.view ++ toBeBytes reply.number ++ reply.result =
        further ++ (toBeBytes reply'.view ++ toBeBytes reply'.number) ++ reply'.result := by
      rw [hrest, List.append_assoc further]
    rcases List.append_eq_append_iff.1 hwords with ⟨rest, hlonger, hresult⟩ | ⟨rest, hshorter, -⟩
    · exact ⟨further, rest, hfurther, hcmd, hresult, hlonger.symm⟩
    · -- The words have the same length on both sides, so the further bytes cannot fit before them.
      have hlength := congrArg List.length hshorter
      have hpositive := List.length_pos_of_ne_nil hfurther
      simp only [List.length_append, length_toBeBytes] at hlength
      omega

/-- Two Replies share their key bytes exactly when they agree on the key fields, or one is the other shifted. -/
theorem replyKeyBytes_eq_iff {reply reply' : Reply} :
    replyKeyBytes reply = replyKeyBytes reply' ↔
      MessageType.keyFields (.reply reply) = MessageType.keyFields (.reply reply') ∨
        Shifted reply reply' ∨ Shifted reply' reply := by
  constructor
  · intro h
    have hsplit : asBytes reply.cmd ++ (toBeBytes reply.view ++ toBeBytes reply.number ++ reply.result) =
        asBytes reply'.cmd ++ (toBeBytes reply'.view ++ toBeBytes reply'.number ++ reply'.result) := by
      simpa only [replyKeyBytes, List.append_assoc] using h
    rcases List.append_eq_append_iff.1 hsplit with ⟨further, hcmd, hrest⟩ | ⟨further, hcmd, hrest⟩
    · exact (fields_eq_or_shifted hcmd hrest).imp_right .inl
    · exact (fields_eq_or_shifted hcmd hrest).imp Eq.symm .inr
  · rintro (hfields | hshifted | hshifted)
    · obtain ⟨hcmd, hview, hnumber, hresult⟩ := KeyFields.reply.inj (Option.some.inj hfields)
      simp only [replyKeyBytes, hcmd, hview, hnumber, hresult]
    · exact hshifted.replyKeyBytes_eq
    · exact hshifted.replyKeyBytes_eq.symm

theorem SlotPhase.kind_ne_reply (phase : SlotPhase) : phase.kind ≠ replyPrefix := by
  cases phase <;> decide

/-- A signed message is a Reply, or one of the three phases with the key of its slot. -/
theorem reply_or_slot (X : Externals) {msg : MessageType} (hsigned : msg.keyFields.isSome = true) :
    (∃ reply, msg = .reply reply) ∨
      ((∀ reply, msg ≠ .reply reply) ∧ ∃ phase slot, msg.keyFields = some (.slot phase slot) ∧
        getMessageKey X msg =
          X.getHashStr (phaseKeyBytes phase.kind (asBytes slot.mHash) slot.view slot.number)) := by
  cases msg with
  | reply msg => exact .inl ⟨msg, rfl⟩
  | prePrepare msg => exact .inr ⟨by simp, .prePrepare, msg.slot, rfl, rfl⟩
  | prepare msg => exact .inr ⟨by simp, .prepare, msg.slot, rfl, rfl⟩
  | commit msg => exact .inr ⟨by simp, .commit, msg.slot, rfl, rfl⟩
  | _ => cases hsigned

/-- Two Replies are told apart exactly when neither is the other shifted. -/
theorem toldApart_reply_iff (hX : X.CollisionFree) (reply reply' : Reply) :
    ToldApart X (.reply reply) (.reply reply') ↔ ¬ Shifted reply reply' ∧ ¬ Shifted reply' reply := by
  have hkey : getMessageKey X (.reply reply) = getMessageKey X (.reply reply') ↔
      replyKeyBytes reply = replyKeyBytes reply' :=
    ⟨fun h ↦ (List.cons.inj (hX h)).2, fun h ↦ congrArg (fun bytes ↦ X.getHashStr (replyPrefix :: bytes)) h⟩
  unfold ToldApart
  rw [hkey, replyKeyBytes_eq_iff]
  constructor
  · intro h
    have hcmd (hfields : MessageType.keyFields (.reply reply) = MessageType.keyFields (.reply reply')) :
        reply.cmd = reply'.cmd := (KeyFields.reply.inj (Option.some.inj hfields)).1
    exact ⟨fun hshifted ↦ hshifted.cmd_ne (hcmd (h (.inr (.inl hshifted)))),
      fun hshifted ↦ hshifted.cmd_ne (hcmd (h (.inr (.inr hshifted)))).symm⟩
  · rintro ⟨hfirst, hsecond⟩ (hfields | hshifted | hshifted)
    · exact hfields
    · exact absurd hshifted hfirst
    · exact absurd hshifted hsecond

/-- The key of two signed messages tells them apart exactly when they are not two Replies of which one is the
other shifted. -/
theorem toldApart_iff_not_shifted (hX : X.CollisionFree) {msg msg' : MessageType}
    (hsigned : msg.keyFields.isSome = true) (hsigned' : msg'.keyFields.isSome = true) :
    ToldApart X msg msg' ↔ ∀ reply reply', msg = .reply reply → msg' = .reply reply' →
      ¬ Shifted reply reply' ∧ ¬ Shifted reply' reply := by
  rcases reply_or_slot X hsigned with ⟨reply, rfl⟩ | ⟨hslot, phase, slot, hfields, hkey⟩
  · rcases reply_or_slot X hsigned' with ⟨reply', rfl⟩ | ⟨hslot', phase', slot', hfields', hkey'⟩
    · rw [toldApart_reply_iff hX]
      constructor
      · rintro h _ _ ⟨⟩ ⟨⟩
        exact h
      · intro h
        exact h reply reply' rfl rfl
    · refine iff_of_true (fun h ↦ ?_) fun _ reply' _ hreply ↦ absurd hreply (hslot' reply')
      rw [hkey'] at h
      exact absurd (List.cons.inj (hX h)).1.symm phase'.kind_ne_reply
  · refine iff_of_true (fun h ↦ ?_) fun reply _ hreply ↦ absurd hreply (hslot reply)
    rw [hkey] at h
    rcases reply_or_slot X hsigned' with ⟨reply', rfl⟩ | ⟨-, phase', slot', hfields', hkey'⟩
    · exact absurd (List.cons.inj (hX h)).1 phase.kind_ne_reply
    · rw [hkey'] at h
      obtain ⟨hkind, hsame⟩ := phaseKey_inj hX slot slot' h
      rw [hfields, hfields', SlotPhase.kind_injective hkind, hsame]

/-- A Reply with an empty command and one byte as its result. -/
def emptyReply : Reply :=
  { cmd := "", view := 0, number := 0, fromPeerId := [], signature := [], result := [0] }

/-- A Reply with the same byte as its command and an empty result. -/
def nulReply : Reply :=
  { cmd := "\x00", view := 0, number := 0, fromPeerId := [], signature := [], result := [] }

/-- Replies with commands of the same length are told apart. -/
theorem toldApart_iff_not_shifted_sameLength :
    ToldApart .transparent (.reply emptyReply) (.reply { emptyReply with view := 1 }) := by
  refine (toldApart_iff_not_shifted Utils.Platform.collisionFree_transparent rfl rfl).2 ?_
  rintro _ _ ⟨⟩ ⟨⟩
  exact ⟨fun h ↦ h.cmd_ne rfl, fun h ↦ h.cmd_ne rfl⟩

/-- The two Replies have one key. -/
theorem not_toldApart_of_nul :
    Externals.transparent.CollisionFree ∧ Function.Injective Externals.transparent.requestJson ∧
      getMessageKey .transparent (.reply emptyReply) = getMessageKey .transparent (.reply nulReply) ∧
      ¬ ToldApart .transparent (.reply emptyReply) (.reply nulReply) := by
  have hkey : getMessageKey .transparent (.reply emptyReply) = getMessageKey .transparent (.reply nulReply) := by
    decide +kernel
  refine ⟨Utils.Platform.collisionFree_transparent, requestJson_transparent_injective, hkey, fun h ↦ ?_⟩
  exact absurd (h hkey) (by decide)

end BFTDiagnosis.Pbft
