import BFTDiagnosis.Pbft.Checkpoints
import BFTDiagnosis.Pbft.SlotIndependence

/-!
# Messages that abort a PBFT node

A handler aborts where an `unwrap` or `expect` fails or where 64-bit arithmetic overflows. Some of
these places are reached with fields that the sender chooses, before any check: the request in a
PrePrepare and the peer id of every signed message are parsed first. Others depend on what earlier
messages did to the state: CheckPoints are not verified, and can push the stable checkpoint so far that
the upper end of the watermark window overflows.

`Survives` collects what a message must satisfy, handler by handler, and the main theorem says that in
every reachable state the handler returns exactly then.
-/

namespace BFTDiagnosis.Pbft

open Components Word PBFTProtocol

variable {X : Externals}

/-! ## The conditions -/

/-- The upper end of the watermark window is a 64-bit number. -/
def WindowFits (p : PBFTProtocol) : Prop := p.state.stableCheckpoint.1.toNat + 100 < 2 ^ 64

/-- The number lies in the watermark window. -/
def InWindow (p : PBFTProtocol) (number : UInt64) : Prop :=
  p.state.stableCheckpoint.1 < number ∧ number.toNat ≤ p.state.stableCheckpoint.1.toNat + 100

/-- The Commit is for the logged request of its slot and the last one missing. -/
def LastCommit (X : Externals) (p : PBFTProtocol) (msg : Commit) : Prop :=
  InWindow p msg.number ∧ p.state.view = msg.view ∧ LoggedRequest X p msg.number msg.mHash ∧
    (p.log.messages.listAt (getMessageKey X (.commit msg))).length + 1 =
      2 * p.state.faultToleranceCount.toNat

/-- What the handler of a message relies on. -/
def Survives (X : Externals) (p : PBFTProtocol) : MessageType → Prop
  | .prePrepare msg =>
    (X.requestOfJson msg.m).isSome = true ∧ X.peerIdValid msg.fromPeerId = true ∧
      (ValidlySigned X p (.prePrepare msg) → WindowFits p)
  | .prepare msg =>
    X.peerIdValid msg.fromPeerId = true ∧
      (ValidlySigned X p (.prepare msg) →
        p.log.getRequestPhaseState msg.mHash ≠ some .prepared → WindowFits p)
  | .commit msg =>
    (p.log.messages.listAt (getMessageKey X (.commit msg))).length <
        2 * p.state.faultToleranceCount.toNat →
      X.peerIdValid msg.fromPeerId = true ∧
        (ValidlySigned X p (.commit msg) →
          p.log.getRequestPhaseState msg.mHash ≠ some .commited → WindowFits p ∧
            (LastCommit X p msg → p.state.currentCommitedRequestCount.toNat + 1 < 2 ^ 64))
  | .reply msg =>
    p.state.faultToleranceCount.toNat ≤ p.state.nodeCount.toNat ∧ X.peerIdValid msg.fromPeerId = true ∧
      (ValidlySigned X p (.reply msg) →
        p.state.faultToleranceCount.toNat + 1 ≤ p.state.nodeCount.toNat ∧
          ((p.log.replyMessages.listAt (getMessageKey X (.reply msg))).length + 1 =
              p.state.nodeCount.toNat - p.state.faultToleranceCount.toNat - 1 →
            validUtf8 msg.result = true))
  | .publicKey key => X.peerIdValid key.fromPeerId = true
  | _ => True

/-! ## Checks -/

section Checks

variable {p : PBFTProtocol} {me : Bytes}

theorem verifySignature_of_invalid {sender signature : Bytes} {key : String}
    (h : X.peerIdValid sender = false) : p.verifySignature X sender signature key = none := by
  simp [verifySignature, Utils.Platform.peerIdFromBytes, h]

/-- The signature check of a well-formed sender returns whether the message is signed. -/
theorem verifySignature_of_valid {msg : MessageType} (h : X.peerIdValid msg.sender = true) :
    (ValidlySigned X p msg ∧
      p.verifySignature X msg.sender msg.signature (getMessageKey X msg) = some true) ∨
    (¬ ValidlySigned X p msg ∧
      p.verifySignature X msg.sender msg.signature (getMessageKey X msg) = some false) := by
  have hpeer : X.peerIdFromBytes msg.sender = some msg.sender := if_pos h
  unfold verifySignature getPublicKeyByPeerId
  rw [hpeer]
  cases hpk : p.consensusNodePk.lookup msg.sender with
  | none =>
    refine .inr ⟨?_, rfl⟩
    rintro ⟨pk, hsome, -⟩
    rw [hpk] at hsome
    cases hsome
  | some pk =>
    cases hsigned : X.verify pk msg.signature (asBytes (getMessageKey X msg)) with
    | true => exact .inl ⟨⟨pk, hpk, hsigned⟩, congrArg some hsigned⟩
    | false =>
      refine .inr ⟨?_, congrArg some hsigned⟩
      rintro ⟨pk', hsome, htrue⟩
      rw [hpk] at hsome
      rw [← Option.some.inj hsome, hsigned] at htrue
      cases htrue

/-- A computation followed by one that always returns, returns when the first one does. -/
theorem isSome_bind_of_forall {α β : Type} {x : Option α} {f : α → Option β}
    (h : ∀ a, (f a).isSome = true) : (x.bind f).isSome = true ↔ x.isSome = true := by
  cases x with
  | none => rfl
  | some a => exact iff_of_true (h a) rfl

/-- The head of four handlers: a check that goes on after the signature. -/
theorem isSome_verifySignature_bind {msg : MessageType} {rest : Bool → Option Bool}
    (hrest : (rest false).isSome = true) :
    ((p.verifySignature X msg.sender msg.signature (getMessageKey X msg)).bind rest).isSome = true ↔
      X.peerIdValid msg.sender = true ∧ (ValidlySigned X p msg → (rest true).isSome = true) := by
  cases hvalid : X.peerIdValid msg.sender with
  | false => simp [verifySignature_of_invalid hvalid]
  | true =>
    obtain ⟨hsigned, heq⟩ | ⟨hunsigned, heq⟩ := @verifySignature_of_valid X p msg hvalid
    · simp [heq, hsigned]
    · simp [heq, hunsigned, hrest]

theorem isSome_checkSequenceNumber {number : UInt64} :
    (p.checkSequenceNumber number).isSome = true ↔ WindowFits p := by
  have hhundred : (100 : UInt64).toNat = 100 := rfl
  have hsome := @isSome_checkedAdd p.state.stableCheckpoint.1 100
  rw [hhundred] at hsome
  unfold checkSequenceNumber WindowFits
  rw [← hsome]
  cases checkedAdd p.state.stableCheckpoint.1 100 with
  | none => rfl
  | some high => rfl

theorem checkSequenceNumber_eq {number : UInt64} (hfits : WindowFits p) :
    p.checkSequenceNumber number = some true ↔ InWindow p number := by
  have hhundred : (100 : UInt64).toNat = 100 := rfl
  unfold checkSequenceNumber InWindow
  cases hhigh : checkedAdd p.state.stableCheckpoint.1 100 with
  | none =>
    have hsome := @isSome_checkedAdd p.state.stableCheckpoint.1 100
    rw [hhigh, hhundred] at hsome
    exact absurd (hsome.2 hfits) (by decide)
  | some high =>
    have hnat := toNat_of_checkedAdd hhigh
    rw [hhundred] at hnat
    simp only [bind, pure, Option.bind_some, Option.some.injEq, Bool.not_eq_true', Bool.or_eq_false_iff,
      decide_eq_false_iff_not, UInt64.le_iff_toNat_le, UInt64.lt_iff_toNat_lt, hnat]
    omega

theorem checkRequestHash_eq_true_iff {number : UInt64} {mHash : String} :
    p.checkRequestHash X number mHash = true ↔ LoggedRequest X p number mHash := by
  constructor
  · exact checkRequestHash_eq_true
  · rintro ⟨m, hm, hhash⟩
    unfold checkRequestHash ConsensusLog.getLocalRequestBySequenceNumber
    rw [hm]
    exact beq_iff_eq.2 hhash

end Checks

/-! ## Handlers -/

/-- The state in which a handler runs: the quorum sizes are 64-bit numbers, no proposal has been
numbered, the node is not the primary, nothing is in progress, and a logged request has a primary. -/
structure Operational (X : Externals) (p : PBFTProtocol) : Prop where
  quorum : 2 * p.state.faultToleranceCount.toNat < 2 ^ 64
  unnumbered : p.state.currentSequenceNumber = 0
  backup : p.state.isPrimary = false
  idle : p.log.Idle
  primary : KnowsPrimary X p

section Handlers

variable {p : PBFTProtocol} {me : Bytes}

theorem Operational.threshold (h : Operational X p) :
    ∃ threshold, checkedMul 2 p.state.faultToleranceCount = some threshold ∧
      threshold.toNat = 2 * p.state.faultToleranceCount.toNat := by
  have hsome : (checkedMul 2 p.state.faultToleranceCount).isSome = true := isSome_checkedMul.2 h.quorum
  obtain ⟨threshold, hthreshold⟩ := Option.isSome_iff_exists.1 hsome
  exact ⟨threshold, hthreshold, toNat_threshold hthreshold⟩

theorem Operational.primary_of_logged (h : Operational X p) {number : UInt64} {request : Request}
    (hlogged : p.log.requests.lookup number = some request) :
    ∃ primary, X.peerIdFromBytes p.state.primary = some primary := by
  rcases h.primary with hempty | hprimary
  · rw [hempty, Finmap.lookup_empty] at hlogged
    cases hlogged
  · exact Option.ne_none_iff_exists'.1 hprimary

theorem isSome_verifyPreprepare {msg : PrePrepare} :
    (p.verifyPreprepare X msg).isSome = true ↔
      X.peerIdValid msg.fromPeerId = true ∧ (ValidlySigned X p (.prePrepare msg) → WindowFits p) := by
  have hbind := @isSome_verifySignature_bind X p (.prePrepare msg)
    (fun signed ↦ if !signed then some false else
      (p.checkSequenceNumber msg.number).bind fun inWindow ↦ some (inWindow && p.state.view == msg.view))
    rfl
  refine hbind.trans (and_congr Iff.rfl (forall_congr' fun _ ↦ ?_))
  exact (isSome_bind_of_forall fun _ ↦ rfl).trans isSome_checkSequenceNumber

/-- The end of the checks of a vote: the watermark check is skipped in one phase of the request. -/
theorem isSome_window_unless {skipped : Prop} [Decidable skipped] {number : UInt64} {rest : Bool → Bool} :
    (if skipped then some false
      else (p.checkSequenceNumber number).bind fun inWindow ↦ some (rest inWindow)).isSome = true ↔
      (¬ skipped → WindowFits p) := by
  by_cases hskipped : skipped
  · rw [if_pos hskipped]
    exact iff_of_true rfl fun h ↦ absurd hskipped h
  · rw [if_neg hskipped, isSome_bind_of_forall fun _ ↦ rfl, isSome_checkSequenceNumber]
    exact ⟨fun h _ ↦ h, fun h ↦ h hskipped⟩

theorem isSome_verifyPrepare {msg : Prepare} :
    (p.verifyPrepare X msg).isSome = true ↔ Survives X p (.prepare msg) := by
  have hbind := @isSome_verifySignature_bind X p (.prepare msg)
    (fun signed ↦ if !signed then some false else
      if p.log.getRequestPhaseState msg.mHash = some .prepared then some false else
        (p.checkSequenceNumber msg.number).bind fun inWindow ↦
          some (inWindow && p.state.view == msg.view && p.checkRequestHash X msg.number msg.mHash))
    rfl
  refine hbind.trans (and_congr Iff.rfl (forall_congr' fun _ ↦ ?_))
  exact isSome_window_unless

/-- The checks of a Commit after the count of the Commits that are already logged. -/
theorem verifyCommit_of_missing (hp : Operational X p) {msg : Commit}
    (hmissing : (p.log.messages.listAt (getMessageKey X (.commit msg))).length <
      2 * p.state.faultToleranceCount.toNat) :
    p.verifyCommit X msg =
      (p.verifySignature X msg.fromPeerId msg.signature (getMessageKey X (.commit msg))).bind fun signed ↦
        if !signed then some false else
        if p.log.getRequestPhaseState msg.mHash = some .commited then some false else
          (p.checkSequenceNumber msg.number).bind fun inWindow ↦
            some (inWindow && p.state.view == msg.view && p.checkRequestHash X msg.number msg.mHash) := by
  obtain ⟨threshold, hthreshold, hnat⟩ := hp.threshold
  have hcount : ¬ threshold.toNat ≤ p.log.getLocalMessagesCountByHash (getMessageKey X (.commit msg)) := by
    rw [hnat]
    exact not_le.2 hmissing
  simp only [verifyCommit, bind, pure, hthreshold, Option.bind_some, if_neg hcount]

theorem verifyCommit_of_complete (hp : Operational X p) {msg : Commit}
    (hcomplete : 2 * p.state.faultToleranceCount.toNat ≤
      (p.log.messages.listAt (getMessageKey X (.commit msg))).length) :
    p.verifyCommit X msg = some false := by
  obtain ⟨threshold, hthreshold, hnat⟩ := hp.threshold
  have hcount : threshold.toNat ≤ p.log.getLocalMessagesCountByHash (getMessageKey X (.commit msg)) := by
    rw [hnat]
    exact hcomplete
  simp only [verifyCommit, bind, pure, hthreshold, Option.bind_some, if_pos hcount]

theorem isSome_verifyCommit (hp : Operational X p) {msg : Commit}
    (hmissing : (p.log.messages.listAt (getMessageKey X (.commit msg))).length <
      2 * p.state.faultToleranceCount.toNat) :
    (p.verifyCommit X msg).isSome = true ↔
      X.peerIdValid msg.fromPeerId = true ∧
        (ValidlySigned X p (.commit msg) →
          p.log.getRequestPhaseState msg.mHash ≠ some .commited → WindowFits p) := by
  rw [verifyCommit_of_missing hp hmissing]
  refine (@isSome_verifySignature_bind X p (.commit msg) _ rfl).trans ?_
  exact and_congr Iff.rfl (forall_congr' fun _ ↦ isSome_window_unless)

theorem verifyCommit_eq_true_iff (hp : Operational X p) {msg : Commit}
    (hmissing : (p.log.messages.listAt (getMessageKey X (.commit msg))).length <
      2 * p.state.faultToleranceCount.toNat)
    (hvalid : X.peerIdValid msg.fromPeerId = true) (hsigned : ValidlySigned X p (.commit msg))
    (hphase : p.log.getRequestPhaseState msg.mHash ≠ some .commited) (hfits : WindowFits p) :
    p.verifyCommit X msg = some true ↔
      InWindow p msg.number ∧ p.state.view = msg.view ∧ LoggedRequest X p msg.number msg.mHash := by
  have hverify : p.verifySignature X msg.fromPeerId msg.signature (getMessageKey X (.commit msg)) =
      some true := by
    obtain ⟨-, heq⟩ | ⟨hunsigned, -⟩ := @verifySignature_of_valid X p (.commit msg) hvalid
    · exact heq
    · exact absurd hsigned hunsigned
  obtain ⟨inWindow, hinWindow⟩ := Option.isSome_iff_exists.1
    ((@isSome_checkSequenceNumber p msg.number).2 hfits)
  rw [verifyCommit_of_missing hp hmissing, hverify, ← checkSequenceNumber_eq hfits, hinWindow,
    ← checkRequestHash_eq_true_iff]
  simp [hphase, and_assoc]

theorem handlePreprepare_isSome {msg : PrePrepare} :
    (p.handlePreprepare X me msg).isSome = true ↔ Survives X p (.prePrepare msg) := by
  simp only [handlePreprepare, Survives]
  cases hjson : X.requestOfJson msg.m with
  | none => simp
  | some request =>
    -- Taking the request changes neither the keys nor the window.
    have hverify : ((p.takePreprepare X msg request).verifyPreprepare X msg).isSome = true ↔
        X.peerIdValid msg.fromPeerId = true ∧ (ValidlySigned X p (.prePrepare msg) → WindowFits p) :=
      isSome_verifyPreprepare
    rw [← hverify, Option.isSome_some, eq_self, true_and]
    simp only [bind, Option.bind_some]
    refine isSome_bind_of_forall fun accepted ↦ ?_
    cases accepted with
    | true => rfl
    | false => rfl

theorem acceptPrepare_isSome (hp : Operational X p) {msg : Prepare} :
    (p.acceptPrepare X me msg).isSome = true := by
  obtain ⟨threshold, hthreshold, -⟩ := hp.threshold
  simp only [acceptPrepare, bind, pure, hthreshold, Option.bind_some]
  split <;> rfl

theorem handlePrepare_isSome (hp : Operational X p) {msg : Prepare} :
    (p.handlePrepare X me msg).isSome = true ↔ Survives X p (.prepare msg) := by
  refine Iff.trans (isSome_bind_of_forall ?_) isSome_verifyPrepare
  intro accepted
  cases accepted with
  | true => exact acceptPrepare_isSome hp
  | false => rfl

theorem completeCommit_isSome (hp : Operational X p) {msg : Commit} {m : Request}
    (hlogged : p.log.requests.lookup msg.number = some m) (log : ConsensusLog) :
    ({ p with log := log }.completeCommit X me msg m).isSome = true ↔
      p.state.currentCommitedRequestCount.toNat + 1 < 2 ^ 64 := by
  obtain ⟨primary, hprimary⟩ := hp.primary_of_logged hlogged
  have hsome := @isSome_checkedAdd p.state.currentCommitedRequestCount 1
  have hone : (1 : UInt64).toNat = 1 := rfl
  rw [hone] at hsome
  rw [← hsome]
  refine isSome_bind_of_forall fun count ↦ ?_
  simp [hprimary]

/-- An accepted Commit aborts the node only as the last one missing. -/
theorem acceptCommit_isSome (hp : Operational X p) {msg : Commit} {m : Request}
    (hlogged : p.log.requests.lookup msg.number = some m)
    (hmissing : (p.log.messages.listAt (getMessageKey X (.commit msg))).length <
      2 * p.state.faultToleranceCount.toNat) :
    (p.acceptCommit X me msg m).isSome = true ↔
      ((p.log.messages.listAt (getMessageKey X (.commit msg))).length + 1 =
          2 * p.state.faultToleranceCount.toNat →
        p.state.currentCommitedRequestCount.toNat + 1 < 2 ^ 64) := by
  obtain ⟨threshold, hthreshold, hnat⟩ := hp.threshold
  have hcount : (p.log.recordMessageHandler X (.commit msg)).getLocalMessagesCountByHash
      (getMessageKey X (.commit msg)) =
        (p.log.messages.listAt (getMessageKey X (.commit msg))).length + 1 := by
    simp [ConsensusLog.getLocalMessagesCountByHash, ConsensusLog.recordMessageHandler,
      ConsensusLog.recordCommit, ConsensusLog.recordPhaseMessage]
  simp only [acceptCommit, bind, pure, hthreshold, Option.bind_some, hcount, hnat]
  rw [if_neg (by omega)]
  by_cases hlast : (p.log.messages.listAt (getMessageKey X (.commit msg))).length + 1 =
      2 * p.state.faultToleranceCount.toNat
  · rw [if_pos hlast, completeCommit_isSome hp hlogged]
    exact ⟨fun h _ ↦ h, fun h ↦ h hlast⟩
  · rw [if_neg hlast]
    exact iff_of_true rfl fun h ↦ absurd h hlast

theorem handleCommit_of_true {msg : Commit} {m : Request} (h : p.verifyCommit X msg = some true)
    (hlogged : p.log.requests.lookup msg.number = some m) :
    p.handleCommit X me msg = p.acceptCommit X me msg m := by
  unfold handleCommit ConsensusLog.getLocalRequestBySequenceNumber
  rw [h, hlogged]
  rfl

theorem handleCommit_isSome (hp : Operational X p) {msg : Commit} :
    (p.handleCommit X me msg).isSome = true ↔ Survives X p (.commit msg) := by
  by_cases hmissing : (p.log.messages.listAt (getMessageKey X (.commit msg))).length <
      2 * p.state.faultToleranceCount.toNat
  case neg =>
    rw [handleCommit_of_rejected (verifyCommit_of_complete hp (not_lt.1 hmissing))]
    exact iff_of_true rfl fun h ↦ absurd h hmissing
  case pos =>
    -- Both sides need the checks to return; an accepted Commit is in the window and logged.
    have hverify := @isSome_verifyCommit X p hp msg hmissing
    constructor
    · intro hreturns _
      have hchecked : (p.verifyCommit X msg).isSome = true := by
        cases hcheck : p.verifyCommit X msg with
        | none => simp [handleCommit, hcheck] at hreturns
        | some accepted => rfl
      obtain ⟨hvalid, hwindow⟩ := hverify.1 hchecked
      refine ⟨hvalid, fun hsigned hphase ↦ ⟨hwindow hsigned hphase, ?_⟩⟩
      rintro ⟨hin, hview, ⟨m, hlogged, hhash⟩, hlast⟩
      have htrue := (verifyCommit_eq_true_iff hp hmissing hvalid hsigned hphase
        (hwindow hsigned hphase)).2 ⟨hin, hview, m, hlogged, hhash⟩
      rw [handleCommit_of_true htrue hlogged] at hreturns
      exact (acceptCommit_isSome hp hlogged hmissing).1 hreturns hlast
    · intro hsurvives
      obtain ⟨hvalid, hrest⟩ := hsurvives hmissing
      have hchecked := hverify.2 ⟨hvalid, fun hsigned hphase ↦ (hrest hsigned hphase).1⟩
      obtain ⟨accepted, haccepted⟩ := Option.isSome_iff_exists.1 hchecked
      cases accepted with
      | false => rw [handleCommit_of_rejected haccepted]; rfl
      | true =>
        obtain ⟨hsigned, hphase, hview, m, hlogged, hhash⟩ := verifyCommit_eq_true haccepted
        obtain ⟨hfits, hcount⟩ := hrest hsigned hphase
        have hin := (verifyCommit_eq_true_iff hp hmissing hvalid hsigned hphase hfits).1 haccepted
        rw [handleCommit_of_true haccepted hlogged]
        refine (acceptCommit_isSome hp hlogged hmissing).2 fun hlast ↦ hcount ?_
        exact ⟨hin.1, hin.2.1, hin.2.2, hlast⟩

theorem acceptReply_isSome {msg : Reply}
    (hnodes : p.state.faultToleranceCount.toNat ≤ p.state.nodeCount.toNat) :
    (p.acceptReply X msg).isSome = true ↔
      p.state.faultToleranceCount.toNat + 1 ≤ p.state.nodeCount.toNat ∧
        ((p.log.replyMessages.listAt (getMessageKey X (.reply msg))).length + 1 =
            p.state.nodeCount.toNat - p.state.faultToleranceCount.toNat - 1 →
          validUtf8 msg.result = true) := by
  obtain ⟨difference, hdifference⟩ := Option.isSome_iff_exists.1 (isSome_checkedSub.2 hnodes)
  have hnat := toNat_of_checkedSub hdifference
  have hone : (1 : UInt64).toNat = 1 := rfl
  have hcount : (p.log.recordMessageHandler X (.reply msg)).getLocalReplyMessagesCountByHash
      (getMessageKey X (.reply msg)) =
        (p.log.replyMessages.listAt (getMessageKey X (.reply msg))).length + 1 := by
    simp [ConsensusLog.getLocalReplyMessagesCountByHash, ConsensusLog.recordMessageHandler,
      ConsensusLog.recordReply]
  have hsome := @isSome_checkedSub difference 1
  rw [hone, hnat] at hsome
  simp only [acceptReply, bind, pure, hdifference, Option.bind_some, hcount]
  cases hthreshold : checkedSub difference 1 with
  | none =>
    rw [hthreshold] at hsome
    refine iff_of_false Bool.false_ne_true ?_
    rintro ⟨hlt, -⟩
    exact absurd (hsome.2 (by omega)) (by decide)
  | some threshold =>
    rw [hthreshold] at hsome
    have hlt := hsome.1 rfl
    have hthresholdNat := toNat_of_checkedSub hthreshold
    rw [hone, hnat] at hthresholdNat
    simp only [Option.bind_some, hthresholdNat]
    rw [and_iff_right (by omega)]
    split
    case isTrue hlast =>
      cases validUtf8 msg.result with
      | true => simp
      | false => simp [hlast]
    case isFalse hnotLast => exact iff_of_true rfl fun h ↦ absurd h hnotLast

theorem handleReply_isSome {msg : Reply} :
    (p.handleReply X msg).isSome = true ↔ Survives X p (.reply msg) := by
  have hsome := @isSome_checkedSub p.state.nodeCount p.state.faultToleranceCount
  simp only [handleReply, verifyReply, Survives, bind, pure]
  cases hdifference : checkedSub p.state.nodeCount p.state.faultToleranceCount with
  | none =>
    rw [hdifference] at hsome
    refine iff_of_false Bool.false_ne_true ?_
    rintro ⟨hnodes, -⟩
    exact absurd (hsome.2 hnodes) (by decide)
  | some difference =>
    rw [hdifference] at hsome
    have hnodes := hsome.1 rfl
    rw [and_iff_right hnodes, Option.bind_some]
    cases hvalid : X.peerIdValid msg.fromPeerId with
    | false => simp [verifySignature_of_invalid hvalid]
    | true =>
      rw [and_iff_right rfl]
      have hcheck := @verifySignature_of_valid X p (.reply msg) hvalid
      rcases hcheck with ⟨hsigned, heq⟩ | ⟨hunsigned, heq⟩
      · have heq' : p.verifySignature X msg.fromPeerId msg.signature (getMessageKey X (.reply msg)) =
            some true := heq
        rw [heq', forall_prop_of_true hsigned]
        exact acceptReply_isSome hnodes
      · have heq' : p.verifySignature X msg.fromPeerId msg.signature (getMessageKey X (.reply msg)) =
            some false := heq
        rw [heq']
        exact iff_of_true rfl fun h ↦ absurd h hunsigned

theorem handleRequest_isSome (hp : Operational X p) {request : Request} :
    (p.handleRequest X me request).isSome = true := by
  have hsome : (checkedAdd p.state.currentSequenceNumber 1).isSome = true := by
    rw [hp.unnumbered]
    rfl
  exact (isSome_bind_of_forall fun _ ↦ rfl).2 hsome

theorem handleCheckpoint_isSome (hp : Operational X p) {msg : CheckPoint} :
    (p.handleCheckpoint X msg).isSome = true := by
  obtain ⟨threshold, hthreshold, -⟩ := hp.threshold
  simp only [handleCheckpoint, bind, pure, hthreshold, Option.bind_some]
  split <;> rfl

/-- A ViewChange that is recorded asks for a later view, so the next view is a 64-bit number. -/
theorem handleViewchange_isSome (hp : Operational X p) {msg : ViewChange MessageType} :
    (p.handleViewchange X me msg).isSome = true := by
  obtain ⟨threshold, hthreshold, -⟩ := hp.threshold
  have hproof : (p.log.recordMessageHandler X (.viewChange msg)).getProofMessages X = some ⟨[], []⟩ :=
    ConsensusLog.Idle.getProofMessages ⟨hp.idle.requestMap, hp.idle.currentRequests⟩
  simp only [handleViewchange, bind, pure]
  split
  case isTrue => rfl
  case isFalse hlater =>
    have hone : (1 : UInt64).toNat = 1 := rfl
    have hnext : (checkedAdd p.state.view 1).isSome = true := by
      have hlt := msg.newView.toNat_lt
      rw [UInt64.le_iff_toNat_le] at hlater
      rw [isSome_checkedAdd, hone]
      omega
    obtain ⟨newView, hnewView⟩ := Option.isSome_iff_exists.1 hnext
    split
    case isTrue => simp [broadcastViewchange, hthreshold, hproof, hnewView]
    case isFalse => simp [newviewQuorum, hp.backup]

theorem storagePublicKeyByPeerId_isSome {key : PublicKey} :
    (p.storagePublicKeyByPeerId X key).isSome = true ↔ X.peerIdValid key.fromPeerId = true := by
  refine (isSome_bind_of_forall fun _ ↦ rfl).trans ?_
  unfold Utils.Platform.peerIdFromBytes
  split <;> simp_all

end Handlers

/-- The handler of a message returns exactly when the message and the state give it what it relies on. -/
theorem Operational.isSome_step {me : Bytes} {p : PBFTProtocol} (hp : Operational X p)
    (msg : MessageType) : (step X me p (.message msg)).isSome = true ↔ Survives X p msg := by
  cases msg with
  | request request => exact iff_of_true (handleRequest_isSome hp) trivial
  | prePrepare msg => exact handlePreprepare_isSome
  | prepare msg => exact handlePrepare_isSome hp
  | commit msg => exact handleCommit_isSome hp
  | reply msg => exact handleReply_isSome
  | checkPoint msg => exact iff_of_true (handleCheckpoint_isSome hp) trivial
  | viewChange msg => exact iff_of_true (handleViewchange_isSome hp) trivial
  | newView msg => exact iff_of_true rfl trivial
  | publicKey key => exact storagePublicKeyByPeerId_isSome
  | distributePK => exact iff_of_true rfl trivial

/-! ## Reachable states -/

theorem step_isPrimary {me : Bytes} {p p' : PBFTProtocol} {event : Event} {out : Answer}
    (h : step X me p event = some (p', out)) : p'.state.isPrimary = p.state.isPrimary := by
  cases step_effect h <;> rfl

theorem Operational.start {f : UInt64} {keypair : Bytes} (hf : 2 * f.toNat < 2 ^ 64) :
    Operational X (PBFTProtocol.new f keypair) where
  quorum := hf
  unnumbered := rfl
  backup := rfl
  idle := ⟨rfl, rfl⟩
  primary := .inl rfl

theorem Operational.step {me : Bytes} (hme : X.peerIdFromBytes me ≠ none) {p p' : PBFTProtocol}
    {event : Event} {out : Answer} (htaken : step X me p event = some (p', out))
    (h : Operational X p) : Operational X p' where
  quorum := by
    rw [step_faultToleranceCount htaken]
    exact h.quorum
  unnumbered := (step_currentSequenceNumber htaken).trans h.unnumbered
  backup := (step_isPrimary htaken).trans h.backup
  idle := h.idle.step htaken
  primary := h.primary.step hme htaken

/-- In every reachable state, a message leaves the node alive exactly when it survives the places where
its handler can abort. -/
theorem returns_iff_survives {f : UInt64} {keypair me : Bytes} (hf : 2 * f.toNat < 2 ^ 64)
    (hme : X.peerIdFromBytes me ≠ none) {run : PbftRun} {p : PBFTProtocol}
    (hrun : IsRun (step X me) (PBFTProtocol.new f keypair) run p) (msg : MessageType) :
    (∃ p' out, p.consensusProtocolMessageHandler X me msg = some (p', out)) ↔ Survives X p msg := by
  have hp : Operational X p := by
    apply IsRun.invariant_of_forall (Operational X) (.start hf) ?_ hrun fun _ _ ↦ trivial
    intro t hbefore _ htaken
    exact hbefore.step hme htaken
  have hiff := @Operational.isSome_step X me p hp msg
  rw [← hiff, Option.isSome_iff_exists, Prod.exists]
  rfl

/-- A signed proposal leaves a replica that knows its sender alive. -/
theorem returns_iff_survives_proposal :
    (∃ run, IsRun (step .transparent [1]) (PBFTProtocol.new 1 [1]) run introducedNode) ∧
      Survives .transparent introducedNode (.prePrepare (slotPreprepare 1 [2] ⟨"a"⟩)) ∧
      ∃ p' out, introducedNode.consensusProtocolMessageHandler .transparent [1]
        (.prePrepare (slotPreprepare 1 [2] ⟨"a"⟩)) = some (p', out) := by
  obtain ⟨run, hrun⟩ := isRun_introducedNode
  have hsurvives : Survives .transparent introducedNode (.prePrepare (slotPreprepare 1 [2] ⟨"a"⟩)) := by
    refine ⟨by decide +kernel, rfl, fun _ ↦ ?_⟩
    change introducedNode.state.stableCheckpoint.1.toNat + 100 < 2 ^ 64
    decide +kernel
  exact ⟨⟨run, hrun⟩, hsurvives,
    (returns_iff_survives (by decide) (by decide +kernel) hrun _).2 hsurvives⟩

/-- A replica that knows one peer and has taken its last possible checkpoint for stable. -/
def exhaustedNode : PBFTProtocol :=
  final (step .transparent [1]) (PBFTProtocol.new 1 [1])
    (.message (.publicKey ⟨[2], [2]⟩) :: checkpointEvents [(2 ^ 64 - 1, [2]), (2 ^ 64 - 1, [3])])

theorem isRun_exhaustedNode :
    ∃ run, IsRun (step .transparent [1]) (PBFTProtocol.new 1 [1]) run exhaustedNode :=
  ⟨_, .of_isSome (by decide +kernel)⟩

/-- A proposal without a request aborts a node that has just started, and after two CheckPoints any
signed Prepare aborts it. -/
theorem not_returns_of_empty_proposal :
    (∃ run, IsRun (step .transparent [1]) (PBFTProtocol.new 1 [1]) run startedNode) ∧
      (¬ ∃ p' out, startedNode.consensusProtocolMessageHandler .transparent [1]
        (.prePrepare { roundPreprepare [4] ⟨"a"⟩ with m := [] }) = some (p', out)) ∧
      (∃ run, IsRun (step .transparent [1]) (PBFTProtocol.new 1 [1]) run exhaustedNode) ∧
      ¬ ∃ p' out, exhaustedNode.consensusProtocolMessageHandler .transparent [1]
        (.prepare (slotPrepare 1 [2] ⟨"a"⟩)) = some (p', out) := by
  have hempty : startedNode.consensusProtocolMessageHandler .transparent [1]
      (.prePrepare { roundPreprepare [4] ⟨"a"⟩ with m := [] }) = none :=
    Option.isNone_iff_eq_none.1 (by decide +kernel)
  have hoverflow : exhaustedNode.consensusProtocolMessageHandler .transparent [1]
      (.prepare (slotPrepare 1 [2] ⟨"a"⟩)) = none := Option.isNone_iff_eq_none.1 (by decide +kernel)
  refine ⟨isRun_startedNode, ?_, isRun_exhaustedNode, ?_⟩
  · rw [hempty]
    simp
  · rw [hoverflow]
    simp

end BFTDiagnosis.Pbft
