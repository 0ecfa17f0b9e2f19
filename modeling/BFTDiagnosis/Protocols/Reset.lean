import BFTDiagnosis.Hotstuff.Reset
import BFTDiagnosis.Pbft.Reset

/-!
# Resets between two test items

On `ProtocolStart` the actuator resets the protocol of its node, so that a test item begins with a fresh
protocol. The protocols of HotStuff come back with the wrong handle for their view timers, and PBFT does not
reset itself at all.
-/

namespace BFTDiagnosis.Protocols

open Components Utils

/-- After any calls, a reset makes no protocol of HotStuff a fresh one with the same handle, and it makes a PBFT
protocol a fresh one with the same key pair exactly when the calls have left nothing behind that shows. -/
theorem reset_fresh_iff (me : Bytes) :
    (∀ (X : BasicHotstuff.Externals) (peerId drawn drawn' : String) (handle allocated fresh : ℕ)
      (run : List (Transition (Hotstuff.Timed BasicHotstuff.BasicHotstuffProtocol) _
        (Response BasicHotstuff.Payload × List ℕ))) (s : Hotstuff.Timed BasicHotstuff.BasicHotstuffProtocol),
      X.peerIdValid me = true → handle < allocated →
      IsRun (BasicHotstuff.call X me) (.initTimeoutNotify (.new 1 peerId) handle allocated) run s →
        ¬ Indistinguishable (BasicHotstuff.call X me) (BasicHotstuff.protocolReset s drawn)
          (.initTimeoutNotify (.new 1 drawn') handle fresh)) ∧
    (∀ (X : ChainHotstuff.Externals) (other : Bytes) (peerId drawn drawn' : String)
      (handle allocated fresh : ℕ) (run : List (Transition (Hotstuff.Timed ChainHotstuff.ChainHotstuffProtocol) _
        (Response ChainHotstuff.Payload × List ℕ))) (s : Hotstuff.Timed ChainHotstuff.ChainHotstuffProtocol),
      X.peerIdValid me = true → X.peerIdValid other = true → other ≠ me → handle < allocated →
      IsRun (ChainHotstuff.call X me) (.initTimeoutNotify (.new 1 peerId) handle allocated) run s →
        ¬ Indistinguishable (ChainHotstuff.call X me) (ChainHotstuff.protocolReset s drawn)
          (.initTimeoutNotify (.new 1 drawn') handle fresh)) ∧
    ∀ (X : Pbft.Externals) (keypair : Bytes) (request : Request)
      (run : List (Transition Pbft.PBFTProtocol _ (Response Pbft.Payload))) (p : Pbft.PBFTProtocol),
      X.CollisionFree → (∀ message, X.verify (X.publicKey keypair) (X.sign keypair message) message = true) →
      X.requestOfJson (X.requestJson request) = some request → me ≠ [] → X.peerIdValid me = true →
      IsRun (Pbft.call X me) (.new 1 keypair) run p →
        (Indistinguishable (Pbft.call X me) p.protocolReset (.new 1 keypair) ↔ Pbft.Untouched p) := by
  refine ⟨?_, ?_, ?_⟩
  · intro X peerId drawn drawn' handle allocated fresh run s hme hmade hrun
    exact BasicHotstuff.not_reset_indistinguishable hme hmade peerId drawn drawn' hrun fresh
  · intro X other peerId drawn drawn' handle allocated fresh run s hme hother hne hmade hrun
    exact ChainHotstuff.not_reset_indistinguishable hme hother hne hmade peerId drawn drawn' hrun fresh
  · intro X keypair request run p hX hsign hjson hme hvalid hrun
    exact Pbft.reset_indistinguishable_iff hX hsign hjson hme hvalid hrun

/-- A NewView for view 0 with one PrePrepare, and a CheckPoint for number 0. -/
def unseenCalls : List (Call Pbft.MessageType (Finset PeerId)) :=
  [.consensusProtocolMessageHandler (.newView
      { Pbft.plainNewview 0 [] with preprepares := [Pbft.ConsensusLog.nullPreprepare 0 1] }),
    .consensusProtocolMessageHandler (.checkPoint ⟨0, "d", [2], ""⟩)]

theorem untouched_unseenCalls :
    Pbft.Untouched (final (Pbft.call .transparent [1]) (.new 1 [1]) unseenCalls) where
  taken := rfl
  primary := rfl
  view := rfl
  keys := rfl
  stable := rfl
  viewchanges := rfl
  checkpoints number digest hnumber := by
    refine HashMap.listAt_pushAt_of_ne ∅ _ fun heq ↦ hnumber ?_
    exact (Prod.mk.inj heq).1

/-- Nodes that are reset before any other call, and a PBFT node that has logged messages which do not show. -/
theorem reset_fresh_iff_unseenCalls :
    (¬ Indistinguishable (BasicHotstuff.call .transparent [3])
      (BasicHotstuff.protocolReset (.initTimeoutNotify (.new 1 "") 0 1) "")
      (.initTimeoutNotify (.new 1 "") 0 1)) ∧
    (¬ Indistinguishable (ChainHotstuff.call .transparent [3])
      (ChainHotstuff.protocolReset (.initTimeoutNotify (.new 1 "") 0 1) "")
      (.initTimeoutNotify (.new 1 "") 0 1)) ∧
    Indistinguishable (Pbft.call .transparent [1])
      (final (Pbft.call .transparent [1]) (.new 1 [1]) unseenCalls).protocolReset (.new 1 [1]) := by
  refine ⟨?_, ?_, ?_⟩
  · exact (reset_fresh_iff [3]).1 .transparent "" "" "" 0 1 1 [] _ rfl (by decide) .nil
  · exact (reset_fresh_iff [3]).2.1 .transparent [4] "" "" "" 0 1 1 [] _ rfl rfl (by decide) (by decide) .nil
  · exact ((reset_fresh_iff [1]).2.2 .transparent [1] ⟨"a"⟩ _ _ Platform.collisionFree_transparent
      (fun _ ↦ beq_self_eq_true _) (by decide +kernel) (by decide) rfl
      (IsRun.of_isSome (by decide +kernel))).2 untouched_unseenCalls

/-- After a reset, HotStuff nodes that learn of a single node start a view timer for the handle 1 instead of the
given handle 0, and a PBFT node that has handled one request still holds it for taken. -/
theorem not_reset_fresh :
    (∃ run s, IsRun (BasicHotstuff.call .transparent [3]) (.initTimeoutNotify (.new 1 "") 0 1) run s ∧
      ¬ Indistinguishable (BasicHotstuff.call .transparent [3]) (BasicHotstuff.protocolReset s "")
        (.initTimeoutNotify (.new 1 "") 0 1)) ∧
    (∃ run s, IsRun (ChainHotstuff.call .transparent [3]) (.initTimeoutNotify (.new 1 "") 0 1) run s ∧
      ¬ Indistinguishable (ChainHotstuff.call .transparent [3]) (ChainHotstuff.protocolReset s "")
        (.initTimeoutNotify (.new 1 "") 0 1)) ∧
    ∃ run p, IsRun (Pbft.call .transparent [1]) (.new 1 [1]) run p ∧
      ¬ Indistinguishable (Pbft.call .transparent [1]) p.protocolReset (.new 1 [1]) := by
  refine ⟨⟨[], _, .nil, fun h ↦ ?_⟩, ⟨[], _, .nil, fun h ↦ ?_⟩, ?_⟩
  · have htimers := congrArg (List.map (Option.map Prod.snd)) (h [.consensusProtocolMessageHandler
      (.consensusNodePKsInfo (Hotstuff.loneNode [3]), Hotstuff.loneNode [3])])
    exact absurd htimers (by decide +kernel)
  · have htimers := congrArg (List.map (Option.map Prod.snd)) (h [.consensusProtocolMessageHandler
      (.consensusNodePKsInfo (Hotstuff.loneNode [4]), Hotstuff.loneNode [4])])
    exact absurd htimers (by decide +kernel)
  · refine ⟨_, final (Pbft.call .transparent [1]) (.new 1 [1])
      [.consensusProtocolMessageHandler (.request ⟨"a"⟩)], .of_isSome (by decide +kernel), fun h ↦ ?_⟩
    have htaken := Pbft.decision_checkTakenRequest h [97]
    exact absurd htaken (by decide +kernel)

end BFTDiagnosis.Protocols
