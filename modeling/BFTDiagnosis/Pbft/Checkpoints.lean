import BFTDiagnosis.Pbft.ViewChange

/-!
# Stable checkpoints of PBFT

`handle_checkpoint` records a CheckPoint under its number and digest and makes it stable when the list
under this key has `2 * f` entries. It compares the number with nothing, so an older checkpoint that is
completed late replaces a newer one, and it counts entries, so one peer can complete a checkpoint alone.
Both are decided by the CheckPoint that completes the list: the exact condition on it is given under
which stable checkpoints move forward and are certified by `2 * f` peers.
-/

namespace BFTDiagnosis.Pbft

open Components Word PBFTProtocol

variable {X : Externals}

/-- The key under which the log records a CheckPoint. -/
def CheckPoint.key (msg : CheckPoint) : UInt64 × String := (msg.currentMaxNumber, msg.checkpointStateDigest)

def Event.checkpoint : Event → Option CheckPoint
  | .message (.checkPoint msg) => some msg
  | _ => none

theorem Event.checkpoint_eq_some {event : Event} {msg : CheckPoint} (h : event.checkpoint = some msg) :
    event = .message (.checkPoint msg) := by
  unfold Event.checkpoint at h
  split at h
  case h_1 msg' => rw [Option.some.inj h]
  case h_2 => cases h

/-- The CheckPoint is the last one missing for its number and digest. -/
def CompletesCheckpoint (p : PBFTProtocol) (msg : CheckPoint) : Prop :=
  (p.log.checkpoints.listAt msg.key).length + 1 = 2 * p.state.faultToleranceCount.toNat

/-! ## What a call does to the checkpoints -/

section Step

variable {me : Bytes} {p p' : PBFTProtocol} {event : Event} {out : Answer}

/-- Only a CheckPoint writes the stable checkpoint. -/
theorem step_stableCheckpoint_of_other (h : step X me p event = some (p', out))
    (hevent : event.checkpoint = none) : p'.state.stableCheckpoint = p.state.stableCheckpoint := by
  cases step_effect h with
  | checkpointStable msg => cases hevent
  | _ => rfl

theorem getCheckpointCount_recorded (log : ConsensusLog) (msg : CheckPoint) :
    (log.recordMessageHandler X (.checkPoint msg)).getCheckpointCount msg.currentMaxNumber
      msg.checkpointStateDigest = (log.checkpoints.listAt msg.key).length + 1 := by
  change ((log.checkpoints.pushAt msg.key msg).listAt msg.key).length = _
  rw [HashMap.listAt_pushAt_self, List.length_append, List.length_singleton]

/-- A CheckPoint that completes its list becomes stable and stays in the log; another one changes
nothing but the log. -/
theorem step_checkpoint {msg : CheckPoint}
    (h : step X me p (.message (.checkPoint msg)) = some (p', out)) :
    (CompletesCheckpoint p msg ∧ p'.state.stableCheckpoint = msg.key ∧
      p'.log.checkpoints.listAt msg.key = p.log.checkpoints.listAt msg.key ++ [msg]) ∨
    (¬ CompletesCheckpoint p msg ∧ p'.state.stableCheckpoint = p.state.stableCheckpoint) := by
  have hrecorded : (p.log.recordCheckpoint msg).checkpoints.listAt msg.key =
      p.log.checkpoints.listAt msg.key ++ [msg] := HashMap.listAt_pushAt_self _ _ _
  change p.handleCheckpoint X msg = _ at h
  simp only [handleCheckpoint, getCheckpointCount_recorded, bind, pure, Option.bind_eq_some_iff] at h
  obtain ⟨threshold, hthreshold, hrest⟩ := h
  rw [toNat_threshold hthreshold] at hrest
  split at hrest
  case isTrue hcompletes =>
    obtain ⟨rfl, -⟩ := Prod.mk.inj (Option.some.inj hrest)
    refine .inl ⟨hcompletes, rfl, ?_⟩
    -- Only checkpoints below the new stable one are discarded.
    have hkeep : (!decide (msg.key.1 < msg.currentMaxNumber)) = true := by
      simp [CheckPoint.key]
    rw [← hrecorded]
    simp only [ConsensusLog.discardMessagesBeforeStableCheckpoint, HashMap.listAt,
      HashMap.lookup_retain _ fun key : UInt64 × String ↦ !decide (key.1 < msg.currentMaxNumber), hkeep,
      if_true]
    rfl
  case isFalse hincomplete =>
    obtain ⟨rfl, -⟩ := Prod.mk.inj (Option.some.inj hrest)
    exact .inr ⟨hincomplete, rfl⟩

theorem mem_recordCheckpoint {log : ConsensusLog} {msg logged : CheckPoint} {key : UInt64 × String}
    (hmem : logged ∈ (log.recordCheckpoint msg).checkpoints.listAt key) :
    logged ∈ log.checkpoints.listAt key ∨ logged.key = key := by
  refine (HashMap.mem_listAt_pushAt hmem).imp_right ?_
  rintro ⟨hkey, rfl⟩
  exact hkey.symm

/-- A CheckPoint in the log was there before, or has just been recorded under its key. -/
theorem step_logged_checkpoint (h : step X me p event = some (p', out)) {key : UInt64 × String}
    {logged : CheckPoint} (hmem : logged ∈ p'.log.checkpoints.listAt key) :
    logged ∈ p.log.checkpoints.listAt key ∨ logged.key = key := by
  cases step_effect h with
  | request request number preprepare hnumber =>
    obtain ⟨requests, hframe⟩ := recordRequest_frame p.log number request
    rw [hframe] at hmem
    exact .inl hmem
  | preprepare msg request hjson haccepted =>
    obtain ⟨requests, hframe⟩ := recordRequest_frame p.log msg.number request
    rw [hframe] at hmem
    exact .inl hmem
  | commitQuorum => cases hmem
  | replyQuorum => cases hmem
  | checkpoint msg => exact mem_recordCheckpoint hmem
  | checkpointStable msg =>
    rcases HashMap.listAt_retain (p.log.recordCheckpoint msg).checkpoints
      (fun key ↦ !decide (key.1 < msg.currentMaxNumber)) key with hkept | hdropped
    · have hrecorded : logged ∈ (p.log.recordCheckpoint msg).checkpoints.listAt key := hkept ▸ hmem
      exact mem_recordCheckpoint hrecorded
    · have hnil : logged ∈ ([] : List CheckPoint) := hdropped ▸ hmem
      cases hnil
  | newview msg =>
    obtain ⟨messages, hframe⟩ :=
      @recordPreprepares_frame X msg.preprepares p.log.clearCurrentRequest
    rw [handleNewview, hframe] at hmem
    exact .inl hmem
  | _ => exact .inl hmem

end Step

/-! ## Certified checkpoints -/

/-- Every logged CheckPoint stands under its own key. -/
def CheckpointsKeyed (p : PBFTProtocol) : Prop :=
  ∀ key, ∀ msg ∈ p.log.checkpoints.listAt key, msg.key = key

theorem CheckpointsKeyed.step {me : Bytes} {p p' : PBFTProtocol} {event : Event} {out : Answer}
    (htaken : step X me p event = some (p', out)) (h : CheckpointsKeyed p) : CheckpointsKeyed p' := by
  intro key msg hmem
  rcases step_logged_checkpoint htaken hmem with hold | hkey
  · exact h key msg hold
  · exact hkey

/-- The peers that have a CheckPoint for exactly this number and digest in the log. -/
def certifiers (p : PBFTProtocol) (key : UInt64 × String) : Finset Bytes :=
  (((p.log.checkpoints.listAt key).filter fun msg ↦ msg.key = key).map CheckPoint.fromPeerId).toFinset

theorem CheckpointsKeyed.certifiers_eq {p : PBFTProtocol} (h : CheckpointsKeyed p)
    (key : UInt64 × String) :
    certifiers p key = ((p.log.checkpoints.listAt key).map CheckPoint.fromPeerId).toFinset := by
  have hall : (p.log.checkpoints.listAt key).filter (fun msg ↦ msg.key = key) =
      p.log.checkpoints.listAt key := by
    apply List.filter_eq_self.2
    intro msg hmem
    exact decide_eq_true (h key msg hmem)
  rw [certifiers, hall]

/-- The number of the stable checkpoint does not decrease, and another checkpoint becomes stable only
when the log holds CheckPoints for exactly its number and digest from `2 * f` different peers. -/
structure CertifiedCheckpoint (f : UInt64) (t : Transition PBFTProtocol Event Answer) : Prop where
  forward : t.pre.state.stableCheckpoint.1 ≤ t.post.state.stableCheckpoint.1
  certified : t.post.state.stableCheckpoint ≠ t.pre.state.stableCheckpoint →
    2 * f.toNat ≤ (certifiers t.post t.post.state.stableCheckpoint).card

/-- A CheckPoint that completes its list, for another checkpoint than the stable one, is not for an
older one, and no two of the CheckPoints in the list are of one peer. -/
def SoundCheckpoint (t : Transition PBFTProtocol Event Answer) : Prop :=
  ∀ msg ∈ t.event.checkpoint, CompletesCheckpoint t.pre msg → msg.key ≠ t.pre.state.stableCheckpoint →
    t.pre.state.stableCheckpoint.1 ≤ msg.currentMaxNumber ∧
      ((t.pre.log.checkpoints.listAt msg.key ++ [msg]).map CheckPoint.fromPeerId).Nodup

/-- A CheckPoint that completes its list certifies it exactly when the senders are different. -/
theorem certified_iff {p p' : PBFTProtocol} {f : UInt64} {msg : CheckPoint}
    (hcompletes : CompletesCheckpoint p msg) (hf : p.state.faultToleranceCount = f)
    (hkeyed : CheckpointsKeyed p')
    (hlogged : p'.log.checkpoints.listAt msg.key = p.log.checkpoints.listAt msg.key ++ [msg]) :
    2 * f.toNat ≤ (certifiers p' msg.key).card ↔
      ((p.log.checkpoints.listAt msg.key ++ [msg]).map CheckPoint.fromPeerId).Nodup := by
  have hlength : ((p.log.checkpoints.listAt msg.key ++ [msg]).map CheckPoint.fromPeerId).length =
      2 * f.toNat := by
    rw [List.length_map, List.length_append, List.length_singleton, ← hf]
    exact hcompletes
  rw [hkeyed.certifiers_eq, hlogged, ← hlength]
  exact Quorum.length_le_card_toFinset_iff

theorem certifiedCheckpoint_iff {me : Bytes} {f : UInt64} {t : Transition PBFTProtocol Event Answer}
    (htaken : step X me t.pre t.event = some (t.post, t.out)) (hkeyed : CheckpointsKeyed t.pre)
    (hf : t.pre.state.faultToleranceCount = f) :
    CertifiedCheckpoint f t ↔ SoundCheckpoint t := by
  have hunchanged (h : t.post.state.stableCheckpoint = t.pre.state.stableCheckpoint) :
      CertifiedCheckpoint f t := ⟨h ▸ UInt64.le_refl _, fun hne ↦ absurd h hne⟩
  cases hevent : t.event.checkpoint with
  | none =>
    have hsame := step_stableCheckpoint_of_other htaken hevent
    refine iff_of_true (hunchanged hsame) ?_
    intro msg hmsg
    rw [hevent] at hmsg
    cases hmsg
  | some msg =>
    have hpost : CheckpointsKeyed t.post := hkeyed.step htaken
    rw [Event.checkpoint_eq_some hevent] at htaken
    have hsound : SoundCheckpoint t ↔
        (CompletesCheckpoint t.pre msg → msg.key ≠ t.pre.state.stableCheckpoint →
          t.pre.state.stableCheckpoint.1 ≤ msg.currentMaxNumber ∧
            ((t.pre.log.checkpoints.listAt msg.key ++ [msg]).map CheckPoint.fromPeerId).Nodup) := by
      simp only [SoundCheckpoint, hevent, Option.mem_some_iff, forall_eq']
    rw [hsound]
    rcases step_checkpoint htaken with ⟨hcompletes, hstable, hlogged⟩ | ⟨hincomplete, hsame⟩
    · have hcertified := certified_iff hcompletes hf hpost hlogged
      constructor
      · intro h _ hother
        refine ⟨?_, hcertified.1 ?_⟩
        · have hforward := h.forward
          rw [hstable] at hforward
          exact hforward
        · have hcard := h.certified (hstable ▸ hother)
          rwa [hstable] at hcard
      · intro h
        by_cases hother : msg.key = t.pre.state.stableCheckpoint
        · exact hunchanged (hstable.trans hother)
        · obtain ⟨hforward, hdistinct⟩ := h hcompletes hother
          refine ⟨?_, fun _ ↦ ?_⟩
          · rw [hstable]
            exact hforward
          · rw [hstable]
            exact hcertified.2 hdistinct
    · exact iff_of_true (hunchanged hsame) fun hcompletes ↦ absurd hcompletes hincomplete

/-- Stable checkpoints move forward and are certified exactly in the runs in which every CheckPoint that
completes its list is sound. -/
theorem certifiedCheckpoint_iff_soundCheckpoint {f : UInt64} {keypair me : Bytes} {run : PbftRun}
    {p : PBFTProtocol} (hrun : IsRun (step X me) (PBFTProtocol.new f keypair) run p) :
    (∀ t ∈ run, CertifiedCheckpoint f t) ↔ ∀ t ∈ run, SoundCheckpoint t := by
  have hpre : ∀ t ∈ run, CheckpointsKeyed t.pre ∧ t.pre.state.faultToleranceCount = f := by
    apply IsRun.invariant_pre_of_forall
      (fun p ↦ CheckpointsKeyed p ∧ p.state.faultToleranceCount = f) ?_ ?_ hrun fun _ _ ↦ trivial
    · refine ⟨?_, rfl⟩
      intro key msg hmem
      cases hmem
    · rintro t ⟨hkeyed, hf⟩ _ htaken
      exact ⟨hkeyed.step htaken, (step_faultToleranceCount htaken).trans hf⟩
  apply forall₂_congr
  intro t ht
  obtain ⟨hkeyed, hf⟩ := hpre t ht
  exact certifiedCheckpoint_iff (hrun.taken t ht) hkeyed hf

instance SoundCheckpoint.decidable (t : Transition PBFTProtocol Event Answer) :
    Decidable (SoundCheckpoint t) :=
  inferInstanceAs (Decidable (∀ msg ∈ t.event.checkpoint,
    (t.pre.log.checkpoints.listAt msg.key).length + 1 = 2 * t.pre.state.faultToleranceCount.toNat →
      _ ≠ _ → _ ∧ _))

/-- CheckPoints with one digest, of the given numbers and peers. -/
def checkpointEvents (entries : List (UInt64 × Bytes)) : List Event :=
  entries.map fun entry ↦ .message (.checkPoint
    { currentMaxNumber := entry.1, checkpointStateDigest := "d", fromPeerId := entry.2, signature := "" })

/-- Two peers certify two checkpoints, one after the other. -/
theorem certifiedCheckpoint_iff_soundCheckpoint_two :
    ∃ run p, IsRun (step .transparent [1]) (PBFTProtocol.new 1 [1]) run p ∧
      run.map (·.post.state.stableCheckpoint.1) = [0, 5, 5, 10] ∧
      (∀ t ∈ run, SoundCheckpoint t) ∧ ∀ t ∈ run, CertifiedCheckpoint 1 t := by
  have hrun : IsRun (step .transparent [1]) (PBFTProtocol.new 1 [1])
      (transitions (step .transparent [1]) (PBFTProtocol.new 1 [1])
        (checkpointEvents [(5, [2]), (5, [3]), (10, [2]), (10, [3])])) _ :=
    .of_isSome (by decide +kernel)
  have hsound : ∀ t ∈ transitions (step .transparent [1]) (PBFTProtocol.new 1 [1])
      (checkpointEvents [(5, [2]), (5, [3]), (10, [2]), (10, [3])]), SoundCheckpoint t := by
    decide +kernel
  exact ⟨_, _, hrun, by decide +kernel, hsound, (certifiedCheckpoint_iff_soundCheckpoint hrun).2 hsound⟩

/-- One peer completes checkpoint 10 alone, and two peers complete checkpoint 5 after it. -/
theorem not_certifiedCheckpoint_of_late_checkpoint :
    ∃ run p, IsRun (step .transparent [1]) (PBFTProtocol.new 1 [1]) run p ∧
      run.map (·.post.state.stableCheckpoint.1) = [0, 10, 10, 5] ∧
      (¬ ∀ t ∈ run, t.pre.state.stableCheckpoint.1 ≤ t.post.state.stableCheckpoint.1) ∧
      (¬ ∀ t ∈ run, t.post.state.stableCheckpoint ≠ t.pre.state.stableCheckpoint →
        2 ≤ (certifiers t.post t.post.state.stableCheckpoint).card) ∧
      ¬ ∀ t ∈ run, CertifiedCheckpoint 1 t := by
  have hback : ¬ ∀ t ∈ transitions (step .transparent [1]) (PBFTProtocol.new 1 [1])
      (checkpointEvents [(10, [2]), (10, [2]), (5, [2]), (5, [3])]),
      t.pre.state.stableCheckpoint.1 ≤ t.post.state.stableCheckpoint.1 := by decide +kernel
  exact ⟨_, _, .of_isSome (by decide +kernel), by decide +kernel, hback, by decide +kernel,
    fun h ↦ hback fun t ht ↦ (h t ht).forward⟩

end BFTDiagnosis.Pbft
