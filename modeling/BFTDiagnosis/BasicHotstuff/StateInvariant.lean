import BFTDiagnosis.BasicHotstuff.VoteDiscipline

/-!
# The view and the certificates of a replica

Between two resets only a new view writes the view, only `handle_precommit` writes `prepare_qc` and
only `handle_commit` writes `locked_qc`. A certificate is stored in the view that it names, after its
signature has verified under the key that the replica holds at that moment; the key may be replaced
later, and so may the node table, which starts another view. From this follow the invariant of the
stored certificates, that views and certificates never go back, and that the views of the decisions
of a run are strictly increasing.
-/

namespace BFTDiagnosis.BasicHotstuff

open Components Utils Word Hotstuff BasicHotstuffProtocol

variable {X : Externals}

/-! ## What a call does to the view and to a stored certificate -/

/-- The certificate of a phase that the replica stores; a commit certificate is not kept. -/
def State.stored (s : State) : Phase → Option QC
  | .prepare => s.prepareQC
  | .preCommit => s.lockedQC
  | .commit => none

/-- The call accepts the certificate: a message of the phase carries it and it passes the checks. -/
def Accepts (X : Externals) (p : BasicHotstuffProtocol) (event : Event) (phase : Phase) (qc : QC) : Prop :=
  ∃ msg order, event = .message msg order ∧ msg.certificate = some (phase, qc) ∧ CheckedQC X p phase qc

theorem toNat_view_advance {p : BasicHotstuffProtocol} (primary : Bytes)
    (hview : p.state.view.toNat + 1 < 2 ^ 64) :
    (p.advance primary).state.view.toNat = p.state.view.toNat + 1 := by
  have hone : (1 : UInt64).toNat = 1 := rfl
  change (p.state.view + 1).toNat = _
  rw [UInt64.toNat_add, hone]
  exact Nat.mod_eq_of_lt hview

section Step

variable {p p' : BasicHotstuffProtocol} {me : Bytes} {event : Event} {out : Answer}

/-- A call keeps the view or enters the next one. -/
theorem step_view (h : step X me p event = some (p', out)) (hreset : event.isReset = false) :
    p'.state.view = p.state.view ∨ p'.state.view.toNat = p.state.view.toNat + 1 := by
  cases step_effect h with
  | protocolReset peerId => cases hreset
  | decide msg order qc primary queue haccepted hview hqueue =>
    exact .inr (toNat_view_advance primary hview)
  | commitQuorum vote order pkInfo share signature primary queue hverified hquorum hview hqueue =>
    exact .inr (toNat_view_advance primary hview)
  | consensusNodePKsInfo entries order nodes primary queue hview hqueue =>
    exact .inr (toNat_view_advance primary hview)
  | initialStart consensusNodes randomness order pkOrder keypair nodes primary queue hown hview hqueue =>
    exact .inr (toNat_view_advance primary hview)
  | viewTimeout timeout primary queue hview hqueue => exact .inr (toNat_view_advance primary hview)
  | _ => exact .inl rfl

theorem step_view_le (h : step X me p event = some (p', out)) (hreset : event.isReset = false) :
    p.state.view ≤ p'.state.view := by
  apply UInt64.le_iff_toNat_le.2
  rcases step_view h hreset with hsame | hnext
  · rw [hsame]
  · omega

/-- A call keeps a stored certificate or replaces it by one that it accepts. -/
theorem step_stored (h : step X me p event = some (p', out)) (hreset : event.isReset = false)
    (phase : Phase) :
    p'.state.stored phase = p.state.stored phase ∨
      ∃ qc, p'.state.stored phase = some qc ∧ Accepts X p event phase qc := by
  cases step_effect h with
  | protocolReset peerId => cases hreset
  | preCommit msg order qc answer haccepted hvoted =>
    obtain ⟨hjustify, hchecked⟩ := checkQC_eq_some haccepted
    cases phase with
    | prepare =>
      refine .inr ⟨qc, rfl, .preCommit msg, order, rfl, ?_, hchecked⟩
      rw [MessageType.certificate, hjustify, Option.map_some]
    | preCommit => exact .inl rfl
    | commit => exact .inl rfl
  | commit msg order qc answer haccepted hvoted =>
    obtain ⟨hjustify, hchecked⟩ := checkQC_eq_some haccepted
    cases phase with
    | prepare => exact .inl rfl
    | preCommit =>
      refine .inr ⟨qc, rfl, .commit msg, order, rfl, ?_, hchecked⟩
      rw [MessageType.certificate, hjustify, Option.map_some]
    | commit => exact .inl rfl
  | _ => exact .inl (by cases phase <;> rfl)

/-- A Decide completes on a certificate of the current view, and the next view begins. -/
theorem step_decide_complete {msg : Decide} {order : List (Bytes × ConsensusNodePKInfo)}
    {request : Request} {queue : List (SendType Payload)}
    (h : step X me p (.message (.decide msg) order) = some (p', .complete request queue)) :
    ∃ qc, msg.justify = some qc ∧ qc.viewNum = p.state.view ∧
      p'.state.view.toNat = p.state.view.toNat + 1 := by
  obtain ⟨checked, hchecked, hrest⟩ := Option.bind_eq_some_iff.1 h
  cases checked with
  | none => cases hrest
  | some qc =>
    obtain ⟨hjustify, hqc⟩ := checkQC_eq_some hchecked
    simp only [bind, pure, Option.bind_eq_some_iff, Option.some.injEq, Prod.mk.injEq,
      Prod.exists] at hrest
    obtain ⟨p₁, answer, hnext, rfl, -⟩ := hrest
    obtain ⟨primary, queue, hview, rfl, -, -⟩ := newview_cases hnext
    exact ⟨qc, hjustify, hqc.viewNum, toNat_view_advance primary hview⟩

end Step

/-- The view of the certificate on which `handle_decide` completes. -/
def decidedView (t : Transition BasicHotstuffProtocol Event Answer) : Option UInt64 :=
  match t.event, t.out with
  | .message (.decide msg) _, .complete _ _ => msg.justify.map QC.viewNum
  | _, _ => none

/-- A decision is of the view of the replica, which enters the next one. -/
theorem decidedView_eq_some {me : Bytes} {t : Transition BasicHotstuffProtocol Event Answer}
    (h : step X me t.pre t.event = some (t.post, t.out)) {view : UInt64}
    (hdecided : decidedView t = some view) :
    view = t.pre.state.view ∧ t.post.state.view.toNat = t.pre.state.view.toNat + 1 := by
  unfold decidedView at hdecided
  split at hdecided
  case h_1 msg order request queue hevent hout =>
    rw [hevent, hout] at h
    obtain ⟨qc, hjustify, hview, hnext⟩ := step_decide_complete h
    rw [hjustify, Option.map_some, Option.some.injEq] at hdecided
    exact ⟨hdecided.symm.trans hview, hnext⟩
  case h_2 => cases hdecided

/-! ## Runs -/

/-- A certificate that the replica may store in a view: it is of the phase and not of a later view,
and the run accepted it under the key held then. -/
structure StoredQC (X : Externals) (run : HotstuffRun) (phase : Phase) (view : UInt64) (qc : QC) :
    Prop where
  msgType : qc.msgType = phase.code
  viewNum : qc.viewNum ≤ view
  accepted : ∃ t ∈ run, Accepts X t.pre t.event phase qc

/-- The state invariant of a replica at the end of a run. -/
structure StateInvariant (X : Externals) (run : HotstuffRun) (p : BasicHotstuffProtocol) : Prop where
  prepareQC : ∀ qc ∈ p.state.prepareQC, StoredQC X run .prepare p.state.view qc
  lockedQC : ∀ qc ∈ p.state.lockedQC, StoredQC X run .preCommit p.state.view qc

/-- The later certificate is there when the earlier one is, and it is not of an earlier view. -/
def NotBefore (before after : Option QC) : Prop := ∀ qc ∈ before, ∃ qc' ∈ after, qc.viewNum ≤ qc'.viewNum

/-- The view and both certificates do not go back. -/
structure Forward (t : Transition BasicHotstuffProtocol Event Answer) : Prop where
  view : t.pre.state.view ≤ t.post.state.view
  prepareQC : NotBefore t.pre.state.prepareQC t.post.state.prepareQC
  lockedQC : NotBefore t.pre.state.lockedQC t.post.state.lockedQC

/-- What a run keeps for the certificate of every phase. -/
def StoredByRun (X : Externals) (run : HotstuffRun) (p : BasicHotstuffProtocol) : Prop :=
  ∀ phase, ∀ qc ∈ p.state.stored phase, StoredQC X run phase p.state.view qc

theorem StoredQC.grow {run : HotstuffRun} {phase : Phase} {view view' : UInt64} {qc : QC}
    (h : StoredQC X run phase view qc) (hview : view ≤ view') (later : HotstuffRun) :
    StoredQC X (run ++ later) phase view' qc where
  msgType := h.msgType
  viewNum := UInt64.le_trans h.viewNum hview
  accepted := by
    obtain ⟨t, ht, haccepts⟩ := h.accepted
    exact ⟨t, List.mem_append_left _ ht, haccepts⟩

section Run

variable {me : Bytes} {run : HotstuffRun} {t : Transition BasicHotstuffProtocol Event Answer}

/-- One call keeps the invariant of the stored certificates. -/
theorem StoredByRun.step (htaken : step X me t.pre t.event = some (t.post, t.out))
    (hreset : t.event.isReset = false) (h : StoredByRun X run t.pre) :
    StoredByRun X (run ++ [t]) t.post := by
  intro phase qc hqc
  have hview : t.pre.state.view ≤ t.post.state.view := step_view_le htaken hreset
  rcases step_stored htaken hreset phase with hsame | ⟨qc', hstored, haccepts⟩
  · rw [hsame] at hqc
    exact (h phase qc hqc).grow hview [t]
  · rw [hstored, Option.mem_some_iff] at hqc
    subst hqc
    have hchecked : CheckedQC X t.pre phase qc' := by
      obtain ⟨msg, order, -, -, hchecked⟩ := haccepts
      exact hchecked
    have hmem : t ∈ run ++ [t] := List.mem_append_right _ (List.mem_singleton.2 rfl)
    exact ⟨hchecked.msgType, hchecked.viewNum ▸ hview, t, hmem, haccepts⟩

/-- A stored certificate is replaced only by one that is not of an earlier view. -/
theorem StoredByRun.notBefore (htaken : BasicHotstuff.step X me t.pre t.event = some (t.post, t.out))
    (hreset : t.event.isReset = false) (h : StoredByRun X run t.pre) (phase : Phase) :
    NotBefore (t.pre.state.stored phase) (t.post.state.stored phase) := by
  intro qc hqc
  rcases step_stored htaken hreset phase with hsame | ⟨qc', hstored, msg, order, -, -, hchecked⟩
  · exact ⟨qc, hsame ▸ hqc, UInt64.le_refl _⟩
  · refine ⟨qc', hstored, ?_⟩
    rw [hchecked.viewNum]
    exact (h phase qc hqc).viewNum

theorem StoredByRun.forward (htaken : BasicHotstuff.step X me t.pre t.event = some (t.post, t.out))
    (hreset : t.event.isReset = false) (h : StoredByRun X run t.pre) : Forward t where
  view := step_view_le htaken hreset
  prepareQC := h.notBefore htaken hreset .prepare
  lockedQC := h.notBefore htaken hreset .preCommit

/-- The views decided so far are strictly increasing, and all of them are behind the replica. -/
structure DecidedBehind (run : HotstuffRun) (p : BasicHotstuffProtocol) : Prop where
  increasing : (run.filterMap decidedView).Pairwise (· < ·)
  behind : ∀ view ∈ run.filterMap decidedView, view < p.state.view

theorem DecidedBehind.step (htaken : BasicHotstuff.step X me t.pre t.event = some (t.post, t.out))
    (hreset : t.event.isReset = false) (h : DecidedBehind run t.pre) :
    DecidedBehind (run ++ [t]) t.post := by
  have hview : t.pre.state.view ≤ t.post.state.view := step_view_le htaken hreset
  have hold : ∀ view ∈ run.filterMap decidedView, view < t.post.state.view := fun view hmem ↦
    UInt64.lt_of_lt_of_le (h.behind view hmem) hview
  have hgrown := filterMap_concat decidedView run t
  cases hdecided : decidedView t with
  | none =>
    rw [hdecided, Option.toList_none, List.append_nil] at hgrown
    exact ⟨hgrown ▸ h.increasing, hgrown ▸ hold⟩
  | some view =>
    rw [hdecided, Option.toList_some] at hgrown
    obtain ⟨rfl, hnext⟩ := decidedView_eq_some htaken hdecided
    have hlast : t.pre.state.view < t.post.state.view := by
      apply UInt64.lt_iff_toNat_lt.2
      omega
    constructor
    · rw [hgrown, List.pairwise_append]
      refine ⟨h.increasing, List.pairwise_singleton _ _, ?_⟩
      intro earlier hmem
      exact List.forall_mem_singleton.2 (h.behind earlier hmem)
    · rw [hgrown]
      exact List.forall_mem_append.2 ⟨hold, List.forall_mem_singleton.2 hlast⟩

/-- Between two resets, for any messages and timeouts: the stored certificates were accepted under the
key held then and are not ahead of the view, nothing goes back, and the decided views increase. -/
theorem stateInvariant_of_no_reset {f : UInt64} {peerId : String} {p : BasicHotstuffProtocol}
    (hrun : IsRun (step X me) (BasicHotstuffProtocol.new f peerId) run p)
    (hreset : ∀ t ∈ run, t.event.isReset = false) :
    StateInvariant X run p ∧ (∀ t ∈ run, Forward t) ∧
      (run.filterMap decidedView).Pairwise (· < ·) := by
  let motive := fun (run : HotstuffRun) (p : BasicHotstuffProtocol) ↦
    StoredByRun X run p ∧ (∀ t ∈ run, Forward t) ∧ DecidedBehind run p
  have hinitial : motive [] (BasicHotstuffProtocol.new f peerId) := by
    refine ⟨?_, by simp, by simp, by simp⟩
    intro phase qc hqc
    cases phase <;> cases hqc
  have hmotive : motive run p := by
    apply IsRun.induction_of_forall hinitial ?_ hrun hreset
    intro run s event out s' hprevious hevent htaken
    obtain ⟨hstored, hforward, hdecided⟩ := hprevious
    let t : Transition BasicHotstuffProtocol Event Answer := ⟨s, event, out, s'⟩
    have htaken : BasicHotstuff.step X me t.pre t.event = some (t.post, t.out) := htaken
    refine ⟨hstored.step htaken hevent, ?_, hdecided.step htaken hevent⟩
    apply List.forall_mem_append.2 ⟨hforward, List.forall_mem_singleton.2 ?_⟩
    exact hstored.forward htaken hevent
  obtain ⟨hstored, hforward, hdecided⟩ := hmotive
  exact ⟨⟨hstored .prepare, hstored .preCommit⟩, hforward, hdecided.increasing⟩

end Run

/-- A Decide of a view, signed by three of the four nodes. -/
def fourDecide (viewNum : UInt64) : Event :=
  .message (.decide
    { viewNum := viewNum, justify := some (fourQC .commit viewNum genesisBlock [0, 1, 2]) }) []

/-- A replica stores both certificates of a view, decides, and decides in the next view. -/
theorem stateInvariant_of_no_reset_four :
    ∃ run p, IsRun (step .transparent [2]) (BasicHotstuffProtocol.new 1 "") run p ∧
      (∀ t ∈ run, t.event.isReset = false) ∧
      p.state.prepareQC.isSome = true ∧ p.state.lockedQC.isSome = true ∧
      run.filterMap decidedView = [1, 2] ∧
      StateInvariant .transparent run p ∧ (∀ t ∈ run, Forward t) ∧
      (run.filterMap decidedView).Pairwise (· < ·) := by
  have hrun : IsRun (step .transparent [2]) (BasicHotstuffProtocol.new 1 "")
      (transitions (step .transparent [2]) (BasicHotstuffProtocol.new 1 "")
        (disciplinedEvents ++ [fourDecide 1, fourDecide 2])) _ := .of_isSome (by decide +kernel)
  have hreset : ∀ t ∈ transitions (step .transparent [2]) (BasicHotstuffProtocol.new 1 "")
      (disciplinedEvents ++ [fourDecide 1, fourDecide 2]), t.event.isReset = false := by
    decide +kernel
  exact ⟨_, _, hrun, hreset, by decide +kernel, by decide +kernel, by decide +kernel,
    stateInvariant_of_no_reset hrun hreset⟩

end BFTDiagnosis.BasicHotstuff
