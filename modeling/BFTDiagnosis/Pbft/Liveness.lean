import BFTDiagnosis.Pbft.Participation
import BFTDiagnosis.Pbft.Progress

/-!
# A round of PBFT that completes

Among `2 * f + 2` participants or more, one request and every message of its three phases is delivered to every
other participant. Then every participant completes the request, once, whatever the order of the deliveries
between participants, as long as each of them hears the phases in order: the proposal before the Prepares, and
the Commits after it has sent its own.
-/

namespace BFTDiagnosis.Pbft

open Components Word PBFTProtocol

variable {X : Externals}

/-! ## What is sent for the request -/

namespace Participants

variable {ι : Type} (c : Participants ι)

/-- The PrePrepare with which the primary proposes the first request. -/
def proposalOf (X : Externals) (request : Request) : PrePrepare :=
  let preprepare : PrePrepare :=
    { view := 0, number := 1, mHash := requestHash X request, m := X.requestJson request, signature := []
      fromPeerId := c.peerId c.primary }
  { preprepare with signature := X.sign (c.keypair c.primary) (asBytes (getMessageKey X (.prePrepare preprepare))) }

/-- The participants can check what they send each other. -/
structure Connected (X : Externals) (keys : ι → HashMap Bytes Bytes) (request : Request) : Prop where
  valid : ∀ i, X.peerIdValid (c.peerId i) = true
  known : ∀ i j, (keys i).lookup (c.peerId j) = some (X.publicKey (c.keypair j))
  verifies : ∀ i message, X.verify (X.publicKey (c.keypair i)) (X.sign (c.keypair i) message) message = true
  parses : X.requestOfJson (X.requestJson request) = some request

end Participants

section Network

variable {ι : Type} [DecidableEq ι]

/-- What a participant has done so far. -/
abbrev runOf (history : PbftHistory ι) (i : ι) : PbftRun := History.perNode some history i

/-- Deliveries of the round: genuine ones, of one request, in the order of the phases. -/
structure InPhase (c : Participants ι) (X : Externals) (request : Request) (w : PbftWorld ι)
    (delivery : ι × Event) : Prop extends Genuine c w delivery where
  only : ∀ other ∈ delivery.2.request, other = request
  first : delivery.2.isProposal = true → proposed (runOf w.history delivery.1) = false
  prepare : delivery.2.prepares ≠ [] → proposed (runOf w.history delivery.1) = true
  commit : delivery.2.commits ≠ [] → sentCommits (requestHash X request) (runOf w.history delivery.1) ≠ []
  undisturbed : delivery.2.disturbs = false

/-- The request and every message of the three phases have been delivered to every other participant. -/
structure Drained (history : PbftHistory ι) : Prop where
  requested : ∃ entry ∈ history, entry.2.event.isRequest = true
  delivered : ∀ entry ∈ history, ∀ msg ∈ sentPhase entry.2.out, ∀ i, i ≠ entry.1 → Delivered history i msg

end Network

namespace Participants

variable {ι : Type} [DecidableEq ι] {c : Participants ι} {f : UInt64} {keys : ι → HashMap Bytes Bytes}
  {request : Request} {w : PbftWorld ι}

abbrev InPhaseReachable (X : Externals) (c : Participants ι) (f : UInt64) (keys : ι → HashMap Bytes Bytes)
    (request : Request) : PbftWorld ι → Prop :=
  World.Reachable (c.step X) (InPhase c X request) (c.start f keys)

theorem InPhaseReachable.reachable (h : InPhaseReachable X c f keys request w) : Reachable X c f keys w :=
  h.mono fun _ _ hmet ↦ hmet.toGenuine

theorem InPhaseReachable.entry (h : InPhaseReachable X c f keys request w) {i : ι}
    {t : Transition PBFTProtocol Event Answer} (hmem : (i, t) ∈ w.history) :
    ∃ w₀ : PbftWorld ι, InPhaseReachable X c f keys request w₀ ∧ w₀.history ⊆ w.history ∧ w₀.nodes i = t.pre ∧
      InPhase c X request w₀ (i, t.event) ∧ Pbft.step X (c.peerId i) t.pre t.event = some (t.post, t.out) := by
  obtain ⟨before, after, hsplit⟩ := List.append_of_mem hmem
  obtain ⟨w₀, hreachable, hhistory, hpre, hmet, htaken⟩ := World.Reachable.before h rfl hsplit
  exact ⟨w₀, hreachable, by rw [hhistory, hsplit]; exact List.subset_append_left _ _, hpre, hmet, htaken⟩

/-- No participant leaves the first view, its watermarks and the first number. -/
theorem InPhaseReachable.standing (h : InPhaseReachable X c f keys request w) (i : ι) : Standing (w.nodes i) := by
  revert i
  induction h with
  | start => exact fun _ ↦ ⟨rfl, rfl, rfl⟩
  | deliver previous hmet htaken ih =>
    apply World.forall_nodes_of_deliver (fun _ _ p ↦ Standing p) _ _ htaken ih
    · exact fun _ _ _ hstanding ↦ hstanding
    · exact fun p out hstep hstanding ↦ hstanding.step hmet.undisturbed hstep

theorem InPhaseReachable.known (hconnected : c.Connected X keys request)
    (h : InPhaseReachable X c f keys request w) (i j : ι) :
    (w.nodes i).consensusNodePk.lookup (c.peerId j) = some (X.publicKey (c.keypair j)) := by
  revert i
  induction h with
  | start => exact fun i ↦ hconnected.known i j
  | deliver previous hmet htaken ih =>
    apply World.forall_nodes_of_deliver
      (fun _ _ p ↦ p.consensusNodePk.lookup (c.peerId j) = some (X.publicKey (c.keypair j))) _ _ htaken ih
    · exact fun _ _ _ hkey ↦ hkey
    · exact fun p out hstep hkey ↦ step_consensusNodePk hstep hkey

/-! ## Proposal, Prepares and Commits -/

theorem eq_request_of_isRequest {event : Event} (hrequest : event.isRequest = true)
    (honly : ∀ other ∈ event.request, other = request) : event = .message (.request request) := by
  unfold Event.isRequest at hrequest
  split at hrequest
  case h_1 other => rw [honly other rfl]
  case h_2 => cases hrequest

theorem step_request_out {p p' : PBFTProtocol} {me : Bytes} {out : Answer} (hstanding : Standing p)
    (htaken : Pbft.step X me p (.message (.request request)) = some (p', out)) :
    out = .continueExecute [.broadcast (.message ⟨.prePrepare
      { view := 0, number := 1, mHash := requestHash X request, m := X.requestJson request, fromPeerId := me
        signature := X.sign p.keypair (asBytes (getMessageKey X (.prePrepare
          { view := 0, number := 1, mHash := requestHash X request, m := X.requestJson request, fromPeerId := me
            signature := [] }))) }⟩)] := by
  change p.handleRequest X me request = _ at htaken
  simp only [handleRequest, hstanding.number, hstanding.view, bind, pure, Option.bind_eq_some_iff, Option.some.injEq,
    Prod.mk.injEq] at htaken
  obtain ⟨number, hnumber, -, rfl⟩ := htaken
  obtain rfl : 1 = number := Option.some.inj hnumber
  rfl

/-- The call of the primary on the request broadcasts the proposal. -/
theorem InPhaseReachable.sentPhase_of_request (h : InPhaseReachable X c f keys request w) {i : ι}
    {t : Transition PBFTProtocol Event Answer} (hmem : (i, t) ∈ w.history) (hrequest : t.event.isRequest = true) :
    i = c.primary ∧ sentPhase t.out = [.prePrepare (c.proposalOf X request)] := by
  obtain ⟨w₀, hreachable, -, hpre, hmet, htaken⟩ := h.entry hmem
  obtain rfl := hmet.toPrimary hrequest
  rw [eq_request_of_isRequest hrequest hmet.only] at htaken
  have hout := step_request_out (hpre ▸ hreachable.standing c.primary) htaken
  rw [← hpre, hreachable.reachable.keypair] at hout
  rw [hout]
  exact ⟨rfl, rfl⟩

theorem InPhaseReachable.eq_proposal (h : InPhaseReachable X c f keys request w) {i : ι} {msg : PrePrepare}
    (hsent : SentByOther w.history i (.prePrepare msg)) : msg = c.proposalOf X request := by
  obtain ⟨⟨j, t⟩, hmem, -, hmsg⟩ := hsent
  obtain ⟨w₀, -, -, -, -, htaken⟩ := h.entry hmem
  have hrequest := step_sent_preprepare htaken (preprepare_of_mem_sentPhase hmsg)
  rw [(h.sentPhase_of_request hmem hrequest).2] at hmsg
  simpa using hmsg

/-- Every Prepare is of the slot of the request. -/
theorem InPhaseReachable.prepare_slot (h : InPhaseReachable X c f keys request w) {i : ι}
    {t : Transition PBFTProtocol Event Answer} (hmem : (i, t) ∈ w.history) {msg : Prepare}
    (hsent : .prepare msg ∈ sentPhase t.out) : msg.slot = roundSlot X request := by
  obtain ⟨w₀, hreachable, -, hpre, hmet, htaken⟩ := h.entry hmem
  obtain ⟨preprepare, -, hevent, -, -, rfl⟩ := step_sent_prepare htaken (prepare_of_mem_sentPhase hsent)
  have hproposal := hreachable.eq_proposal (hmet.sent (.prePrepare preprepare) (by rw [hevent]; rfl))
  have hview := (hreachable.standing i).view
  rw [hpre] at hview
  simp [signedPrepare, Prepare.slot, roundSlot, hview, hproposal, proposalOf]

theorem InPhaseReachable.eq_prepareOf (h : InPhaseReachable X c f keys request w) {i : ι} {msg : Prepare}
    (hsent : SentByOther w.history i (.prepare msg)) :
    ∃ j, j ≠ i ∧ j ≠ c.primary ∧ msg = c.prepareOf X j (roundSlot X request) := by
  obtain ⟨⟨j, t⟩, hmem, hother, hmsg⟩ := hsent
  obtain ⟨hbackup, heq⟩ := h.reachable.prepare_of_sent hmem hmsg
  rw [h.prepare_slot hmem hmsg] at heq
  exact ⟨j, hother, hbackup, heq⟩

/-- Every Commit is of the slot of the request. -/
theorem InPhaseReachable.eq_commitOf_of_mem (h : InPhaseReachable X c f keys request w) {i : ι}
    {t : Transition PBFTProtocol Event Answer} (hmem : (i, t) ∈ w.history) {msg : Commit}
    (hsent : .commit msg ∈ sentPhase t.out) : msg = c.commitOf X i (roundSlot X request) := by
  obtain ⟨w₀, hreachable, -, hpre, hmet, htaken⟩ := h.entry hmem
  have heq := h.reachable.commit_of_sent hmem hsent
  obtain ⟨prepare, hevent, haccepted, -, -, rfl⟩ := step_sent_commit htaken (commit_of_mem_sentPhase hsent)
  obtain ⟨-, -, hview, -⟩ := verifyPrepare_eq_true haccepted
  obtain ⟨j, -, -, hprepare⟩ := hreachable.eq_prepareOf (hmet.sent (.prepare prepare) (by rw [hevent]; rfl))
  rw [signedCommit_slot hview] at heq
  rw [heq, hprepare]
  rfl

/-! ## The phases in order -/

omit [DecidableEq ι] in
theorem Connected.valid_of_signed (h : c.Connected X keys request) {p : PBFTProtocol} {j : ι}
    (hkey : p.consensusNodePk.lookup (c.peerId j) = some (X.publicKey (c.keypair j))) {msg : MessageType}
    (hsender : msg.sender = c.peerId j)
    (hsignature : msg.signature = X.sign (c.keypair j) (asBytes (getMessageKey X msg))) : Valid X p msg where
  sender := hsender ▸ h.valid j
  signed := ⟨X.publicKey (c.keypair j), hsender ▸ hkey, hsignature ▸ h.verifies j _⟩

/-- Every participant hears the phases in order. -/
theorem InPhaseReachable.inOrder (hconnected : c.Connected X keys request)
    (h : InPhaseReachable X c f keys request w) (i : ι) :
    ∀ before t after, runOf w.history i = before ++ t :: after → InOrder X request before t.pre t.event := by
  intro before t after hsplit
  obtain ⟨w₀, hreachable, hbefore, hpre, hmet⟩ := World.Reachable.before_of_perNode h rfl hsplit
  replace hreachable : InPhaseReachable X c f keys request w₀ := hreachable
  have hknown := hreachable.known hconnected i
  rw [hpre] at hknown
  replace hbefore : runOf w₀.history i = before := hbefore
  generalize hevent : t.event = event at hmet
  obtain ⟨⟨hprimary, hsent, hfresh⟩, honly, hfirst, hprepare, hcommit, hundisturbed⟩ := hmet
  rw [hbefore] at hfirst hprepare hcommit
  cases event with
  | initialStart nodes => exact trivial
  | message msg =>
    cases msg with
    | request other => exact ⟨honly other rfl, hfirst rfl⟩
    | prePrepare msg =>
      obtain rfl := hreachable.eq_proposal (hsent _ rfl)
      exact ⟨hfirst rfl, hconnected.valid_of_signed (hknown c.primary) rfl rfl, rfl, hconnected.parses⟩
    | prepare msg =>
      obtain ⟨j, -, -, rfl⟩ := hreachable.eq_prepareOf (hsent _ rfl)
      exact ⟨hprepare (List.cons_ne_nil _ _), hconnected.valid_of_signed (hknown j) rfl rfl, rfl⟩
    | commit msg =>
      obtain ⟨⟨j, t'⟩, hmem, -, hmsg⟩ := hsent _ rfl
      obtain rfl := hreachable.eq_commitOf_of_mem hmem hmsg
      exact ⟨hcommit (List.cons_ne_nil _ _), hconnected.valid_of_signed (hknown j) rfl rfl, rfl⟩
    | reply msg => cases hundisturbed
    | checkPoint msg => cases hundisturbed
    | newView msg => cases hundisturbed
    | viewChange msg => exact trivial
    | publicKey key => exact trivial
    | distributePK => exact trivial

/-- What the votes that a participant has heard decide. -/
theorem InPhaseReachable.decided (hX : X.CollisionFree) (hf : 1 ≤ f.toNat) (hconnected : c.Connected X keys request)
    (h : InPhaseReachable X c f keys request w) (i : ι) :
    (sentCommits (requestHash X request) (runOf w.history i)).length =
        (if 2 * f.toNat ≤ (prepares (runOf w.history i)).length then 1 else 0) ∧
      completions (runOf w.history i) =
        if 2 * f.toNat ≤ (commits (runOf w.history i)).length then [request] else [] := by
  obtain ⟨hstage, -, rfl⟩ := stage_of_inOrder hX hf (World.Reachable.isRun h rfl i) (h.inOrder hconnected i)
  exact hstage.decided hf

/-- A backup that hears the proposal prepares it. -/
theorem InPhaseReachable.prepare_of_delivered (hconnected : c.Connected X keys request)
    (h : InPhaseReachable X c f keys request w) {i : ι}
    (hdelivered : Delivered w.history i (.prePrepare (c.proposalOf X request))) :
    ∃ t, (i, t) ∈ w.history ∧ .prepare (c.prepareOf X i (roundSlot X request)) ∈ sentPhase t.out := by
  obtain ⟨⟨j, t⟩, hmem, rfl, hphase⟩ := hdelivered
  refine ⟨t, hmem, ?_⟩
  obtain ⟨w₀, hreachable, -, hpre, hmet, htaken⟩ := h.entry hmem
  have hevent : t.event = .message (.prePrepare (c.proposalOf X request)) := by
    generalize hevent : t.event = event at hphase
    cases event with
    | initialStart nodes => cases hphase
    | message msg => rw [phase_eq_preprepare hphase]
  have hstanding : Standing t.pre := hpre ▸ hreachable.standing j
  have hknown := hreachable.known hconnected j c.primary
  rw [hpre] at hknown
  have hvalid : Valid X t.pre (.prePrepare (c.proposalOf X request)) :=
    hconnected.valid_of_signed hknown rfl rfl
  rw [hevent] at htaken
  obtain ⟨other, -, ⟨-, haccepted⟩ | ⟨hrejected, -⟩⟩ := handlePreprepare_cases htaken
  · have hsent : .prepare (t.pre.signedPrepare X (c.peerId j) (c.proposalOf X request)) ∈ sentPhase t.out := by
      rw [(Prod.mk.inj haccepted).2]
      exact List.mem_singleton.2 rfl
    have heq := (h.reachable.prepare_of_sent hmem hsent).2
    rw [h.prepare_slot hmem hsent] at heq
    exact heq ▸ hsent
  · have hverified : (t.pre.takePreprepare X (c.proposalOf X request) other).verifyPreprepare X
        (c.proposalOf X request) = some true :=
      verifyPreprepare_of_valid ⟨hstanding.view, hstanding.stable, hstanding.number⟩ ⟨hvalid.sender, hvalid.signed⟩
        rfl
    rw [hverified] at hrejected
    cases hrejected

/-! ## Everything is delivered -/

theorem mem_prepares_of_delivered {history : PbftHistory ι} {i : ι} {msg : Prepare}
    (h : Delivered history i (.prepare msg)) : msg ∈ prepares (runOf history i) := by
  obtain ⟨⟨j, t⟩, hmem, rfl, hphase⟩ := h
  refine List.mem_flatMap.2 ⟨t, History.mem_perNode.2 hmem, ?_⟩
  generalize t.event = event at hphase
  cases event with
  | initialStart nodes => cases hphase
  | message other =>
    rw [phase_eq_prepare hphase]
    exact List.mem_singleton.2 rfl

theorem mem_commits_of_delivered {history : PbftHistory ι} {i : ι} {msg : Commit}
    (h : Delivered history i (.commit msg)) : msg ∈ commits (runOf history i) := by
  obtain ⟨⟨j, t⟩, hmem, rfl, hphase⟩ := h
  refine List.mem_flatMap.2 ⟨t, History.mem_perNode.2 hmem, ?_⟩
  generalize t.event = event at hphase
  cases event with
  | initialStart nodes => cases hphase
  | message other =>
    rw [phase_eq_commit hphase]
    exact List.mem_singleton.2 rfl

theorem exists_sent_of_sentCommits {history : PbftHistory ι} {i : ι} {mHash : String}
    (h : sentCommits mHash (runOf history i) ≠ []) : ∃ t, (i, t) ∈ history ∧ ∃ msg, .commit msg ∈ sentPhase t.out := by
  obtain ⟨msg, hmsg⟩ := List.exists_mem_of_ne_nil _ h
  obtain ⟨t, ht, hsent⟩ := List.mem_flatMap.1 (List.mem_filter.1 hmsg).1
  obtain ⟨other, hother, hcommit⟩ := List.mem_filterMap.1 hsent
  refine ⟨t, History.mem_perNode.1 ht, msg, List.mem_filterMap.2 ⟨other, hother, ?_⟩⟩
  cases other <;> cases hcommit
  rfl

variable [Fintype ι]

/-- Different messages of the participants outside a set, all in one list. -/
theorem card_le_length_of_mem {μ : Type} [DecidableEq μ] {excluded : Finset ι} {heard : List μ} {messageOf : ι → μ}
    (hinjective : Function.Injective messageOf) (h : ∀ j, j ∉ excluded → messageOf j ∈ heard) :
    Fintype.card ι - excluded.card ≤ heard.length := by
  calc Fintype.card ι - excluded.card
      = excludedᶜ.card := (Finset.card_compl excluded).symm
    _ ≤ heard.toFinset.card := by
        apply Finset.card_le_card_of_injOn messageOf _ hinjective.injOn
        intro j hj
        exact List.mem_toFinset.2 (h j (Finset.mem_compl.1 hj))
    _ ≤ heard.length := List.toFinset_card_le heard

/-- Once everything has been delivered, every one of `2 * f + 2` participants or more has completed the request. -/
theorem all_complete_of_drained (hX : X.CollisionFree) (hf : 1 ≤ f.toNat)
    (hconnected : c.Connected X keys request) (hcard : 2 * f.toNat + 2 ≤ Fintype.card ι)
    (h : InPhaseReachable X c f keys request w) (hdrained : Drained w.history) :
    ∀ i, completions (runOf w.history i) = [request] := by
  obtain ⟨⟨j, t⟩, hmem, hrequest⟩ := hdrained.requested
  obtain ⟨rfl, hproposed⟩ := h.sentPhase_of_request hmem hrequest
  have hprepared (i : ι) (hi : i ≠ c.primary) :
      ∃ t, (i, t) ∈ w.history ∧ .prepare (c.prepareOf X i (roundSlot X request)) ∈ sentPhase t.out :=
    h.prepare_of_delivered hconnected
      (hdrained.delivered _ hmem _ (hproposed ▸ List.mem_singleton.2 rfl) i hi)
  have hprepares (i : ι) : 2 * f.toNat ≤ (prepares (runOf w.history i)).length := by
    have hheard : ∀ j, j ∉ ({i, c.primary} : Finset ι) →
        c.prepareOf X j (roundSlot X request) ∈ prepares (runOf w.history i) := by
      intro j hj
      rw [Finset.mem_insert, Finset.mem_singleton, not_or] at hj
      obtain ⟨t, hmem, hsent⟩ := hprepared j hj.2
      exact mem_prepares_of_delivered (hdrained.delivered _ hmem _ hsent i (Ne.symm hj.1))
    have hlength := card_le_length_of_mem (fun j k hjk ↦ c.peerId_injective (congrArg Prepare.fromPeerId hjk)) hheard
    have htwo : ({i, c.primary} : Finset ι).card ≤ 2 := Finset.card_le_two
    omega
  have hcommitted (i : ι) : ∃ t, (i, t) ∈ w.history ∧
      .commit (c.commitOf X i (roundSlot X request)) ∈ sentPhase t.out := by
    have hone := (h.decided hX hf hconnected i).1
    rw [if_pos (hprepares i)] at hone
    obtain ⟨t, hmem, msg, hsent⟩ := exists_sent_of_sentCommits (List.ne_nil_of_length_pos (hone ▸ Nat.one_pos))
    exact ⟨t, hmem, h.eq_commitOf_of_mem hmem hsent ▸ hsent⟩
  intro i
  have hheard : ∀ j, j ∉ ({i} : Finset ι) →
      c.commitOf X j (roundSlot X request) ∈ commits (runOf w.history i) := by
    intro j hj
    obtain ⟨t, hmem, hsent⟩ := hcommitted j
    exact mem_commits_of_delivered
      (hdrained.delivered _ hmem _ hsent i fun heq ↦ hj (Finset.mem_singleton.2 heq.symm))
  have hlength := card_le_length_of_mem (fun j k hjk ↦ c.peerId_injective (congrArg Commit.fromPeerId hjk)) hheard
  rw [Finset.card_singleton] at hlength
  rw [(h.decided hX hf hconnected i).2, if_pos (by omega)]

end Participants

/-! ## Four participants -/

section Decidable

variable {ι : Type} [DecidableEq ι] (c : Participants ι) (X : Externals) (request : Request)

instance InPhase.decidable (w : PbftWorld ι) (delivery : ι × Event) : Decidable (InPhase c X request w delivery) :=
  decidable_of_iff (Genuine c w delivery ∧ (∀ other ∈ delivery.2.request, other = request) ∧
      (delivery.2.isProposal = true → proposed (runOf w.history delivery.1) = false) ∧
      (delivery.2.prepares ≠ [] → proposed (runOf w.history delivery.1) = true) ∧
      (delivery.2.commits ≠ [] → sentCommits (requestHash X request) (runOf w.history delivery.1) ≠ []) ∧
      delivery.2.disturbs = false)
    ⟨fun h ↦ ⟨h.1, h.2.1, h.2.2.1, h.2.2.2.1, h.2.2.2.2.1, h.2.2.2.2.2⟩, fun h ↦ ⟨h.1, h.2, h.3, h.4, h.5, h.6⟩⟩

instance Drained.decidable [Fintype ι] (history : PbftHistory ι) : Decidable (Drained history) :=
  decidable_of_iff ((∃ entry ∈ history, entry.2.event.isRequest = true) ∧
      ∀ entry ∈ history, ∀ msg ∈ sentPhase entry.2.out, ∀ i, i ≠ entry.1 → Delivered history i msg)
    ⟨fun h ↦ ⟨h.1, h.2⟩, fun h ↦ ⟨h.1, h.2⟩⟩

end Decidable

/-- Four participants that know each other's keys; the first one proposes. -/
def fourParticipants : Participants (Fin 4) where
  peerId := fourReplicas.peerId
  peerId_injective := fourReplicas.peerId_injective
  keypair := fourReplicas.keypair
  primary := 0

/-- Everything that four participants send for one request, phase by phase. -/
def fourDeliveries : List (Fin 4 × Event) :=
  let others (i : Fin 4) : List (Fin 4) := (List.finRange 4).filter (· ≠ i)
  let peer (i : Fin 4) : Bytes := fourReplicas.peerId i
  [(0, .message (.request ⟨"a"⟩))] ++
    (others 0).map (fun i ↦ (i, .message (.prePrepare (roundPreprepare [1] ⟨"a"⟩)))) ++
    (List.finRange 4).flatMap (fun i ↦ ((others i).filter (· ≠ 0)).map fun j ↦
      (i, .message (.prepare (roundPrepare (peer j) ⟨"a"⟩)))) ++
    (List.finRange 4).flatMap fun i ↦ (others i).map fun j ↦ (i, .message (.commit (roundCommit (peer j) ⟨"a"⟩)))

def fourWorld : PbftWorld (Fin 4) :=
  World.final (fourParticipants.step .transparent) (InPhase fourParticipants .transparent ⟨"a"⟩)
    (fourParticipants.start 1 fun i ↦ (fourNodes i).consensusNodePk) fourDeliveries

theorem connected_fourParticipants :
    fourParticipants.Connected .transparent (fun i ↦ (fourNodes i).consensusNodePk) ⟨"a"⟩ where
  valid := by decide
  known := by decide
  verifies := fun i message ↦ beq_self_eq_true ([UInt8.ofNat (i + 1)] ++ message)
  parses := by decide

theorem all_complete_of_drained_four :
    Drained fourWorld.history ∧ ∀ i, completions (runOf fourWorld.history i) = [⟨"a"⟩] := by
  have hreachable : Participants.InPhaseReachable .transparent fourParticipants 1
      (fun i ↦ (fourNodes i).consensusNodePk) ⟨"a"⟩ fourWorld := World.Reachable.of_isSome (by decide +kernel)
  have hdrained : Drained fourWorld.history := by decide +kernel
  exact ⟨hdrained, Participants.all_complete_of_drained Utils.Platform.collisionFree_transparent (by decide)
    connected_fourParticipants (by decide) hreachable hdrained⟩

/-- Two of the participants hear the Commits of the others before their Prepares: they complete, send no Commit,
and the others never hear enough. -/
def overtakenDeliveries : List (Fin 4 × Event) :=
  let peer (i : Fin 4) : Bytes := fourReplicas.peerId i
  let prepare (i j : Fin 4) : Fin 4 × Event := (i, .message (.prepare (roundPrepare (peer j) ⟨"a"⟩)))
  let commit (i j : Fin 4) : Fin 4 × Event := (i, .message (.commit (roundCommit (peer j) ⟨"a"⟩)))
  fourDeliveries.take 4 ++ [prepare 0 1, prepare 0 2, prepare 0 3, prepare 1 2, prepare 1 3] ++
    [commit 2 0, commit 2 1, commit 3 0, commit 3 1, commit 0 1, commit 1 0] ++
    [prepare 2 1, prepare 2 3, prepare 3 1, prepare 3 2]

def overtakenWorld : PbftWorld (Fin 4) :=
  World.final (fourParticipants.step .transparent) (Genuine fourParticipants)
    (fourParticipants.start 1 fun i ↦ (fourNodes i).consensusNodePk) overtakenDeliveries

example : Drained overtakenWorld.history ∧ completions (runOf overtakenWorld.history 2) = [⟨"a"⟩] ∧
    completions (runOf overtakenWorld.history 0) = [] := by decide +kernel

end BFTDiagnosis.Pbft
