import BFTDiagnosis.Pbft.Agreement
import BFTDiagnosis.Pbft.HiddenState

/-!
# How many participants a round of PBFT needs

A participant counts the votes that others send it and never its own: the Prepare of a backup and the Commit
of every participant are broadcast without being logged, and the primary sends no Prepare at all. So a backup
can count the Prepares of all participants but itself and the primary, while the handlers ask for
`2 * fault_tolerance_count` of them as well as of Commits.

The participants exchange the messages of the three phases over a network that loses, delays and reorders
them but neither invents nor repeats one. Requests go to one primary. All other messages are arbitrary.
-/

namespace BFTDiagnosis.Pbft

open Components Word PBFTProtocol

variable {X : Externals}

/-! ## Messages of the three phases -/

inductive PhaseMessage where
  | prePrepare (msg : PrePrepare)
  | prepare (msg : Prepare)
  | commit (msg : Commit)
deriving DecidableEq

def MessageType.phaseMessage : MessageType → Option PhaseMessage
  | .prePrepare msg => some (.prePrepare msg)
  | .prepare msg => some (.prepare msg)
  | .commit msg => some (.commit msg)
  | _ => none

def Event.phaseMessage : Event → Option PhaseMessage
  | .message msg => msg.phaseMessage
  | .initialStart _ => none

def Event.isRequest : Event → Bool
  | .message (.request _) => true
  | _ => false

/-- The messages of the three phases that an answer sends. -/
def sentPhase (out : Answer) : List PhaseMessage := (sentMessages out).filterMap MessageType.phaseMessage

theorem phase_eq_preprepare {msg : MessageType} {preprepare : PrePrepare}
    (h : msg.phaseMessage = some (.prePrepare preprepare)) : msg = .prePrepare preprepare := by
  cases msg <;> cases h
  rfl

theorem phase_eq_prepare {msg : MessageType} {prepare : Prepare} (h : msg.phaseMessage = some (.prepare prepare)) :
    msg = .prepare prepare := by
  cases msg <;> cases h
  rfl

theorem phase_eq_commit {msg : MessageType} {commit : Commit} (h : msg.phaseMessage = some (.commit commit)) :
    msg = .commit commit := by
  cases msg <;> cases h
  rfl

theorem preprepare_of_mem_sentPhase {out : Answer} {msg : PrePrepare} (h : .prePrepare msg ∈ sentPhase out) :
    .prePrepare msg ∈ sentMessages out := by
  obtain ⟨other, hother, hphase⟩ := List.mem_filterMap.1 h
  exact phase_eq_preprepare hphase ▸ hother

theorem prepare_of_mem_sentPhase {out : Answer} {msg : Prepare} (h : .prepare msg ∈ sentPhase out) :
    .prepare msg ∈ sentMessages out := by
  obtain ⟨other, hother, hphase⟩ := List.mem_filterMap.1 h
  exact phase_eq_prepare hphase ▸ hother

theorem commit_of_mem_sentPhase {out : Answer} {msg : Commit} (h : .commit msg ∈ sentPhase out) :
    .commit msg ∈ sentMessages out := by
  obtain ⟨other, hother, hphase⟩ := List.mem_filterMap.1 h
  exact phase_eq_commit hphase ▸ hother

/-- PrePrepares are sent for requests only. -/
theorem step_sent_preprepare {me : Bytes} {p p' : PBFTProtocol} {event : Event} {out : Answer} {msg : PrePrepare}
    (h : step X me p event = some (p', out)) (hsent : .prePrepare msg ∈ sentMessages out) :
    event.isRequest = true := by
  cases step_effect h with
  | request => rfl
  | newview msg => simp [sentMessages, handleNewview, newviewPrepare, SendType.payloads] at hsent
  | initialStart nodes =>
    simp [sentMessages, extraInitialStart, distributePublicKey, SendType.payloads] at hsent
  | distributePK => simp [sentMessages, distributePublicKey, SendType.payloads] at hsent
  | _ => simp [sentMessages, silent, SendType.payloads] at hsent

/-! ## The participants and the network -/

/-- The replicas that take part, with their peer ids and key pairs; one of them proposes. -/
structure Participants (ι : Type) where
  peerId : ι → PeerId
  peerId_injective : Function.Injective peerId
  keypair : ι → Bytes
  primary : ι

namespace Participants

variable {ι : Type} (c : Participants ι)

/-- The Prepare that a participant sends for a slot. -/
def prepareOf (X : Externals) (i : ι) (slot : Slot) : Prepare :=
  let prepare : Prepare :=
    { view := slot.view, number := slot.number, mHash := slot.mHash, fromPeerId := c.peerId i, signature := [] }
  { prepare with signature := X.sign (c.keypair i) (asBytes (getMessageKey X (.prepare prepare))) }

/-- The Commit that a participant sends for a slot. -/
def commitOf (X : Externals) (i : ι) (slot : Slot) : Commit :=
  let commit : Commit :=
    { view := slot.view, number := slot.number, mHash := slot.mHash, fromPeerId := c.peerId i, signature := [] }
  { commit with signature := X.sign (c.keypair i) (asBytes (getMessageKey X (.commit commit))) }

/-- The call of the actuator on each participant. -/
def step (X : Externals) (i : ι) : PBFTProtocol → Event → Option (PBFTProtocol × Answer) :=
  Pbft.step X (c.peerId i)

/-- The participants before any message, each with the public keys it knows. -/
def start [DecidableEq ι] (f : UInt64) (keys : ι → HashMap Bytes Bytes) : PbftWorld ι :=
  World.start fun i ↦ { PBFTProtocol.new f (c.keypair i) with consensusNodePk := keys i }

end Participants

section Network

variable {ι : Type}

/-- Another participant than `i` has sent the message. -/
def SentByOther (history : PbftHistory ι) (i : ι) (msg : PhaseMessage) : Prop :=
  ∃ entry ∈ history, entry.1 ≠ i ∧ msg ∈ sentPhase entry.2.out

def Delivered (history : PbftHistory ι) (i : ι) (msg : PhaseMessage) : Prop :=
  ∃ entry ∈ history, entry.1 = i ∧ entry.2.event.phaseMessage = some msg

/-- A delivered message of the three phases was sent by another participant and is delivered for the first
time; a request goes to the primary. -/
structure Genuine (c : Participants ι) (w : PbftWorld ι) (delivery : ι × Event) : Prop where
  toPrimary : delivery.2.isRequest = true → delivery.1 = c.primary
  sent : ∀ msg ∈ delivery.2.phaseMessage, SentByOther w.history delivery.1 msg
  fresh : ∀ msg ∈ delivery.2.phaseMessage, ¬ Delivered w.history delivery.1 msg

theorem SentByOther.mono {history history' : PbftHistory ι} {i : ι} {msg : PhaseMessage}
    (h : SentByOther history i msg) (hsubset : history ⊆ history') : SentByOther history' i msg := by
  obtain ⟨entry, hentry, hother, hsent⟩ := h
  exact ⟨entry, hsubset hentry, hother, hsent⟩

theorem Delivered.mono {history history' : PbftHistory ι} {i : ι} {msg : PhaseMessage}
    (h : Delivered history i msg) (hsubset : history ⊆ history') : Delivered history' i msg := by
  obtain ⟨entry, hentry, hreceiver, hevent⟩ := h
  exact ⟨entry, hsubset hentry, hreceiver, hevent⟩

end Network

namespace Participants

variable {ι : Type} [DecidableEq ι] {c : Participants ι} {f : UInt64} {keys : ι → HashMap Bytes Bytes}
  {w : PbftWorld ι}

abbrev Reachable (X : Externals) (c : Participants ι) (f : UInt64) (keys : ι → HashMap Bytes Bytes) :
    PbftWorld ι → Prop :=
  World.Reachable (c.step X) (Genuine c) (c.start f keys)

/-- What is known of an entry of the history of a reachable world. -/
theorem Reachable.entry (h : Reachable X c f keys w) {i : ι} {t : Transition PBFTProtocol Event Answer}
    (hmem : (i, t) ∈ w.history) :
    ∃ w₀ : PbftWorld ι, Reachable X c f keys w₀ ∧ w₀.history ⊆ w.history ∧ w₀.nodes i = t.pre ∧
      Genuine c w₀ (i, t.event) ∧ Pbft.step X (c.peerId i) t.pre t.event = some (t.post, t.out) := by
  obtain ⟨before, after, hsplit⟩ := List.append_of_mem hmem
  obtain ⟨w₀, hreachable, hhistory, hpre, hgenuine, htaken⟩ := World.Reachable.before h rfl hsplit
  exact ⟨w₀, hreachable, by rw [hhistory, hsplit]; exact List.subset_append_left _ _, hpre, hgenuine, htaken⟩

theorem Reachable.keypair (h : Reachable X c f keys w) (i : ι) : (w.nodes i).keypair = c.keypair i := by
  have hrun := World.Reachable.isRun h rfl i
  have hrelated := hrun.related_of_forall (fun p p' : PBFTProtocol ↦ p'.keypair = p.keypair) (fun _ ↦ rfl)
    (fun _ _ _ hfirst hlast ↦ hlast.trans hfirst) fun t ht ↦ step_keypair (hrun.taken t ht)
  exact hrelated.1

theorem Reachable.faultToleranceCount (h : Reachable X c f keys w) (i : ι) :
    (w.nodes i).state.faultToleranceCount = f := by
  have hrun := World.Reachable.isRun h rfl i
  have hrelated := hrun.related_of_forall
    (fun p p' : PBFTProtocol ↦ p'.state.faultToleranceCount = p.state.faultToleranceCount) (fun _ ↦ rfl)
    (fun _ _ _ hfirst hlast ↦ hlast.trans hfirst) fun t ht ↦ step_faultToleranceCount (hrun.taken t ht)
  exact hrelated.1

/-! ## Where messages come from -/

theorem Reachable.sent_of_delivered (h : Reachable X c f keys w) {i : ι} {msg : PhaseMessage}
    (hdelivered : Delivered w.history i msg) : SentByOther w.history i msg := by
  obtain ⟨⟨j, t⟩, hmem, rfl, hevent⟩ := hdelivered
  obtain ⟨w₀, -, hsubset, -, hgenuine, -⟩ := h.entry hmem
  exact (hgenuine.sent msg hevent).mono hsubset

/-- Only the primary proposes. -/
theorem Reachable.eq_primary_of_sent (h : Reachable X c f keys w) {i : ι} {t : Transition PBFTProtocol Event Answer}
    (hmem : (i, t) ∈ w.history) {msg : PrePrepare} (hsent : .prePrepare msg ∈ sentPhase t.out) : i = c.primary := by
  obtain ⟨w₀, -, -, -, hgenuine, htaken⟩ := h.entry hmem
  exact hgenuine.toPrimary (step_sent_preprepare htaken (preprepare_of_mem_sentPhase hsent))

/-- Every Prepare is that of a backup, and its sender and slot determine it. -/
theorem Reachable.prepare_of_sent (h : Reachable X c f keys w) {i : ι} {t : Transition PBFTProtocol Event Answer}
    (hmem : (i, t) ∈ w.history) {msg : Prepare} (hsent : .prepare msg ∈ sentPhase t.out) :
    i ≠ c.primary ∧ msg = c.prepareOf X i msg.slot := by
  obtain ⟨w₀, hreachable, -, hpre, hgenuine, htaken⟩ := h.entry hmem
  obtain ⟨preprepare, request, hevent, -, -, rfl⟩ := step_sent_prepare htaken (prepare_of_mem_sentPhase hsent)
  constructor
  · rintro rfl
    obtain ⟨⟨j, t'⟩, hproposed, hother, hproposal⟩ := hgenuine.sent (.prePrepare preprepare) (by rw [hevent]; rfl)
    exact hother (hreachable.eq_primary_of_sent hproposed hproposal)
  · rw [prepareOf, ← hreachable.keypair i, hpre]
    rfl

theorem Reachable.commit_of_sent (h : Reachable X c f keys w) {i : ι} {t : Transition PBFTProtocol Event Answer}
    (hmem : (i, t) ∈ w.history) {msg : Commit} (hsent : .commit msg ∈ sentPhase t.out) :
    msg = c.commitOf X i msg.slot := by
  obtain ⟨w₀, hreachable, -, hpre, -, htaken⟩ := h.entry hmem
  obtain ⟨prepare, -, -, -, -, rfl⟩ := step_sent_commit htaken (commit_of_mem_sentPhase hsent)
  rw [commitOf, ← hreachable.keypair i, hpre]
  rfl

theorem Reachable.exists_backup (h : Reachable X c f keys w) {i : ι} {msg : Prepare}
    (hsent : SentByOther w.history i (.prepare msg)) :
    ∃ j, j ≠ i ∧ j ≠ c.primary ∧ msg = c.prepareOf X j msg.slot := by
  obtain ⟨⟨j, t⟩, hmem, hother, hmsg⟩ := hsent
  obtain ⟨hbackup, heq⟩ := h.prepare_of_sent hmem hmsg
  exact ⟨j, hother, hbackup, heq⟩

theorem Reachable.prepare_eq (h : Reachable X c f keys w) {i j : ι} {msg msg' : Prepare}
    (hsent : SentByOther w.history i (.prepare msg)) (hsent' : SentByOther w.history j (.prepare msg'))
    (hsender : msg.fromPeerId = msg'.fromPeerId) (hslot : msg.slot = msg'.slot) : msg = msg' := by
  obtain ⟨k, -, -, hmsg⟩ := h.exists_backup hsent
  obtain ⟨k', -, -, hmsg'⟩ := h.exists_backup hsent'
  rw [hmsg, hmsg'] at hsender
  rw [hmsg, hmsg', c.peerId_injective hsender, hslot]

theorem Reachable.commit_eq (h : Reachable X c f keys w) {i j : ι} {msg msg' : Commit}
    (hsent : SentByOther w.history i (.commit msg)) (hsent' : SentByOther w.history j (.commit msg'))
    (hsender : msg.fromPeerId = msg'.fromPeerId) (hslot : msg.slot = msg'.slot) : msg = msg' := by
  obtain ⟨⟨k, t⟩, hmem, -, hmsg⟩ := hsent
  obtain ⟨⟨k', t'⟩, hmem', -, hmsg'⟩ := hsent'
  have heq := h.commit_of_sent hmem hmsg
  have heq' := h.commit_of_sent hmem' hmsg'
  rw [heq, heq'] at hsender
  rw [heq, heq', c.peerId_injective hsender, hslot]

/-! ## What is counted -/

/-- What a participant has logged under a vote key are votes that were delivered to it, no two of one sender. -/
structure Tallied (X : Externals) (history : PbftHistory ι) (i : ι) (p : PBFTProtocol) : Prop where
  distinct : VotesDistinct X p
  delivered : ∀ key, VoteKey X key → ∀ vote ∈ p.log.messages.listAt key, ∀ msg ∈ vote.phaseMessage,
    Delivered history i msg

/-- A participant has not logged a vote of the sender for the slot, since it would be the delivered vote. -/
theorem Reachable.freshVote (hX : X.CollisionFree) (h : Reachable X c f keys w) {delivery : ι × Event}
    (hgenuine : Genuine c w delivery) (htallied : Tallied X w.history delivery.1 (w.nodes delivery.1)) :
    FreshVote X (w.nodes delivery.1) delivery.2 := by
  intro vote hvote hlogged
  obtain ⟨other, hother, hsender⟩ := List.mem_map.1 hlogged
  rcases acceptedVote_cases hvote with ⟨msg, hevent, rfl, -⟩ | ⟨msg, hevent, rfl, -⟩
  · have hkey : VoteKey X (getMessageKey X (.prepare msg)) :=
      fun preprepare ↦ preprepare_key_ne_prepare hX preprepare msg
    have hballots := htallied.distinct _ hkey
    obtain ⟨prepare, rfl, hslot⟩ := (hballots.isVote other hother).eq_prepare hX (hballots.keyed other hother)
    have hdelivered := htallied.delivered _ hkey _ hother (.prepare prepare) rfl
    have hphase : .prepare msg ∈ delivery.2.phaseMessage := by rw [hevent]; rfl
    have heq : prepare = msg :=
      h.prepare_eq (h.sent_of_delivered hdelivered) (hgenuine.sent _ hphase) hsender hslot
    exact hgenuine.fresh _ hphase (heq ▸ hdelivered)
  · have hkey : VoteKey X (getMessageKey X (.commit msg)) :=
      fun preprepare ↦ preprepare_key_ne_commit hX preprepare msg
    have hballots := htallied.distinct _ hkey
    obtain ⟨commit, rfl, hslot⟩ := (hballots.isVote other hother).eq_commit hX (hballots.keyed other hother)
    have hdelivered := htallied.delivered _ hkey _ hother (.commit commit) rfl
    have hphase : .commit msg ∈ delivery.2.phaseMessage := by rw [hevent]; rfl
    have heq : commit = msg :=
      h.commit_eq (h.sent_of_delivered hdelivered) (hgenuine.sent _ hphase) hsender hslot
    exact hgenuine.fresh _ hphase (heq ▸ hdelivered)

omit [DecidableEq ι] in
theorem Tallied.grow {history : PbftHistory ι} {i : ι} {p : PBFTProtocol} (h : Tallied X history i p)
    (entry : ι × Transition PBFTProtocol Event Answer) : Tallied X (history ++ [entry]) i p where
  distinct := h.distinct
  delivered := fun key hkey vote hvote msg hmsg ↦
    (h.delivered key hkey vote hvote msg hmsg).mono (List.subset_append_left _ _)

omit [DecidableEq ι] in
theorem Tallied.step {history : PbftHistory ι} {i : ι} {p p' : PBFTProtocol} {event : Event} {out : Answer}
    (h : Tallied X history i p) (hfresh : FreshVote X p event)
    (htaken : Pbft.step X (c.peerId i) p event = some (p', out)) :
    Tallied X (history ++ [(i, ⟨p, event, out, p'⟩)]) i p' where
  distinct := h.distinct.step htaken hfresh
  delivered := by
    intro key hkey vote hvote msg hmsg
    generalize hafter : p'.log.messages.listAt key = after at hvote
    cases hafter ▸ step_messages htaken key with
    | cleared => exact absurd hvote List.not_mem_nil
    | preprepares extra hextra =>
      rcases List.mem_append.1 hvote with hold | hnew
      · exact (h.delivered key hkey vote hold msg hmsg).mono (List.subset_append_left _ _)
      · obtain ⟨preprepare, rfl, hpreprepare⟩ := hextra vote hnew
        exact absurd hpreprepare (hkey preprepare)
    | vote accepted haccepted _ =>
      rcases List.mem_append.1 hvote with hold | hnew
      · exact (h.delivered key hkey vote hold msg hmsg).mono (List.subset_append_left _ _)
      · obtain rfl := List.mem_singleton.1 hnew
        refine ⟨_, List.mem_append_right _ (List.mem_singleton.2 rfl), rfl, ?_⟩
        rcases acceptedVote_cases haccepted with ⟨_, rfl, rfl, -⟩ | ⟨_, rfl, rfl, -⟩
        · exact hmsg
        · exact hmsg

theorem Reachable.tallied (hX : X.CollisionFree) (h : Reachable X c f keys w) (i : ι) :
    Tallied X w.history i (w.nodes i) := by
  revert i
  induction h with
  | start =>
    intro i
    exact ⟨.of_messages_eq_empty rfl, fun key _ vote hvote ↦ absurd hvote (by
      simp [start, World.start, PBFTProtocol.new, ConsensusLog.new])⟩
  | @deliver w w' delivery previous hgenuine htaken ih =>
    apply World.forall_nodes_of_deliver (Tallied X) _ _ htaken ih
    · exact fun entry i p htallied ↦ htallied.grow entry
    · exact fun p out hstep htallied ↦ htallied.step (Reachable.freshVote hX previous hgenuine htallied) hstep

/-- What is known of an entry of the history and of what its participant had logged before. -/
theorem Reachable.tallied_entry (hX : X.CollisionFree) (h : Reachable X c f keys w) {i : ι}
    {t : Transition PBFTProtocol Event Answer} (hmem : (i, t) ∈ w.history) :
    ∃ w₀ : PbftWorld ι, Reachable X c f keys w₀ ∧ w₀.history ⊆ w.history ∧ Tallied X w₀.history i t.pre ∧
      FreshVote X t.pre t.event ∧ t.pre.state.faultToleranceCount = f ∧ Genuine c w₀ (i, t.event) ∧
      Pbft.step X (c.peerId i) t.pre t.event = some (t.post, t.out) := by
  obtain ⟨w₀, hreachable, hsubset, hpre, hgenuine, htaken⟩ := h.entry hmem
  have htallied := hreachable.tallied hX i
  have hfresh := hreachable.freshVote hX hgenuine htallied
  have hf := hreachable.faultToleranceCount i
  rw [hpre] at htallied hfresh hf
  exact ⟨w₀, hreachable, hsubset, htallied, hfresh, hf, hgenuine, htaken⟩

/-! ## Who can commit and complete -/

variable [Fintype ι]

/-- A backup commits on Prepares of participants other than itself and the primary. -/
theorem Reachable.card_of_backup_commit (hX : X.CollisionFree) (h : Reachable X c f keys w) {i : ι}
    {t : Transition PBFTProtocol Event Answer} (hmem : (i, t) ∈ w.history) {msg : Commit}
    (hsent : .commit msg ∈ sentPhase t.out) (hbackup : i ≠ c.primary) :
    2 * f.toNat + 2 ≤ Fintype.card ι := by
  obtain ⟨w₀, hreachable, -, htallied, hfresh, hf, hgenuine, htaken⟩ := h.tallied_entry hX hmem
  obtain ⟨prepare, hevent, -, hcount, hpost, -⟩ := step_sent_commit htaken (commit_of_mem_sentPhase hsent)
  have hkey : VoteKey X (getMessageKey X (.prepare prepare)) :=
    fun preprepare ↦ preprepare_key_ne_prepare hX preprepare prepare
  have hballots := (htallied.distinct.step htaken hfresh) _ hkey
  rw [hpost] at hballots
  have hmember : ∀ other ∈ t.pre.log.messages.listAt (getMessageKey X (.prepare prepare)) ++ [.prepare prepare],
      ∃ j, c.peerId j = other.sender ∧ j ∉ ({i, c.primary} : Finset ι) := by
    intro other hother
    obtain ⟨prepare', rfl, -⟩ := (hballots.isVote other hother).eq_prepare hX (hballots.keyed other hother)
    have hother : SentByOther w₀.history i (.prepare prepare') := by
      rcases List.mem_append.1 hother with hold | hnew
      · exact hreachable.sent_of_delivered (htallied.delivered _ hkey _ hold _ rfl)
      · cases List.mem_singleton.1 hnew
        exact hgenuine.sent _ (by rw [hevent]; rfl)
    obtain ⟨j, hji, hjp, heq⟩ := hreachable.exists_backup hother
    exact ⟨j, (congrArg Prepare.fromPeerId heq).symm, by simp [hji, hjp]⟩
  obtain ⟨senders, hcard, hsenders⟩ := hballots.signedByAtLeast rfl hmember
  obtain ⟨members, hmembers, hof⟩ := Quorum.exists_members c.peerId senders
    (P := fun j ↦ j ∉ ({i, c.primary} : Finset ι)) fun sender hsender ↦ by
      obtain ⟨other, ⟨j, hj, hnot⟩, hsame, -⟩ := hsenders sender hsender
      exact ⟨j, hj.trans hsame, hnot⟩
  have hdisjoint : members.card + ({i, c.primary} : Finset ι).card ≤ Fintype.card ι := by
    rw [← Finset.card_union_of_disjoint (Finset.disjoint_left.2 hof)]
    exact Finset.card_le_univ _
  rw [Finset.card_pair hbackup] at hdisjoint
  rw [List.length_append, List.length_singleton, hcount, hf] at hcard
  omega

/-- A participant completes a request on Commits of participants that have committed. -/
theorem Reachable.exists_commit_of_complete (hX : X.CollisionFree) (h : Reachable X c f keys w) {i : ι}
    {t : Transition PBFTProtocol Event Answer} (hmem : (i, t) ∈ w.history) {request : Request}
    {queue : List (SendType Payload)} (hcomplete : t.out = .complete request queue) :
    1 ≤ f.toNat ∧ ∃ members : Finset ι, 2 * f.toNat ≤ members.card ∧ ∀ j ∈ members,
      ∃ t', (j, t') ∈ w.history ∧ ∃ msg, .commit msg ∈ sentPhase t'.out := by
  obtain ⟨w₀, hreachable, hsubset, htallied, hfresh, hf, hgenuine, htaken⟩ := h.tallied_entry hX hmem
  rw [hcomplete] at htaken
  obtain ⟨commit, hevent, haccepted, -, hcount⟩ := step_complete htaken
  have hkey : VoteKey X (getMessageKey X (.commit commit)) :=
    fun preprepare ↦ preprepare_key_ne_commit hX preprepare commit
  have hvote : acceptedVote X t.pre t.event = some (.commit commit) := by rw [hevent]; exact if_pos haccepted
  have hballots := (htallied.distinct _ hkey).concat (.commit commit) rfl (acceptedVote_signed hvote)
    (hfresh _ hvote)
  have hmember : ∀ other ∈ t.pre.log.messages.listAt (getMessageKey X (.commit commit)) ++ [.commit commit],
      ∃ j, c.peerId j = other.sender ∧ ∃ t', (j, t') ∈ w.history ∧ ∃ msg, .commit msg ∈ sentPhase t'.out := by
    intro other hother
    obtain ⟨commit', rfl, -⟩ := (hballots.isVote other hother).eq_commit hX (hballots.keyed other hother)
    have hother : SentByOther w₀.history i (.commit commit') := by
      rcases List.mem_append.1 hother with hold | hnew
      · exact hreachable.sent_of_delivered (htallied.delivered _ hkey _ hold _ rfl)
      · cases List.mem_singleton.1 hnew
        exact hgenuine.sent _ (by rw [hevent]; rfl)
    obtain ⟨⟨j, t'⟩, hcommitted, -, hmsg⟩ := hother
    have heq := hreachable.commit_of_sent hcommitted hmsg
    exact ⟨j, (congrArg Commit.fromPeerId heq).symm, t', hsubset hcommitted, commit', hmsg⟩
  obtain ⟨senders, hcard, hsenders⟩ := hballots.signedByAtLeast rfl hmember
  obtain ⟨members, hmembers, hof⟩ := Quorum.exists_members c.peerId senders
    (P := fun j ↦ ∃ t', (j, t') ∈ w.history ∧ ∃ msg, .commit msg ∈ sentPhase t'.out) fun sender hsender ↦ by
      obtain ⟨other, ⟨j, hj, hcommitted⟩, hsame, -⟩ := hsenders sender hsender
      exact ⟨j, hj.trans hsame, hcommitted⟩
  rw [List.length_append, List.length_singleton, hcount, hf] at hcard
  rw [hf] at hcount
  exact ⟨by omega, members, hcard.trans hmembers, hof⟩

/-- Among `2 * f + 1` participants or fewer no request is ever completed: only the primary commits. -/
theorem no_completion_of_card_le (hX : X.CollisionFree) (hcard : Fintype.card ι ≤ 2 * f.toNat + 1)
    (h : Reachable X c f keys w) :
    ∀ entry ∈ w.history, ∀ request queue, entry.2.out ≠ .complete request queue := by
  intro entry hentry request queue hcomplete
  obtain ⟨hf, members, hmembers, hof⟩ := h.exists_commit_of_complete hX hentry hcomplete
  have hprimary : members ⊆ {c.primary} := by
    intro j hj
    obtain ⟨t, hmem, msg, hsent⟩ := hof j hj
    by_contra hbackup
    have hlarge := h.card_of_backup_commit hX hmem hsent fun heq ↦ hbackup (Finset.mem_singleton.2 heq)
    omega
  have hone := Finset.card_le_card hprimary
  rw [Finset.card_singleton] at hone
  omega

end Participants

/-! ## Three participants -/

section Decidable

variable {ι : Type} [DecidableEq ι] (c : Participants ι) (w : PbftWorld ι) (delivery : ι × Event)

instance SentByOther.decidable (history : PbftHistory ι) (i : ι) (msg : PhaseMessage) :
    Decidable (SentByOther history i msg) :=
  inferInstanceAs (Decidable (∃ entry ∈ history, entry.1 ≠ i ∧ msg ∈ sentPhase entry.2.out))

instance Delivered.decidable (history : PbftHistory ι) (i : ι) (msg : PhaseMessage) :
    Decidable (Delivered history i msg) :=
  inferInstanceAs (Decidable (∃ entry ∈ history, entry.1 = i ∧ entry.2.event.phaseMessage = some msg))

instance Genuine.decidable : Decidable (Genuine c w delivery) :=
  decidable_of_iff ((delivery.2.isRequest = true → delivery.1 = c.primary) ∧
      (∀ msg ∈ delivery.2.phaseMessage, SentByOther w.history delivery.1 msg) ∧
      ∀ msg ∈ delivery.2.phaseMessage, ¬ Delivered w.history delivery.1 msg)
    ⟨fun h ↦ ⟨h.1, h.2.1, h.2.2⟩, fun h ↦ ⟨h.1, h.2, h.3⟩⟩

end Decidable

/-- Three participants that know each other's keys; the first one proposes. -/
def threeParticipants : Participants (Fin 3) where
  peerId i := [UInt8.ofNat (i + 1)]
  peerId_injective := by decide
  keypair i := [UInt8.ofNat (i + 1)]
  primary := 0

def threeKeys (_ : Fin 3) : HashMap Bytes Bytes :=
  (((∅ : HashMap Bytes Bytes).insert [1] [1]).insert [2] [2]).insert [3] [3]

/-- Everything that three participants send for one request with one fault tolerated. -/
def threeDeliveries : List (Fin 3 × Event) :=
  [(0, .message (.request ⟨"a"⟩)), (1, .message (.prePrepare (roundPreprepare [1] ⟨"a"⟩))),
    (2, .message (.prePrepare (roundPreprepare [1] ⟨"a"⟩))),
    (0, .message (.prepare (roundPrepare [2] ⟨"a"⟩))), (0, .message (.prepare (roundPrepare [3] ⟨"a"⟩))),
    (1, .message (.prepare (roundPrepare [3] ⟨"a"⟩))), (2, .message (.prepare (roundPrepare [2] ⟨"a"⟩))),
    (1, .message (.commit (roundCommit [1] ⟨"a"⟩))), (2, .message (.commit (roundCommit [1] ⟨"a"⟩)))]

def threeWorld : PbftWorld (Fin 3) :=
  World.final (threeParticipants.step .transparent) (Genuine threeParticipants)
    (threeParticipants.start 1 threeKeys) threeDeliveries

/-- All messages of the round are delivered, the primary has sent its Commit, and nobody completes. -/
theorem no_completion_of_card_le_three :
    .commit (roundCommit [1] ⟨"a"⟩) ∈ threeWorld.history.flatMap (fun entry ↦ sentPhase entry.2.out) ∧
      ∀ entry ∈ threeWorld.history, ∀ request queue, entry.2.out ≠ .complete request queue := by
  have hreachable : Participants.Reachable .transparent threeParticipants 1 threeKeys threeWorld :=
    World.Reachable.of_isSome (by decide +kernel)
  exact ⟨by decide +kernel, Participants.no_completion_of_card_le Utils.Platform.collisionFree_transparent
    (by decide) hreachable⟩

end BFTDiagnosis.Pbft
