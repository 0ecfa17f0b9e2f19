import BFTDiagnosis.BasicHotstuff.Steps
import BFTDiagnosis.ChainHotstuff.Certification
import BFTDiagnosis.ChainHotstuff.Network
import BFTDiagnosis.Lib.Quorum

/-!
# Quorums of new views

A leader of either protocol waits for `2 * f + 1` new views and then takes over the highest QC among them. It
keeps new views in a list for each view number that a message may carry, looks at the length of the list, and
does not compare the number with its own view. The messages behind a new `high_qc` come from as many senders,
and are not stale, when no sender is recorded twice under a number and the message that completes a quorum is
not of an old view. What is picked is the first QC of the greatest view, whoever sent it.
-/

namespace BFTDiagnosis

open Components Utils Word Hotstuff

namespace Hotstuff

variable {μ : Type}

/-- Under every view number, the recorded messages have pairwise different senders. -/
def DistinctSenders (sender : μ → Bytes) (recorded : HashMap UInt64 (List μ)) : Prop :=
  ∀ view, ((recorded.listAt view).map sender).Nodup

/-- At least `2 * f + 1` senders are recorded under a view number, and it is not stale. -/
structure RealQuorum (sender : μ → Bytes) (recorded : HashMap UInt64 (List μ)) (f : UInt64)
    (viewNum current : UInt64) : Prop where
  senders : 2 * f.toNat + 1 ≤ ((recorded.listAt viewNum).map sender).toFinset.card
  recent : current.toNat ≤ viewNum.toNat + 1

/-- A message of a sender that is not recorded under its view number yet; if it completes a quorum, its view
is at most one behind. -/
structure FreshSender (sender : μ → Bytes) (recorded : HashMap UInt64 (List μ)) (f : UInt64) (msg : μ)
    (viewNum current : UInt64) : Prop where
  fresh : sender msg ∉ (recorded.listAt viewNum).map sender
  recent : (recorded.listAt viewNum).length = 2 * f.toNat → current.toNat ≤ viewNum.toNat + 1

instance FreshSender.decidable (sender : μ → Bytes) (recorded : HashMap UInt64 (List μ)) (f : UInt64) (msg : μ)
    (viewNum current : UInt64) : Decidable (FreshSender sender recorded f msg viewNum current) :=
  decidable_of_iff (sender msg ∉ (recorded.listAt viewNum).map sender ∧
      ((recorded.listAt viewNum).length = 2 * f.toNat → current.toNat ≤ viewNum.toNat + 1))
    ⟨fun h ↦ ⟨h.1, h.2⟩, fun h ↦ ⟨h.fresh, h.recent⟩⟩

variable {sender : μ → Bytes} {recorded : HashMap UInt64 (List μ)} {f viewNum current : UInt64} {msg : μ}

theorem distinctSenders_empty : DistinctSenders sender ∅ := by
  intro view
  rw [HashMap.listAt_empty]
  exact List.nodup_nil

theorem FreshSender.distinctSenders (hfresh : FreshSender sender recorded f msg viewNum current)
    (h : DistinctSenders sender recorded) : DistinctSenders sender (recorded.pushAt viewNum msg) := by
  intro view
  by_cases hview : view = viewNum
  · subst hview
    rw [HashMap.listAt_pushAt_self, List.map_append, List.map_singleton, ← List.concat_eq_append]
    exact (h view).concat hfresh.fresh
  · rw [HashMap.listAt_pushAt_of_ne recorded msg hview]
    exact h view

/-- A fresh message that makes the list as long as a quorum makes a real one. -/
theorem FreshSender.realQuorum (hfresh : FreshSender sender recorded f msg viewNum current)
    (h : DistinctSenders sender recorded)
    (hcount : ((recorded.pushAt viewNum msg).listAt viewNum).length = 2 * f.toNat + 1) :
    RealQuorum sender (recorded.pushAt viewNum msg) f viewNum current where
  senders := by
    rw [Quorum.card_toFinset_map sender (hfresh.distinctSenders h viewNum), hcount]
  recent := by
    rw [HashMap.listAt_pushAt_self, List.length_append, List.length_singleton] at hcount
    exact hfresh.recent (Nat.succ.inj hcount)

end Hotstuff

/-! ## Basic HotStuff -/

namespace BasicHotstuff

open BasicHotstuffProtocol

variable {X : Externals} {me : Bytes} {p p' : BasicHotstuffProtocol}

/-- The new view that a replica is given, if it is given one. -/
def Event.newViewMsg : Event → Option NewView
  | .message (.newView msg) _ => some msg
  | _ => none

theorem Event.newViewMsg_eq_some {event : Event} {msg : NewView} (h : event.newViewMsg = some msg) :
    ∃ order, event = .message (.newView msg) order := by
  unfold newViewMsg at h
  split at h
  case h_1 msg' order =>
    obtain rfl := Option.some.inj h
    exact ⟨order, rfl⟩
  case h_2 => cases h

/-- A new view replaces `high_qc` only for a real quorum. -/
def NewViewQuorumReal (t : Transition BasicHotstuffProtocol Event Answer) : Prop :=
  ∀ msg ∈ t.event.newViewMsg,
    t.out = .over none ∨ t.post.state.highQC ≠ t.pre.state.highQC →
      RealQuorum NewView.fromPeerId t.post.log.newviews t.pre.state.faultToleranceCount msg.viewNum
        t.pre.state.view

def FreshNewView (t : Transition BasicHotstuffProtocol Event Answer) : Prop :=
  ∀ msg ∈ t.event.newViewMsg,
    FreshSender NewView.fromPeerId t.pre.log.newviews t.pre.state.faultToleranceCount msg msg.viewNum
      t.pre.state.view

instance FreshNewView.decidable (t : Transition BasicHotstuffProtocol Event Answer) :
    Decidable (FreshNewView t) :=
  inferInstanceAs (Decidable (∀ msg ∈ t.event.newViewMsg, _))

/-- A new view is recorded, and replaces `high_qc` exactly when it makes the list as long as a quorum. -/
theorem handleNewview_cases {msg : NewView} {out : Answer} (h : p.handleNewview msg = some (p', out)) :
    p'.log.newviews = p.log.newviews.pushAt msg.viewNum msg ∧
      ((out = silent ∧ p'.state.highQC = p.state.highQC) ∨
        ((p.log.newviews.pushAt msg.viewNum msg).listAt msg.viewNum).length =
          2 * p.state.faultToleranceCount.toNat + 1) := by
  simp only [handleNewview, bind, pure, Option.bind_eq_some_iff] at h
  obtain ⟨threshold, hthreshold, hrest⟩ := h
  split at hrest
  case isTrue hcount =>
    simp only [Option.bind_eq_some_iff, Option.some.injEq, Prod.mk.injEq] at hrest
    obtain ⟨highQC, -, rfl, rfl⟩ := hrest
    exact ⟨rfl, .inr (hcount.trans (toNat_of_quorumSize hthreshold))⟩
  case isFalse =>
    obtain ⟨rfl, rfl⟩ := Prod.mk.inj (Option.some.inj hrest)
    exact ⟨rfl, .inl ⟨rfl, rfl⟩⟩

/-- Only a new view changes the list of new views; a reset empties it. -/
theorem newviews_eq_of_step {event : Event} {out : Answer} (hevent : event.newViewMsg = none)
    (h : step X me p event = some (p', out)) :
    p'.log.newviews = p.log.newviews ∨ p'.log.newviews = ∅ := by
  cases step_effect h with
  | newView msg order => cases hevent
  | newViewQuorum msg order highQC => cases hevent
  | protocolReset peerId => exact .inr rfl
  | _ => exact .inl rfl

theorem distinctSenders_of_step {t : Transition BasicHotstuffProtocol Event Answer}
    (h : DistinctSenders NewView.fromPeerId t.pre.log.newviews) (hfresh : FreshNewView t)
    (taken : step X me t.pre t.event = some (t.post, t.out)) :
    DistinctSenders NewView.fromPeerId t.post.log.newviews := by
  cases hmsg : t.event.newViewMsg with
  | some msg =>
    obtain ⟨order, hevent⟩ := Event.newViewMsg_eq_some hmsg
    rw [hevent] at taken
    rw [(handleNewview_cases taken).1]
    exact (hfresh msg hmsg).distinctSenders h
  | none =>
    rcases newviews_eq_of_step hmsg taken with hsame | hempty
    · rw [hsame]
      exact h
    · rw [hempty]
      exact distinctSenders_empty

theorem newViewQuorumReal_of_distinctSenders {t : Transition BasicHotstuffProtocol Event Answer}
    (h : DistinctSenders NewView.fromPeerId t.pre.log.newviews) (hfresh : FreshNewView t)
    (taken : step X me t.pre t.event = some (t.post, t.out)) : NewViewQuorumReal t := by
  intro msg hmsg hreplaced
  obtain ⟨order, hevent⟩ := Event.newViewMsg_eq_some hmsg
  rw [hevent] at taken
  obtain ⟨hrecorded, ⟨hsilent, hsame⟩ | hcount⟩ := handleNewview_cases taken
  · rcases hreplaced with hout | hchanged
    · rw [hsilent] at hout
      cases hout
    · exact absurd hsame hchanged
  · rw [hrecorded]
    exact (hfresh msg hmsg).realQuorum h hcount

end BasicHotstuff

/-! ## Chained HotStuff -/

namespace ChainHotstuff

open ChainHotstuffProtocol

variable {X : Externals} {me : Bytes} {p p' : ChainHotstuffProtocol}

/-- The Generic without a block that a replica is given, if it is given one. -/
def Event.newViewMsg : Event → Option Generic
  | .message (.generic generic) _ => if generic.block.isNone then some generic else none
  | _ => none

theorem Event.newViewMsg_eq_some {event : Event} {generic : Generic} (h : event.newViewMsg = some generic) :
    generic.block = none ∧ ∃ order, event = .message (.generic generic) order := by
  unfold newViewMsg at h
  split at h
  case h_1 generic' order =>
    split at h
    case isTrue hnone =>
      obtain rfl := Option.some.inj h
      exact ⟨Option.isNone_iff_eq_none.1 hnone, order, rfl⟩
    case isFalse => cases h
  case h_2 => cases h

/-- A Generic without a block replaces `high_qc` or `generic_qc`, or changes the view, only for a real quorum. -/
def NewViewQuorumReal (t : ChainTransition) : Prop :=
  ∀ generic ∈ t.event.newViewMsg,
    t.out.answer = .over none ∨ t.post.state.highQC ≠ t.pre.state.highQC ∨
        t.post.state.genericQC ≠ t.pre.state.genericQC ∨ t.post.state.view ≠ t.pre.state.view →
      RealQuorum Generic.fromPeerId t.post.log.generics t.pre.state.faultToleranceCount generic.viewNum
        t.pre.state.view

def FreshNewView (t : ChainTransition) : Prop :=
  ∀ generic ∈ t.event.newViewMsg,
    FreshSender Generic.fromPeerId t.pre.log.generics t.pre.state.faultToleranceCount generic generic.viewNum
      t.pre.state.view

instance FreshNewView.decidable (t : ChainTransition) : Decidable (FreshNewView t) :=
  inferInstanceAs (Decidable (∀ generic ∈ t.event.newViewMsg, _))

/-- A Generic without a block is recorded, and acted on exactly when it makes the list as long as a quorum. -/
theorem newViewGeneric_cases {generic : Generic} {order : List (Bytes × ConsensusNodePKInfo)} {out : Outcome}
    (hblock : generic.block = none) (h : step X me p (.message (.generic generic) order) = some (p', out)) :
    p'.log.generics = p.log.generics.pushAt generic.viewNum generic ∧
      ((out = .of silent ∧ p'.state = p.state) ∨
        ((p.log.generics.pushAt generic.viewNum generic).listAt generic.viewNum).length =
          2 * p.state.faultToleranceCount.toNat + 1) := by
  obtain ⟨peer, -, hhandled⟩ := Option.bind_eq_some_iff.1 h
  simp only [handleGeneric, hblock, handleNewviewGeneric, bind, pure, Option.bind_eq_some_iff] at hhandled
  obtain ⟨threshold, hthreshold, hrest⟩ := hhandled
  split at hrest
  case isTrue hcount =>
    simp only [Option.bind_eq_some_iff, Option.some.injEq, Prod.mk.injEq, Prod.exists] at hrest
    obtain ⟨highQC, -, p₁, queue, hnext, rfl, rfl⟩ := hrest
    obtain ⟨currentLeader, nextLeader, rfl, -⟩ := nextView_cases hnext
    exact ⟨rfl, .inr (hcount.trans (toNat_of_quorumSize hthreshold))⟩
  case isFalse =>
    obtain ⟨rfl, rfl⟩ := Prod.mk.inj (Option.some.inj hrest)
    exact ⟨rfl, .inl ⟨rfl, rfl⟩⟩

/-- Only a Generic without a block changes the list of Generics; a reset empties it. -/
theorem generics_eq_of_step {event : Event} {out : Outcome} (hevent : event.newViewMsg = none)
    (h : step X me p event = some (p', out)) :
    p'.log.generics = p.log.generics ∨ p'.log.generics = ∅ := by
  cases step_effect h with
  | newView generic order hblock => simp [Event.newViewMsg, hblock] at hevent
  | newViewQuorum generic order highQC currentLeader nextLeader hblock =>
    simp [Event.newViewMsg, hblock] at hevent
  | generic generic b1 order taken p' out hblock hview handled => exact .inl handled.frame.2.2.2
  | request request order taken p' out handled => exact .inl handled.frame.2.2.2
  | protocolReset peerId => exact .inr rfl
  | _ => exact .inl rfl

theorem distinctSenders_of_step {t : ChainTransition}
    (h : DistinctSenders Generic.fromPeerId t.pre.log.generics) (hfresh : FreshNewView t)
    (taken : step X me t.pre t.event = some (t.post, t.out)) :
    DistinctSenders Generic.fromPeerId t.post.log.generics := by
  cases hmsg : t.event.newViewMsg with
  | some generic =>
    obtain ⟨hblock, order, hevent⟩ := Event.newViewMsg_eq_some hmsg
    rw [hevent] at taken
    rw [(newViewGeneric_cases hblock taken).1]
    exact (hfresh generic hmsg).distinctSenders h
  | none =>
    rcases generics_eq_of_step hmsg taken with hsame | hempty
    · rw [hsame]
      exact h
    · rw [hempty]
      exact distinctSenders_empty

theorem newViewQuorumReal_of_distinctSenders {t : ChainTransition}
    (h : DistinctSenders Generic.fromPeerId t.pre.log.generics) (hfresh : FreshNewView t)
    (taken : step X me t.pre t.event = some (t.post, t.out)) : NewViewQuorumReal t := by
  intro generic hmsg hreplaced
  obtain ⟨hblock, order, hevent⟩ := Event.newViewMsg_eq_some hmsg
  rw [hevent] at taken
  obtain ⟨hrecorded, ⟨hsilent, hsame⟩ | hcount⟩ := newViewGeneric_cases hblock taken
  · rcases hreplaced with hout | hhigh | hgeneric | hview
    · rw [hsilent] at hout
      cases hout
    · exact absurd (congrArg State.highQC hsame) hhigh
    · exact absurd (congrArg State.genericQC hsame) hgeneric
    · exact absurd (congrArg State.view hsame) hview
  · rw [hrecorded]
    exact (hfresh generic hmsg).realQuorum h hcount

end ChainHotstuff

/-! ## Runs of both protocols -/

namespace Hotstuff

/-- In every run of either protocol whose new views are fresh, `high_qc` is replaced only for real quorums. -/
theorem newViewQuorums_real_of_fresh (me : Bytes) (f : UInt64) (peerId : String) :
    (∀ (X : BasicHotstuff.Externals)
        (run : List (Transition BasicHotstuff.BasicHotstuffProtocol BasicHotstuff.Event BasicHotstuff.Answer))
        (p : BasicHotstuff.BasicHotstuffProtocol),
      IsRun (BasicHotstuff.step X me) (.new f peerId) run p → (∀ t ∈ run, BasicHotstuff.FreshNewView t) →
        ∀ t ∈ run, BasicHotstuff.NewViewQuorumReal t) ∧
    (∀ (X : ChainHotstuff.Externals) (run : List ChainHotstuff.ChainTransition)
        (p : ChainHotstuff.ChainHotstuffProtocol),
      IsRun (ChainHotstuff.step X me) (.new f peerId) run p → (∀ t ∈ run, ChainHotstuff.FreshNewView t) →
        ∀ t ∈ run, ChainHotstuff.NewViewQuorumReal t) := by
  constructor
  · intro X run p hrun hfresh t ht
    have hdistinct := IsRun.invariant_pre_of_forall
      (fun p ↦ DistinctSenders BasicHotstuff.NewView.fromPeerId p.log.newviews) distinctSenders_empty
      (fun t h hfresh taken ↦ BasicHotstuff.distinctSenders_of_step h hfresh taken) hrun hfresh
    exact BasicHotstuff.newViewQuorumReal_of_distinctSenders (hdistinct t ht) (hfresh t ht) (hrun.taken t ht)
  · intro X run p hrun hfresh t ht
    have hdistinct := IsRun.invariant_pre_of_forall
      (fun p ↦ DistinctSenders ChainHotstuff.Generic.fromPeerId p.log.generics) distinctSenders_empty
      (fun t h hfresh taken ↦ ChainHotstuff.distinctSenders_of_step h hfresh taken) hrun hfresh
    exact ChainHotstuff.newViewQuorumReal_of_distinctSenders (hdistinct t ht) (hfresh t ht) (hrun.taken t ht)

/-- New views of the given senders for a new Basic HotStuff replica. -/
def basicNewViews (senders : List Bytes) : List BasicHotstuff.Event :=
  senders.map fun sender ↦ .message (.newView { viewNum := 0, justify := none, fromPeerId := sender }) []

/-- New views of the given senders for the second of four chained HotStuff nodes in its first view. -/
def chainNewViews (senders : List Bytes) : List ChainHotstuff.Event :=
  ChainHotstuff.joinEvents 1 ++ senders.map fun sender ↦
    .message (.generic { viewNum := 1, block := none, justify := none, fromPeerId := sender }) []

theorem newViewQuorums_real_of_threeSenders :
    (∃ run p, IsRun (BasicHotstuff.step .transparent [2]) (.new 1 "") run p ∧
      (p.log.newviews.listAt 0).length = 3 ∧ ∀ t ∈ run, BasicHotstuff.NewViewQuorumReal t) ∧
    ∃ run p, IsRun (ChainHotstuff.step .transparent [2]) (.new 1 "") run p ∧
      (p.log.generics.listAt 1).length = 3 ∧ p.state.view = 2 ∧
        ∀ t ∈ run, ChainHotstuff.NewViewQuorumReal t := by
  constructor
  · have hrun : IsRun (BasicHotstuff.step .transparent [2]) (.new 1 "") (transitions (BasicHotstuff.step
        .transparent [2]) (.new 1 "") (basicNewViews [[1], [3], [4]])) _ := .of_isSome (by decide +kernel)
    exact ⟨_, _, hrun, by decide +kernel,
      (newViewQuorums_real_of_fresh [2] 1 "").1 _ _ _ hrun (by decide +kernel)⟩
  · have hrun : IsRun (ChainHotstuff.step .transparent [2]) (.new 1 "") (transitions (ChainHotstuff.step
        .transparent [2]) (.new 1 "") (chainNewViews [[1], [3], [4]])) _ := .of_isSome (by decide +kernel)
    exact ⟨_, _, hrun, by decide +kernel, by decide +kernel,
      (newViewQuorums_real_of_fresh [2] 1 "").2 _ _ _ hrun (by decide +kernel)⟩

/-- One sender makes a quorum on its own by sending its new view three times, in both protocols. -/
theorem not_newViewQuorums_real_of_oneSender :
    (∃ run p, IsRun (BasicHotstuff.step .transparent [2]) (.new 1 "") run p ∧
      ∃ t ∈ run, ¬ BasicHotstuff.NewViewQuorumReal t) ∧
    ∃ run p, IsRun (ChainHotstuff.step .transparent [2]) (.new 1 "") run p ∧
      ∃ t ∈ run, ¬ ChainHotstuff.NewViewQuorumReal t := by
  constructor
  · let run := transitions (BasicHotstuff.step .transparent [2]) (.new 1 "") (basicNewViews [[1], [1], [1]])
    have hrun : IsRun (BasicHotstuff.step .transparent [2]) (.new 1 "") run _ := .of_isSome (by decide +kernel)
    refine ⟨run, _, hrun, run.get ⟨2, by decide +kernel⟩, List.get_mem _ _, fun hreal ↦ ?_⟩
    have hquorum := hreal { viewNum := 0, justify := none, fromPeerId := [1] } rfl (.inl rfl)
    exact absurd hquorum.senders (by decide +kernel)
  · let run := transitions (ChainHotstuff.step .transparent [2]) (.new 1 "") (chainNewViews [[1], [1], [1]])
    have hrun : IsRun (ChainHotstuff.step .transparent [2]) (.new 1 "") run _ := .of_isSome (by decide +kernel)
    refine ⟨run, _, hrun, run.get ⟨4, by decide +kernel⟩, List.get_mem _ _, fun hreal ↦ ?_⟩
    have hquorum := hreal { viewNum := 1, block := none, justify := none, fromPeerId := [1] }
      (by decide +kernel) (.inr (.inr (.inr (by decide +kernel))))
    exact absurd hquorum.senders (by decide +kernel)

/-! ## The QC that is picked -/

/-- In both protocols the QC that is picked for a view with recorded new views is the first one of the greatest
view number among the own one and those of the new views, in the order in which they were recorded. -/
theorem firstHighest_getHighQCByView :
    (∀ (log : BasicHotstuff.Log) (viewNum : UInt64) (prepareQC : Option BasicHotstuff.QC)
        (newviews : List BasicHotstuff.NewView), log.newviews.lookup viewNum = some newviews →
      ∃ highQC, log.getHighQCByView viewNum prepareQC = some highQC ∧
        FirstHighest BasicHotstuff.QC.viewNum (prepareQC :: newviews.map BasicHotstuff.NewView.justify) highQC) ∧
    ∀ (log : ChainHotstuff.Log) (viewNum : UInt64) (genericQC : Option ChainHotstuff.QC)
        (generics : List ChainHotstuff.Generic), log.generics.lookup viewNum = some generics →
      ∃ highQC, log.getHighQCByView viewNum genericQC = some highQC ∧
        FirstHighest ChainHotstuff.QC.viewNum (genericQC :: generics.map ChainHotstuff.Generic.justify) highQC := by
  constructor
  · intro log viewNum prepareQC newviews hrecorded
    have hpicked : log.getHighQCByView viewNum prepareQC =
        some ((newviews.map BasicHotstuff.NewView.justify).foldl (higherQC BasicHotstuff.QC.viewNum) prepareQC) :=
      Option.bind_eq_some_iff.2 ⟨newviews, hrecorded, rfl⟩
    have hlist : log.newviews.listAt viewNum = newviews := by rw [HashMap.listAt, hrecorded, Option.getD_some]
    have hfirst := BasicHotstuff.Log.firstHighest_of_getHighQCByView hpicked
    rw [hlist] at hfirst
    exact ⟨_, hpicked, hfirst⟩
  · intro log viewNum genericQC generics hrecorded
    have hpicked : log.getHighQCByView viewNum genericQC =
        some ((generics.map ChainHotstuff.Generic.justify).foldl (higherQC ChainHotstuff.QC.viewNum) genericQC) :=
      Option.bind_eq_some_iff.2 ⟨generics, hrecorded, rfl⟩
    have hlist : log.generics.listAt viewNum = generics := by rw [HashMap.listAt, hrecorded, Option.getD_some]
    have hfirst := ChainHotstuff.Log.firstHighest_of_getHighQCByView hpicked
    rw [hlist] at hfirst
    exact ⟨_, hpicked, hfirst⟩

section Tie

/-- Three new views, the second and the third with QCs of the same view. -/
def tiedNewViews : List BasicHotstuff.NewView :=
  [⟨3, none, [1]⟩, ⟨3, some ⟨2, 2, ⟨"a", ""⟩, none⟩, [2]⟩, ⟨3, some ⟨2, 2, ⟨"b", ""⟩, none⟩, [4]⟩]

def tiedGenerics : List ChainHotstuff.Generic :=
  [⟨3, none, none, [1]⟩, ⟨3, none, some ⟨2, ⟨"a", "", none⟩, none⟩, [2]⟩,
    ⟨3, none, some ⟨2, ⟨"b", "", none⟩, none⟩, [4]⟩]

def tiedBasicLog : BasicHotstuff.Log := tiedNewViews.foldl (fun log newview ↦ log.recordNewview 3 newview) .new

def tiedChainLog : ChainHotstuff.Log := tiedGenerics.foldl (fun log generic ↦ log.recordGeneric 3 generic) .new

/-- An own QC of an older view, and two of the same view among the recorded ones. -/
theorem firstHighest_getHighQCByView_tied :
    (∃ highQC, tiedBasicLog.getHighQCByView 3 (some ⟨2, 1, ⟨"own", ""⟩, none⟩) = some highQC ∧
      FirstHighest BasicHotstuff.QC.viewNum
        (some ⟨2, 1, ⟨"own", ""⟩, none⟩ :: tiedNewViews.map BasicHotstuff.NewView.justify) highQC) ∧
    ∃ highQC, tiedChainLog.getHighQCByView 3 (some ⟨1, ⟨"own", "", none⟩, none⟩) = some highQC ∧
      FirstHighest ChainHotstuff.QC.viewNum
        (some ⟨1, ⟨"own", "", none⟩, none⟩ :: tiedGenerics.map ChainHotstuff.Generic.justify) highQC :=
  ⟨firstHighest_getHighQCByView.1 tiedBasicLog 3 _ tiedNewViews (by decide),
    firstHighest_getHighQCByView.2 tiedChainLog 3 _ tiedGenerics (by decide)⟩

end Tie

end Hotstuff

end BFTDiagnosis
