import BFTDiagnosis.Honeybadger.Epochs

/-!
# Messages that come early

Messages for a later epoch are kept until it starts. Then they are taken out of the queue, but nothing is
done with them. That makes a difference unless handling them would have changed nothing.
-/

namespace BFTDiagnosis.Honeybadger

variable {X : Externals}

/-- The first element of each key. -/
def firstOfEach {α κ : Type} [DecidableEq κ] (key : α → κ) : List α → List α
  | [] => []
  | a :: rest => a :: (firstOfEach key rest).filter fun other ↦ key other ≠ key a

theorem exists_mem_firstOfEach {α κ : Type} [DecidableEq κ] (key : α → κ) {list : List α} {a : α} (h : a ∈ list) :
    ∃ first ∈ firstOfEach key list, key first = key a := by
  induction list with
  | nil => cases h
  | cons head rest ih =>
    by_cases hsame : key a = key head
    · exact ⟨head, List.mem_cons_self, hsame.symm⟩
    · obtain rfl | hrest := List.mem_cons.1 h
      · exact absurd rfl hsame
      · obtain ⟨first, hfirst, hkey⟩ := ih hrest
        refine ⟨first, List.mem_cons_of_mem _ (List.mem_filter.2 ⟨hfirst, ?_⟩), hkey⟩
        rw [hkey]
        exact decide_eq_true hsame

theorem mem_of_mem_firstOfEach {α κ : Type} [DecidableEq κ] (key : α → κ) {list : List α} {a : α}
    (h : a ∈ firstOfEach key list) : a ∈ list := by
  induction list with
  | nil => exact h
  | cons head rest ih =>
    obtain rfl | hrest := List.mem_cons.1 h
    · exact List.mem_cons_self
    · exact List.mem_cons_of_mem _ (ih (List.mem_filter.1 hrest).1)

/-! ## The messages of an epoch -/

/-- What one sender can have in the queue once. -/
inductive AbaKind where
  | bval (value : Bool)
  | aux (value : Bool)
  | conf
  | term
  | coin
  | signature
  deriving DecidableEq

def AbaMessage.kind : AbaMessage → AbaKind
  | .baBroadcast _ (.bval _ value) => .bval value
  | .baBroadcast _ (.aux _ value) => .aux value
  | .conf _ _ => .conf
  | .term _ _ => .term
  | .coin _ _ => .coin
  | .signature _ _ => .signature

/-- At the start of the second epoch, handling a message of the kind changes nothing. -/
def AbaKind.Idle (X : Externals) (signature : Option Signature) : AbaKind → Prop
  | .term => True
  | .coin => ∀ sig, signature = some sig → X.parity sig = false
  | _ => False

/-- A message for a later epoch that is kept, with its source. -/
def earlyMessage (epoch : ℕ) (t : Transition BinaryAgreement BinaryAgreement.Event AgreementOut) :
    Option (String × AbaMessage) :=
  match t.event with
  | .propose _ => none
  | .message source msg =>
    if msg.epoch = epoch ∧ t.pre.Later msg then some (source, msg.content) else none

def earlyMessages (run : AgreementRun) (epoch : ℕ) : List (String × AbaMessage) := run.filterMap (earlyMessage epoch)

/-- One message of each kind from each source. -/
def distinctMessages (messages : List (String × AbaMessage)) : List (String × AbaMessage) :=
  firstOfEach (fun m ↦ (m.1, m.2.kind)) messages

/-- Deliver messages of an epoch one after the other. -/
def deliver (X : Externals) (epoch : ℕ) (messages : List (String × AbaMessage)) (ba : BinaryAgreement) :
    Option BinaryAgreement :=
  messages.foldlM (fun ba m ↦ (ba.handleMessage X m.1 (m.2.withEpoch epoch)).map Prod.fst) ba

/-- The state that a step leads to when nothing has come early for the epoch. -/
def startOfEpoch (X : Externals) (epoch : ℕ) (t : Transition BinaryAgreement BinaryAgreement.Event AgreementOut) :
    Option BinaryAgreement :=
  ({ t.pre with incomingQueue := t.pre.incomingQueue.erase epoch }.step X t.event).map Prod.fst

/-- The step leads to the state that one gets by delivering what has come early, each message once and in some
order, right after the start of the epoch. -/
def Replayed (X : Externals) (before : AgreementRun)
    (t : Transition BinaryAgreement BinaryAgreement.Event AgreementOut) : Prop :=
  ∃ order, order.Perm (distinctMessages (earlyMessages before t.post.epoch)) ∧
    (startOfEpoch X t.post.epoch t).bind (deliver X t.post.epoch order) = some t.post

/-! ## The start of the second epoch -/

section Start

variable {netinfo : Network} {run : AgreementRun} {ba ba' : BinaryAgreement} {source : String}
  {t : Transition BinaryAgreement BinaryAgreement.Event AgreementOut}

theorem confOfTerms_of_empty (h : ba.termReceived = ∅) : ba.confOfTerms X = ∅ := by
  have hnone : X.terms.order ba.termReceived.keys = [] := by
    rw [List.eq_nil_iff_forall_not_mem]
    intro b hb
    rw [Walk.mem_order, h, Finmap.keys_empty] at hb
    exact Finset.notMem_empty b hb
  rw [BinaryAgreement.confOfTerms, hnone, List.foldl_nil]

/-- What the second epoch starts with. -/
theorem updateEpoch_eq (hepoch : ba.epoch = 0) (hterm : ba.termReceived = ∅) (b : Bool) :
    (ba.updateEpoch X b).1 = { ba with
      baBroadcast := ba.baBroadcast.clear ∅
      confReceived := ∅
      confValues := none
      epoch := 1
      coinState := .decided false
      estimated := some b
      incomingQueue := ba.incomingQueue.erase 1 } := by
  simp only [BinaryAgreement.updateEpoch, confOfTerms_of_empty hterm, BinaryAgreement.newCoin, hterm, hepoch]

/-- What a message that brings out values that are not just the coin does to an instance. -/
theorem handleBabroadcast_of_splits {content : BaMessage} {bv : BvBroadcast} {sent : List Payload} {coin : Bool}
    (hhandled : ba.baBroadcast.handleMessage source content = some (bv, sent)) (hepoch : ba.epoch = 0)
    (hterm : ba.termReceived = ∅) (hundecided : ba.decision = none) (hconf : ba.confValues = none)
    (hcoin : ba.coinState = .decided coin) (hsome : ∃ b, bv.output.contains b = true)
    (hdiffers : bv.output.definite ≠ some coin) :
    (ba.handleBabroadcast X source content).map Prod.fst = some { ba with
      baBroadcast := bv.clear ∅
      bvOutput := bv.output
      confReceived := ∅
      confValues := none
      epoch := 1
      coinState := .decided false
      estimated := some (bv.output.definite.getD coin)
      incomingQueue := ba.incomingQueue.erase 1 } := by
  have hconf' : ({ ba with baBroadcast := bv } : BinaryAgreement).confValues = none := hconf
  simp only [BinaryAgreement.handleBabroadcast, hhandled, bind, pure, Option.bind_some, Option.map_some]
  rw [BinaryAgreement.handleBabroadcastSync_of_decided hsome hconf' hundecided hcoin, if_neg hdiffers, updateEpoch_eq]
  · exact hepoch
  · exact hterm

/-- The state at the start of the second epoch. -/
structure Started (before after : BinaryAgreement) : Prop where
  confReceived : after.confReceived = ∅
  coinState : after.coinState = .decided false
  signature : after.signature = before.signature

/-- A message that splits starts the next epoch, whatever the queue is. -/
theorem EpochZero.step_of_splits (h : EpochZero netinfo run ba) {event : BinaryAgreement.Event}
    {out : List Payload × Option Bool} (hsplits : Splits ba event) (htaken : ba.step X event = some (ba', out)) :
    ∃ after, Started ba after ∧ ∀ queue, ({ ba with incomingQueue := queue }.step X event).map Prod.fst =
      some { after with incomingQueue := queue.erase 1 } := by
  cases event with
  | propose input => exact hsplits.elim
  | message source msg =>
    obtain ⟨hcurrent, id, content, hcontent⟩ := hsplits.current
    obtain ⟨epoch, _⟩ := msg
    obtain rfl := hcontent
    obtain ⟨hundecided, -, values, coin, houtputs, hsome, hvalue, hdiffers⟩ := hsplits
    obtain ⟨hconf, -⟩ := h.undecided hundecided
    obtain ⟨coin', hcoin⟩ := h.coin
    rw [hcoin, CoinState.value, Option.some.injEq] at hvalue
    rw [hvalue] at hcoin
    rcases BinaryAgreement.handleMessage_cases htaken with ⟨hnot, -⟩ | ⟨hlater, -⟩ | ⟨-, hcontent, -⟩
    · exact absurd hcurrent hnot
    · exact absurd hcurrent hlater.not_current
    · simp only [BinaryAgreement.handleMessageContent, BinaryAgreement.handleBabroadcast, bind,
        Option.bind_eq_some_iff, Prod.exists] at hcontent
      obtain ⟨bv, sent, hhandled, -⟩ := hcontent
      obtain rfl : values = bv.output := by
        cases BvBroadcast.handleMessage_cases hhandled with
        | seen hseen => exact absurd hseen houtputs.1
        | entered _ hsilent => exact absurd houtputs (hsilent values)
        | output houtputs' => exact houtputs.unique houtputs'
      refine ⟨{ ba with
        baBroadcast := bv.clear ∅
        bvOutput := bv.output
        confReceived := ∅
        confValues := none
        epoch := 1
        coinState := .decided false
        estimated := some (bv.output.definite.getD coin) }, ⟨rfl, rfl, rfl⟩, fun queue ↦ ?_⟩
      -- the handlers that are called do not look at the queue
      have hcurrent' : ({ ba with incomingQueue := queue } : BinaryAgreement).Current
          ⟨epoch, .baBroadcast id content⟩ := hcurrent
      have hhandled' : ({ ba with incomingQueue := queue } : BinaryAgreement).baBroadcast.handleMessage source
          content = some (bv, sent) := hhandled
      rw [BinaryAgreement.step, BinaryAgreement.handleMessage_of_current hcurrent', Option.map_map]
      exact handleBabroadcast_of_splits hhandled' h.epoch h.termReceived hundecided hconf hcoin hsome hdiffers

/-- What has come early makes no difference to how the second epoch starts. -/
theorem EpochZero.startOfEpoch_eq (h : EpochZero netinfo run t.pre) (hsplits : Splits t.pre t.event)
    (htaken : t.pre.step X t.event = some (t.post, t.out)) :
    Started t.pre t.post ∧ startOfEpoch X 1 t = some t.post := by
  obtain ⟨after, hstarted, hqueue⟩ := h.step_of_splits hsplits htaken
  have hpost := hqueue t.pre.incomingQueue
  rw [htaken, Option.map_some, Option.some.injEq] at hpost
  change t.post = _ at hpost
  constructor
  · rw [hpost]
    exact { hstarted with }
  · have htwice : Finmap.erase 1 (Finmap.erase 1 t.pre.incomingQueue) = Finmap.erase 1 t.pre.incomingQueue :=
      HashMap.erase_of_notMem Finmap.notMem_erase_self
    rw [startOfEpoch, hqueue, htwice, hpost]

end Start

/-! ## Deliveries in the second epoch -/

section Deliveries

variable {ba ba' : BinaryAgreement} {source : String} {content : AbaMessage}

/-- The state shows a Conf or a Coin. -/
def Marked (X : Externals) (ba : BinaryAgreement) : Prop :=
  ba.confReceived ≠ ∅ ∨ ∃ sig, ba.signature = some sig ∧ X.parity sig = true ∧ ba.coinState = .decided true

theorem Started.not_marked {before after : BinaryAgreement} (h : Started before after) : ¬ Marked X after := by
  rintro (hconf | ⟨_, -, -, hcoin⟩)
  · exact hconf h.confReceived
  · rw [h.coinState] at hcoin
    cases hcoin

/-- A message of an idle kind leaves the start of the second epoch as it is. -/
theorem EpochOne.deliver_of_idle (h : EpochOne ba) (hcoin : ba.coinState = .decided false)
    (hidle : content.kind.Idle X ba.signature) :
    (ba.handleMessage X source (content.withEpoch 1)).map Prod.fst = some ba := by
  have hcurrent : ba.Current (content.withEpoch 1) := ⟨h.decision, h.epoch.symm⟩
  rw [BinaryAgreement.handleMessage_of_current hcurrent, Option.map_map]
  cases content with
  | baBroadcast id msg => cases msg <;> exact hidle.elim
  | conf id values => exact hidle.elim
  | term id value => rfl
  | coin id value =>
    have hhandled := handleCoin_of_decided (X := X) h.coin h.confValues id value
    have hsame : signedCoin X ba = ba.coinState := by
      rw [hcoin]
      unfold signedCoin
      split
      case h_1 sig hsig => rw [hidle sig hsig]
      case h_2 => exact hcoin
    simp only [AbaMessage.withEpoch, BinaryAgreement.handleMessageContent, hhandled, hsame, Option.map_some,
      Function.comp_apply]
  | signature id sig => exact hidle.elim

/-- A delivery in the second epoch, other than of a Signature. -/
theorem EpochOne.deliver_one (h : EpochOne ba) (hkind : content.kind ≠ .signature)
    (htaken : (ba.handleMessage X source (content.withEpoch 1)).map Prod.fst = some ba') :
    EpochOne ba' ∧ ba'.signature = ba.signature ∧
      (Marked X ba ∨ ¬ content.kind.Idle X ba.signature → Marked X ba') := by
  have hcurrent : ba.Current (content.withEpoch 1) := ⟨h.decision, h.epoch.symm⟩
  rw [BinaryAgreement.handleMessage_of_current hcurrent, Option.map_map] at htaken
  cases content with
  | baBroadcast id msg =>
    rw [AbaMessage.withEpoch, h.content_eq_none] at htaken
    cases htaken
  | conf id values =>
    have hhandled := handleConf_of_decided (X := X) h.coin id values
    simp only [AbaMessage.withEpoch, BinaryAgreement.handleMessageContent, hhandled, Option.map_some,
      Function.comp_apply, Option.some.injEq] at htaken
    rw [← htaken]
    refine ⟨{ h with }, rfl, fun _ ↦ .inl fun hempty ↦ ?_⟩
    have hmem : id ∈ ba.confReceived.insert id values := Finmap.mem_insert.2 (.inl rfl)
    change ba.confReceived.insert id values = ∅ at hempty
    rw [hempty] at hmem
    exact Finmap.notMem_empty hmem
  | term id value =>
    obtain rfl := Option.some.inj htaken
    exact ⟨h, rfl, fun hmarked ↦ hmarked.resolve_right fun hbusy ↦ hbusy trivial⟩
  | coin id value =>
    have hhandled := handleCoin_of_decided (X := X) h.coin h.confValues id value
    simp only [AbaMessage.withEpoch, BinaryAgreement.handleMessageContent, hhandled, Option.map_some,
      Function.comp_apply, Option.some.injEq] at htaken
    rw [← htaken]
    refine ⟨{ h with coin := signedCoin_decided h.coin }, rfl, ?_⟩
    rintro ((hconf | ⟨sig, hsig, hodd, -⟩) | hbusy)
    · exact .inl hconf
    · refine .inr ⟨sig, hsig, hodd, ?_⟩
      change signedCoin X ba = _
      rw [signedCoin, hsig, ← hodd]
    · obtain ⟨sig, hbusy⟩ := not_forall.1 hbusy
      obtain ⟨hsig, heven⟩ := Classical.not_imp.1 hbusy
      rw [Bool.not_eq_false] at heven
      refine .inr ⟨sig, hsig, heven, ?_⟩
      change signedCoin X ba = _
      rw [signedCoin, hsig, ← heven]
  | signature id sig => exact absurd rfl hkind

theorem EpochOne.deliver_eq_self {messages : List (String × AbaMessage)} (h : EpochOne ba)
    (hcoin : ba.coinState = .decided false) (hidle : ∀ m ∈ messages, m.2.kind.Idle X ba.signature) :
    deliver X 1 messages ba = some ba := by
  induction messages with
  | nil => rfl
  | cons m rest ih =>
    obtain ⟨hfirst, hrest⟩ := List.forall_mem_cons.1 hidle
    rw [deliver, List.foldlM_cons, h.deliver_of_idle hcoin hfirst]
    exact ih hrest

/-- A message of another kind leaves a mark. -/
theorem EpochOne.marked_of_deliver {messages : List (String × AbaMessage)} (h : EpochOne ba)
    (hkinds : ∀ m ∈ messages, m.2.kind ≠ .signature) (htaken : deliver X 1 messages ba = some ba')
    (hmarks : Marked X ba ∨ ∃ m ∈ messages, ¬ m.2.kind.Idle X ba.signature) : Marked X ba' := by
  induction messages generalizing ba with
  | nil =>
    obtain rfl := Option.some.inj htaken
    refine hmarks.resolve_right ?_
    rintro ⟨_, hmem, -⟩
    cases hmem
  | cons m rest ih =>
    obtain ⟨hkind, hkinds'⟩ := List.forall_mem_cons.1 hkinds
    obtain ⟨next, hnext, hrest⟩ := Option.bind_eq_some_iff.1 htaken
    obtain ⟨hone, hsig, hmarked⟩ := h.deliver_one hkind hnext
    apply ih hone hkinds' hrest
    rcases hmarks with hold | ⟨m', hm', hbusy⟩
    · exact .inl (hmarked (.inl hold))
    · obtain rfl | hin := List.mem_cons.1 hm'
      · exact .inl (hmarked (.inr hbusy))
      · exact .inr ⟨m', hin, by rwa [hsig]⟩

end Deliveries

/-! ## Runs -/

section Runs

variable {netinfo : Network} {nonce : ℕ} {proposerId : String} {before : AgreementRun} {s : BinaryAgreement}
  {t : Transition BinaryAgreement BinaryAgreement.Event AgreementOut}

/-- A Signature cannot be kept. -/
theorem kind_of_mem_earlyMessages (h : IsRun (BinaryAgreement.step X) s before t.pre) (epoch : ℕ) :
    ∀ m ∈ earlyMessages before epoch, m.2.kind ≠ .signature := by
  intro m hm hkind
  obtain ⟨t', ht', hearly⟩ := List.mem_filterMap.1 hm
  have htaken := h.taken t' ht'
  unfold earlyMessage at hearly
  split at hearly
  · cases hearly
  · rename_i source msg hevent
    split at hearly
    case isFalse => cases hearly
    case isTrue hkept =>
      obtain rfl := Option.some.inj hearly
      rw [hevent, BinaryAgreement.step, BinaryAgreement.handleMessage_of_later hkept.2] at htaken
      cases hcontent : msg.content with
      | signature id sig => simp [BinaryAgreement.enqueue, hcontent, ReceivedMessages.insert] at htaken
      | baBroadcast id content =>
        rw [hcontent] at hkind
        cases content <;> cases hkind
      | conf | term | coin =>
        rw [hcontent] at hkind
        cases hkind

/-- What has come early for an epoch is as if it had been delivered at its start exactly if it is of kinds that
make no difference there. -/
theorem replayed_iff (h : IsRun (BinaryAgreement.step X) (BinaryAgreement.new netinfo nonce proposerId) before t.pre)
    (htaken : t.pre.step X t.event = some (t.post, t.out)) (hstart : t.pre.epoch < t.post.epoch) :
    Replayed X before t ↔ ∀ m ∈ earlyMessages before t.post.epoch, m.2.kind.Idle X t.pre.signature := by
  rcases epochZero_or_epochOne h with ⟨-, hzero⟩ | ⟨-, hone⟩
  swap
  · -- there is no epoch after the second
    have hpost := (hone.step htaken).2
    rw [hone.epoch, hpost.epoch] at hstart
    exact absurd hstart (lt_irrefl 1)
  rcases hzero.step htaken with ⟨-, hpost⟩ | ⟨hsplits, hone⟩
  · rw [hzero.epoch, hpost.epoch] at hstart
    exact absurd hstart (lt_irrefl 0)
  obtain ⟨hstarted, hsame⟩ := hzero.startOfEpoch_eq hsplits htaken
  have hkinds := kind_of_mem_earlyMessages h 1
  rw [Replayed, hone.epoch, hsame, ← hstarted.signature]
  constructor
  · rintro ⟨order, hperm, hdelivered⟩ m hm
    obtain ⟨first, hfirst, hkey⟩ := exists_mem_firstOfEach (fun m ↦ (m.1, m.2.kind)) hm
    rw [← (Prod.mk.inj hkey).2]
    by_contra hbusy
    refine hstarted.not_marked (hone.marked_of_deliver (fun m hm ↦ ?_) hdelivered (.inr ⟨first, ?_, hbusy⟩))
    · exact hkinds m (mem_of_mem_firstOfEach _ (hperm.mem_iff.1 hm))
    · exact hperm.mem_iff.2 hfirst
  · intro hidle
    refine ⟨_, .refl _, hone.deliver_eq_self hstarted.coinState fun m hm ↦ ?_⟩
    exact hidle m (mem_of_mem_firstOfEach _ hm)

end Runs

/-! ## What the queue keeps -/

/-- What the queue has for a source that has sent the messages. -/
def keptFrom (messages : List (String × AbaMessage)) (source : String) : Option ReceivedMessages :=
  (messages.filter fun m ↦ m.1 = source).foldl (fun received m ↦ (received.getD .new).insert m.2) none

theorem keptFrom_concat (messages : List (String × AbaMessage)) (source sender : String) (content : AbaMessage) :
    keptFrom (messages ++ [(sender, content)]) source =
      if sender = source then ((keptFrom messages source).getD .new).insert content else keptFrom messages source := by
  unfold keptFrom
  rw [List.filter_append, List.foldl_append]
  split
  case isTrue h => simp [h]
  case isFalse h => simp [h]

/-- The queue is as before at all epochs other than the current one. -/
def QueueKept (queue : HashMap ℕ (HashMap String ReceivedMessages)) (ba : BinaryAgreement) : Prop :=
  ∀ epoch, epoch ≠ ba.epoch → ba.incomingQueue.mapAt epoch = queue.mapAt epoch

section Queue

variable {queue : HashMap ℕ (HashMap String ReceivedMessages)} {ba ba' : BinaryAgreement} {source : String}

theorem QueueKept.of_eq (h : ba.incomingQueue = queue) : QueueKept queue ba :=
  fun epoch _ ↦ congrArg (HashMap.mapAt · epoch) h

theorem queueKept_tryUpdateEpoch (h : ba.incomingQueue = queue) : QueueKept queue (ba.tryUpdateEpoch X).1 := by
  unfold BinaryAgreement.tryUpdateEpoch
  split
  case isTrue => exact .of_eq h
  case isFalse =>
    split
    case h_1 =>
      split
      case isTrue =>
        unfold BinaryAgreement.decide
        split <;> exact .of_eq h
      case isFalse =>
        intro epoch hne
        rw [← h]
        exact congrArg (Option.getD · ∅) (Finmap.lookup_erase_ne hne)
    case h_2 => exact .of_eq h

theorem queueKept_handleBabroadcastSync (h : ba.incomingQueue = queue) :
    QueueKept queue (ba.handleBabroadcastSync X).1 := by
  have hvalues : (if ba.baBroadcast.getOutput ≠ .NONE then { ba with bvOutput := ba.baBroadcast.getOutput }
      else ba).incomingQueue = queue := by
    split <;> exact h
  dsimp only [BinaryAgreement.handleBabroadcastSync]
  generalize (if ba.baBroadcast.getOutput ≠ .NONE then { ba with bvOutput := ba.baBroadcast.getOutput }
    else ba) = next at hvalues ⊢
  split
  case isTrue => exact .of_eq h
  case isFalse =>
    split
    case isTrue => exact .of_eq hvalues
    case isFalse =>
      split
      case h_1 => exact queueKept_tryUpdateEpoch hvalues
      case h_2 =>
        unfold BinaryAgreement.sendConf
        split <;> exact .of_eq hvalues

theorem queueKept_coinSync (h : ba.incomingQueue = queue) : QueueKept queue (ba.coinSync X).1 := by
  unfold BinaryAgreement.coinSync
  split
  case h_1 => exact queueKept_tryUpdateEpoch h
  case h_2 => exact .of_eq h

theorem queueKept_handleMessageContent {content : AbaMessage} {out : List Payload} (h : ba.incomingQueue = queue)
    (htaken : ba.handleMessageContent X source content = some (ba', out)) : QueueKept queue ba' := by
  cases content with
  | baBroadcast id msg =>
    obtain ⟨⟨bv, _⟩, -, hresult⟩ := Option.bind_eq_some_iff.1 htaken
    obtain ⟨rfl, -⟩ := Prod.mk.inj (Option.some.inj hresult)
    exact queueKept_handleBabroadcastSync h
  | conf id values =>
    simp only [BinaryAgreement.handleMessageContent, BinaryAgreement.handleConf,
      BinaryAgreement.tryFinishConfRound] at htaken
    split at htaken
    case isTrue =>
      obtain ⟨rfl, -⟩ := Prod.mk.inj (Option.some.inj htaken)
      exact .of_eq h
    case isFalse =>
      split at htaken
      case h_1 =>
        obtain ⟨rfl, -⟩ := Prod.mk.inj (Option.some.inj htaken)
        exact .of_eq h
      case h_2 =>
        obtain ⟨⟨ts, _⟩, -, hsigned⟩ := Option.bind_eq_some_iff.1 htaken
        obtain ⟨_, -, hresult⟩ := Option.bind_eq_some_iff.1 hsigned
        obtain ⟨rfl, -⟩ := Prod.mk.inj (Option.some.inj hresult)
        exact queueKept_coinSync h
  | term id value =>
    obtain ⟨rfl, -⟩ := Prod.mk.inj (Option.some.inj htaken)
    exact .of_eq h
  | coin id value =>
    obtain ⟨⟨next, _⟩, hcombined, hresult⟩ := Option.bind_eq_some_iff.1 htaken
    obtain ⟨rfl, -⟩ := Prod.mk.inj (Option.some.inj hresult)
    apply queueKept_coinSync
    unfold BinaryAgreement.combineShare at hcombined
    split at hcombined
    case h_1 =>
      obtain ⟨rfl, -⟩ := Prod.mk.inj (Option.some.inj hcombined)
      exact h
    case h_2 =>
      obtain ⟨_, -, hnext⟩ := Option.bind_eq_some_iff.1 hcombined
      obtain ⟨rfl, -⟩ := Prod.mk.inj (Option.some.inj hnext)
      exact h
  | signature id sig =>
    obtain ⟨rfl, -⟩ := Prod.mk.inj (Option.some.inj htaken)
    exact .of_eq h

theorem queueKept_propose (h : ba.incomingQueue = queue) (input : Bool) : QueueKept queue (ba.propose X input).1 := by
  unfold BinaryAgreement.propose
  split
  case isTrue => exact .of_eq h
  case isFalse => exact queueKept_handleBabroadcastSync h

/-- A step keeps a message for an epoch that has not started, or nothing. -/
theorem lookup_incomingQueue_step {t : Transition BinaryAgreement BinaryAgreement.Event AgreementOut}
    (htaken : t.pre.step X t.event = some (t.post, t.out)) {epoch : ℕ} (hlater : t.post.epoch < epoch)
    {messages : List (String × AbaMessage)} {source : String}
    (hbefore : ∀ source, (t.pre.incomingQueue.mapAt epoch).lookup source = keptFrom messages source) :
    (t.post.incomingQueue.mapAt epoch).lookup source =
      keptFrom (messages ++ (earlyMessage epoch t).toList) source := by
  have hkeeps (hnone : earlyMessage epoch t = none)
      (hkept : t.post.incomingQueue.mapAt epoch = t.pre.incomingQueue.mapAt epoch) :
      (t.post.incomingQueue.mapAt epoch).lookup source =
        keptFrom (messages ++ (earlyMessage epoch t).toList) source := by
    rw [hnone, Option.toList_none, List.append_nil, hkept, hbefore]
  cases hevent : t.event with
  | propose input =>
    rw [hevent] at htaken
    obtain ⟨hpost, -⟩ := Prod.mk.inj (Option.some.inj htaken)
    apply hkeeps
    · rw [earlyMessage, hevent]
    · rw [← hpost]
      exact queueKept_propose rfl input epoch (hpost ▸ hlater.ne')
  | message sender msg =>
    rw [hevent] at htaken
    have hnone (hnot : ¬ (msg.epoch = epoch ∧ t.pre.Later msg)) : earlyMessage epoch t = none := by
      rw [earlyMessage, hevent]
      exact if_neg hnot
    rcases BinaryAgreement.handleMessage_cases htaken with
      ⟨-, hnot, hpost, -⟩ | ⟨hkept, hqueued, -⟩ | ⟨hcurrent, hcontent, -⟩
    · exact hkeeps (hnone fun hearly ↦ hnot hearly.2) (by rw [hpost])
    · obtain ⟨received, hreceived, hpost⟩ := BinaryAgreement.eq_of_enqueue hqueued
      by_cases hepoch : msg.epoch = epoch
      · have hearly : earlyMessage epoch t = some (sender, msg.content) := by
          rw [earlyMessage, hevent]
          exact if_pos ⟨hepoch, hkept⟩
        subst hepoch
        rw [hearly, Option.toList_some, keptFrom_concat, hpost, HashMap.mapAt_insertAt_self]
        split
        case isTrue hsame => rw [← hsame, Finmap.lookup_insert, ← hbefore, hreceived]
        case isFalse hother => rw [Finmap.lookup_insert_of_ne _ (Ne.symm hother), hbefore]
      · apply hkeeps (hnone fun hearly ↦ hepoch hearly.1)
        rw [hpost]
        exact HashMap.mapAt_insertAt_of_ne _ _ _ _ (Ne.symm hepoch)
    · exact hkeeps (hnone fun hearly ↦ hearly.2.not_current hcurrent)
        (queueKept_handleMessageContent rfl hcontent epoch hlater.ne')

end Queue

/-- The queue has, for each later epoch and source, what has come early from it. -/
theorem lookup_incomingQueue {netinfo : Network} {nonce : ℕ} {proposerId : String} {run : AgreementRun}
    {s : BinaryAgreement} (h : IsRun (BinaryAgreement.step X) (BinaryAgreement.new netinfo nonce proposerId) run s)
    {epoch : ℕ} (hlater : s.epoch < epoch) (source : String) :
    (s.incomingQueue.mapAt epoch).lookup source = keptFrom (earlyMessages run epoch) source := by
  induction h generalizing source with
  | nil => rfl
  | @snoc run s s' event out previous taken ih =>
    have hle : s.epoch ≤ s'.epoch := by
      rcases epochZero_or_epochOne previous with ⟨-, hzero⟩ | ⟨-, hone⟩
      · exact hzero.epoch.le.trans (Nat.zero_le _)
      · rw [hone.epoch, (hone.step (t := ⟨s, event, out, s'⟩) taken).2.epoch]
    rw [earlyMessages, filterMap_concat]
    exact lookup_incomingQueue_step (t := ⟨s, event, out, s'⟩) taken hlater (ih (hle.trans_lt hlater))

/-! ## Runs with messages for the second epoch -/

/-- A Term and a share of the coin come early. -/
def termAndCoinEvents : List BinaryAgreement.Event :=
  .message "b" ⟨1, .term "b" false⟩ :: .message "c" ⟨1, .coin "c" ⟨[1]⟩⟩ :: falseEvents

theorem length_termAndCoinEvents : 7 < (agreementRun termAndCoinEvents).length := by decide +kernel

theorem before_termAndCoinEvents :
    let t := (agreementRun termAndCoinEvents).get ⟨7, length_termAndCoinEvents⟩
    IsRun (BinaryAgreement.step .transparent) (.new fourNodes 0 "b") ((agreementRun termAndCoinEvents).take 7) t.pre ∧
      t.pre.step .transparent t.event = some (t.post, t.out) :=
  (IsRun.of_isSome (by decide +kernel)).before (eq_take_append_cons_drop _ 7 length_termAndCoinEvents)

theorem replayed_iff_termAndCoin :
    let t := (agreementRun termAndCoinEvents).get ⟨7, length_termAndCoinEvents⟩
    (earlyMessages ((agreementRun termAndCoinEvents).take 7) t.post.epoch).map (·.2.kind) = [.term, .coin] ∧
      (Replayed .transparent ((agreementRun termAndCoinEvents).take 7) t ↔
        ∀ m ∈ earlyMessages ((agreementRun termAndCoinEvents).take 7) t.post.epoch,
          m.2.kind.Idle .transparent t.pre.signature) :=
  ⟨by decide +kernel,
    replayed_iff before_termAndCoinEvents.1 before_termAndCoinEvents.2 (by decide +kernel)⟩

/-- A Conf comes early. -/
def confEvents : List BinaryAgreement.Event := .message "c" ⟨1, .conf "c" .TRUE⟩ :: falseEvents

theorem length_confEvents : 6 < (agreementRun confEvents).length := by decide +kernel

/-- The Conf is not entered when its epoch starts. -/
theorem not_replayed_confEvents :
    ¬ Replayed .transparent ((agreementRun confEvents).take 6)
      ((agreementRun confEvents).get ⟨6, length_confEvents⟩) := by
  rintro ⟨order, hperm, hdelivered⟩
  have hkept : distinctMessages (earlyMessages ((agreementRun confEvents).take 6)
      ((agreementRun confEvents).get ⟨6, length_confEvents⟩).post.epoch) = [("c", .conf "c" .TRUE)] := by
    decide +kernel
  rw [hkept, List.perm_singleton] at hperm
  rw [hperm] at hdelivered
  exact absurd (congrArg (Option.map fun ba ↦ ba.confReceived.len) hdelivered) (by decide +kernel)

end BFTDiagnosis.Honeybadger
