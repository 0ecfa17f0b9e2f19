import BFTDiagnosis.Honeybadger.Network

/-!
# Broadcast of binary values

The instance that binary agreement broadcasts its values with, `BvBroadcast` in `ba_broadcast.rs`. `none`
is the panic of an `unwrap` on a value without an entry.
-/

namespace BFTDiagnosis.Honeybadger

structure BvBroadcast where
  network : Network
  proposerId : String
  epoch : ℕ
  binValues : BoolSet
  bvalFrom : HashMap Bool (Finset String)
  bvalSent : BoolSet
  auxFrom : HashMap Bool (Finset String)
  terminated : Bool
  output : BoolSet

namespace BvBroadcast

def new (network : Network) (epoch : ℕ) (proposerId : String) : BvBroadcast where
  network := network
  proposerId := proposerId
  epoch := epoch
  binValues := .NONE
  bvalFrom := HashMap.ofEntries [(true, ∅), (false, ∅)]
  bvalSent := .NONE
  auxFrom := HashMap.ofEntries [(true, ∅), (false, ∅)]
  terminated := false
  output := .NONE

/-- Neither the output nor the epoch is reset. -/
def clear (bv : BvBroadcast) (init : HashMap Bool (Finset String)) : BvBroadcast :=
  { bv with
    binValues := .NONE
    bvalFrom := init
    bvalSent := .NONE
    auxFrom := init
    terminated := false }

/-- A message of the instance, as it is sent. -/
def payload (bv : BvBroadcast) (msg : BaMessage) : Payload :=
  let message := AbaMessage.baBroadcast bv.network.id msg
  .subset ((SubsetContent.agreement bv.network.id (message.withEpoch bv.epoch)).withProposer bv.proposerId)

def sendAux (bv : BvBroadcast) (value : Bool) : List Payload := [bv.payload (.aux bv.network.id value)]

def sendBval (bv : BvBroadcast) (value : Bool) : List Payload := [bv.payload (.bval bv.network.id value)]

def getOutput (bv : BvBroadcast) : BoolSet := if bv.output ≠ .NONE then bv.output else .NONE

/-- The number of AUX messages for values that have enough BVALs, and these values. -/
def countAux (bv : BvBroadcast) : Option (ℕ × BoolSet) :=
  bv.binValues.toList.foldlM (fun found b ↦ do
    let senders ← bv.auxFrom.lookup b
    return if senders ≠ ∅ then (found.1 + senders.card, found.2.insert b) else found) (0, .NONE)

def tryOutput (bv : BvBroadcast) : Option BvBroadcast :=
  if bv.terminated ∨ bv.binValues = .NONE then some bv
  else do
    let (count, values) ← bv.countAux
    return if count < bv.network.numHonest then bv else { bv with terminated := true, output := values }

def handleBval (bv : BvBroadcast) (source : String) (b : Bool) : Option (BvBroadcast × List Payload) := do
  let senders ← bv.bvalFrom.lookup b
  if source ∈ senders then return (bv, [])
  let senders := insert source senders
  let bv := { bv with bvalFrom := bv.bvalFrom.insert b senders }
  let countBval := senders.card
  let (bv, out) ← if countBval = 2 * bv.network.getFaultNum + 1 then do
      let bv := { bv with binValues := bv.binValues.insert b }
      if bv.binValues ≠ .BOTH then some (bv, bv.sendAux b)
      else bv.tryOutput.map (·, [])
    else some (bv, [])
  return (bv, if countBval = bv.network.getFaultNum + 1 then out ++ bv.sendBval b else out)

def handleAux (bv : BvBroadcast) (source : String) (b : Bool) : Option BvBroadcast := do
  let senders ← bv.auxFrom.lookup b
  if source ∈ senders then return bv
  { bv with auxFrom := bv.auxFrom.insert b (insert source senders) }.tryOutput

def handleMessage (bv : BvBroadcast) (source : String) (msg : BaMessage) : Option (BvBroadcast × List Payload) :=
  match msg with
  | .bval _ b => bv.handleBval source b
  | .aux _ b => (bv.handleAux source b).map (·, [])

/-! ## What a message does -/

/-- The nodes that have sent a BVAL or an AUX for the value. -/
def sendersOf (senders : HashMap Bool (Finset String)) (b : Bool) : Finset String := (senders.lookup b).getD ∅

theorem sendersOf_insert (senders : HashMap Bool (Finset String)) (b b' : Bool) (set : Finset String) :
    sendersOf (senders.insert b set) b' = if b' = b then set else sendersOf senders b' := by
  unfold sendersOf
  split
  case isTrue h => rw [h, Finmap.lookup_insert, Option.getD_some]
  case isFalse h => rw [Finmap.lookup_insert_of_ne _ h]

/-- A new instance has an entry for every value, and no senders. -/
theorem entries_new (network : Network) (epoch : ℕ) (proposerId : String) (b : Bool) :
    (b ∈ (new network epoch proposerId).bvalFrom ∧ sendersOf (new network epoch proposerId).bvalFrom b = ∅) ∧
      b ∈ (new network epoch proposerId).auxFrom ∧ sendersOf (new network epoch proposerId).auxFrom b = ∅ := by
  have hlookup : (HashMap.ofEntries [(true, ∅), (false, ∅)]).lookup b = some (∅ : Finset String) := by
    cases b <;> decide
  have hentry : b ∈ HashMap.ofEntries [(true, (∅ : Finset String)), (false, ∅)] ∧
      sendersOf (HashMap.ofEntries [(true, ∅), (false, ∅)]) b = ∅ := by
    rw [sendersOf, hlookup]
    exact ⟨Finmap.mem_of_lookup_eq_some hlookup, rfl⟩
  exact ⟨hentry, hentry⟩

/-- The node has sent the message before. -/
def Seen (bv : BvBroadcast) (source : String) : BaMessage → Prop
  | .bval _ b => source ∈ sendersOf bv.bvalFrom b
  | .aux _ b => source ∈ sendersOf bv.auxFrom b

/-- The instance with a message entered. -/
def received (bv : BvBroadcast) (source : String) : BaMessage → BvBroadcast
  | .bval _ b =>
    { bv with
      bvalFrom := bv.bvalFrom.insert b (insert source (sendersOf bv.bvalFrom b))
      binValues := if (insert source (sendersOf bv.bvalFrom b)).card = 2 * bv.network.faultNum + 1 then
        bv.binValues.insert b else bv.binValues }
  | .aux _ b => { bv with auxFrom := bv.auxFrom.insert b (insert source (sendersOf bv.auxFrom b)) }

/-- The message is one at which the AUXs are counted. -/
def Counts (bv : BvBroadcast) (source : String) : BaMessage → Prop
  | .bval _ b => (insert source (sendersOf bv.bvalFrom b)).card = 2 * bv.network.faultNum + 1 ∧
    bv.binValues.insert b = .BOTH
  | .aux _ _ => True

/-- With the message, there are enough AUXs for values that have enough BVALs, and these are the values. -/
def Outputs (bv : BvBroadcast) (source : String) (msg : BaMessage) (values : BoolSet) : Prop :=
  ¬ bv.Seen source msg ∧ bv.Counts source msg ∧ bv.terminated = false ∧ (bv.received source msg).binValues ≠ .NONE ∧
    ∃ count, (bv.received source msg).countAux = some (count, values) ∧ bv.network.numHonest ≤ count

/-- The values that are output are determined. -/
theorem Outputs.unique {bv : BvBroadcast} {source : String} {msg : BaMessage} {values values' : BoolSet}
    (h : bv.Outputs source msg values) (h' : bv.Outputs source msg values') : values = values' := by
  obtain ⟨-, -, -, -, count, hcount, -⟩ := h
  obtain ⟨-, -, -, -, count', hcount', -⟩ := h'
  rw [hcount] at hcount'
  exact (Prod.mk.inj (Option.some.inj hcount')).2

/-- What a message can do: nothing new, an entry, or an entry and an output. -/
inductive Handled (bv : BvBroadcast) (source : String) (msg : BaMessage) : BvBroadcast → Prop
  | seen (seen : bv.Seen source msg) : Handled bv source msg bv
  | entered (unseen : ¬ bv.Seen source msg) (silent : ∀ values, ¬ bv.Outputs source msg values) :
      Handled bv source msg (bv.received source msg)
  | output {values : BoolSet} (outputs : bv.Outputs source msg values) :
      Handled bv source msg { bv.received source msg with terminated := true, output := values }

theorem network_received (bv : BvBroadcast) (source : String) (msg : BaMessage) :
    (bv.received source msg).network = bv.network ∧ (bv.received source msg).terminated = bv.terminated ∧
      (bv.received source msg).epoch = bv.epoch ∧ (bv.received source msg).output = bv.output := by
  cases msg <;> exact ⟨rfl, rfl, rfl, rfl⟩

/-- Trying to output, at a message at which the AUXs are counted. -/
theorem handled_of_tryOutput {bv bv' : BvBroadcast} {source : String} {msg : BaMessage}
    (hunseen : ¬ bv.Seen source msg) (hcounts : bv.Counts source msg)
    (h : (bv.received source msg).tryOutput = some bv') : Handled bv source msg bv' := by
  obtain ⟨hnetwork, hterminated, -, -⟩ := bv.network_received source msg
  unfold tryOutput at h
  split at h
  case isTrue hidle =>
    rw [← Option.some.inj h]
    refine .entered hunseen fun values houtputs ↦ ?_
    rcases hidle with hover | hnone
    · rw [hterminated, houtputs.2.2.1] at hover
      cases hover
    · exact houtputs.2.2.2.1 hnone
  case isFalse hready =>
    simp only [bind, pure, Option.bind_eq_some_iff, Option.some.injEq, Prod.exists] at h
    obtain ⟨count, values, hcount, rfl⟩ := h
    rw [not_or, hterminated, Bool.not_eq_true] at hready
    split
    case isTrue hfew =>
      refine .entered hunseen fun values' houtputs ↦ ?_
      obtain ⟨-, -, -, -, count', hcount', hmany⟩ := houtputs
      rw [hcount] at hcount'
      obtain ⟨rfl, -⟩ := Prod.mk.inj (Option.some.inj hcount')
      rw [hnetwork] at hfew
      omega
    case isFalse hmany =>
      rw [hnetwork] at hmany
      exact .output ⟨hunseen, hcounts, hready.1, hready.2, count, hcount, Nat.le_of_not_lt hmany⟩

theorem handleMessage_cases {bv bv' : BvBroadcast} {source : String} {msg : BaMessage} {out : List Payload}
    (h : bv.handleMessage source msg = some (bv', out)) : Handled bv source msg bv' := by
  cases msg with
  | bval id b =>
    simp only [handleMessage, handleBval, bind, pure, Option.bind_eq_some_iff] at h
    obtain ⟨senders, hsenders, h⟩ := h
    have hentry : sendersOf bv.bvalFrom b = senders := by rw [sendersOf, hsenders, Option.getD_some]
    split at h
    case isTrue hseen =>
      obtain ⟨rfl, -⟩ := Prod.mk.inj (Option.some.inj h)
      refine .seen ?_
      rwa [Seen, hentry]
    case isFalse hunseen =>
      have hnew : ¬ bv.Seen source (.bval id b) := by rwa [Seen, hentry]
      split at h
      case isTrue hquorum =>
        have hreceived : bv.received source (.bval id b) = { bv with
            bvalFrom := bv.bvalFrom.insert b (insert source senders)
            binValues := bv.binValues.insert b } := by
          rw [received, hentry]
          exact congrArg (fun values ↦ { bv with
            bvalFrom := bv.bvalFrom.insert b (insert source senders), binValues := values }) (if_pos hquorum)
        split at h
        case isTrue hone =>
          obtain ⟨rfl, -⟩ := Prod.mk.inj (Option.some.inj h)
          rw [← hreceived]
          exact .entered hnew fun values houtputs ↦ hone houtputs.2.1.2
        case isFalse hboth =>
          obtain ⟨_, htried, hresult⟩ := Option.bind_eq_some_iff.1 h
          obtain ⟨_, htry, rfl⟩ := Option.map_eq_some_iff.1 htried
          obtain ⟨rfl, -⟩ := Prod.mk.inj (Option.some.inj hresult)
          apply handled_of_tryOutput hnew ⟨by rwa [hentry], not_not.1 hboth⟩
          rwa [hreceived]
      case isFalse hfew =>
        obtain ⟨rfl, -⟩ := Prod.mk.inj (Option.some.inj h)
        have hreceived : bv.received source (.bval id b) = { bv with
            bvalFrom := bv.bvalFrom.insert b (insert source senders) } := by
          rw [received, hentry]
          exact congrArg (fun values ↦ { bv with
            bvalFrom := bv.bvalFrom.insert b (insert source senders), binValues := values }) (if_neg hfew)
        rw [← hreceived]
        exact .entered hnew fun values houtputs ↦ hfew (hentry ▸ houtputs.2.1.1)
  | aux id b =>
    simp only [handleMessage, handleAux, bind, pure, Option.map_eq_some_iff, Option.bind_eq_some_iff] at h
    obtain ⟨_, ⟨senders, hsenders, h⟩, hpair⟩ := h
    obtain ⟨rfl, -⟩ := Prod.mk.inj hpair
    have hentry : sendersOf bv.auxFrom b = senders := by rw [sendersOf, hsenders, Option.getD_some]
    split at h
    case isTrue hseen =>
      rw [← Option.some.inj h]
      refine .seen ?_
      rwa [Seen, hentry]
    case isFalse hunseen =>
      have hnew : ¬ bv.Seen source (.aux id b) := by rwa [Seen, hentry]
      apply handled_of_tryOutput hnew trivial
      rw [received, hentry]
      exact h

theorem getOutput_eq (bv : BvBroadcast) : bv.getOutput = bv.output := by
  unfold getOutput
  split
  case isTrue => rfl
  case isFalse h => exact (not_not.1 h).symm

/-- The entry of one value in the count of AUXs. -/
def tally (bv : BvBroadcast) (found : ℕ × BoolSet) (b : Bool) : Option (ℕ × BoolSet) := do
  let senders ← bv.auxFrom.lookup b
  return if senders ≠ ∅ then (found.1 + senders.card, found.2.insert b) else found

theorem spec_of_foldlM_tally {bv : BvBroadcast} {list : List Bool} {found : ℕ × BoolSet} {count : ℕ}
    {values : BoolSet} (h : list.foldlM bv.tally found = some (count, values)) :
    count = found.1 + (list.map fun b ↦ (sendersOf bv.auxFrom b).card).sum ∧
      ∀ b, values.contains b = true ↔
        found.2.contains b = true ∨ b ∈ list ∧ (sendersOf bv.auxFrom b).Nonempty := by
  induction list generalizing found with
  | nil =>
    obtain rfl : found = (count, values) := Option.some.inj h
    simp
  | cons b' rest ih =>
    simp only [List.foldlM_cons, tally, bind, pure, Option.bind_eq_some_iff, Option.some.injEq] at h
    obtain ⟨_, ⟨senders, hsenders, rfl⟩, hrest⟩ := h
    obtain ⟨hcount, hvalues⟩ := ih hrest
    have hentry : sendersOf bv.auxFrom b' = senders := by rw [sendersOf, hsenders, Option.getD_some]
    rw [List.map_cons, List.sum_cons, hentry]
    by_cases hsome : senders ≠ ∅
    · rw [if_pos hsome] at hcount hvalues
      refine ⟨by omega, fun b ↦ ?_⟩
      rw [hvalues, BoolSet.contains_insert, Bool.or_eq_true, beq_iff_eq, List.mem_cons]
      have hnonempty : b' = b → (sendersOf bv.auxFrom b).Nonempty := by
        rintro rfl
        rw [hentry]
        exact Finset.nonempty_iff_ne_empty.2 hsome
      tauto
    · rw [if_neg hsome] at hcount hvalues
      rw [not_not] at hsome
      refine ⟨by rw [hcount, hsome, Finset.card_empty, Nat.zero_add], fun b ↦ ?_⟩
      rw [hvalues, List.mem_cons]
      have hempty : b = b' → ¬ (sendersOf bv.auxFrom b).Nonempty := by
        rintro rfl
        rw [hentry, hsome]
        exact Finset.not_nonempty_empty
      tauto

/-- What the AUXs amount to: the senders for each value that has enough BVALs, and the values that have one. -/
theorem spec_of_countAux {bv : BvBroadcast} {count : ℕ} {values : BoolSet} (h : bv.countAux = some (count, values)) :
    count = (bv.binValues.toList.map fun b ↦ (sendersOf bv.auxFrom b).card).sum ∧
      ∀ b, values.contains b = true ↔ bv.binValues.contains b = true ∧ (sendersOf bv.auxFrom b).Nonempty := by
  have hfold : bv.binValues.toList.foldlM bv.tally (0, .NONE) = some (count, values) := h
  obtain ⟨hcount, hvalues⟩ := spec_of_foldlM_tally hfold
  refine ⟨by rw [hcount, Nat.zero_add], fun b ↦ ?_⟩
  rw [hvalues, BoolSet.contains_NONE, BoolSet.mem_toList]
  simp

/-- The values that are output have enough BVALs, and an AUX. -/
theorem contains_of_countAux {bv : BvBroadcast} {count : ℕ} {values : BoolSet}
    (h : bv.countAux = some (count, values)) {b : Bool} (hb : values.contains b = true) :
    bv.binValues.contains b = true ∧ (sendersOf bv.auxFrom b).Nonempty :=
  ((spec_of_countAux h).2 b).1 hb

/-- With an entry for every value the AUXs can be counted. -/
theorem exists_tryOutput (bv : BvBroadcast) (h : ∀ b, b ∈ bv.auxFrom) : ∃ bv', bv.tryOutput = some bv' := by
  have htally (list : List Bool) (found : ℕ × BoolSet) : ∃ result, list.foldlM bv.tally found = some result := by
    induction list generalizing found with
    | nil => exact ⟨found, rfl⟩
    | cons b rest ih =>
      obtain ⟨senders, hsenders⟩ := Finmap.mem_iff.1 (h b)
      simp only [List.foldlM_cons, tally, hsenders, bind, pure, Option.bind_some]
      exact ih _
  obtain ⟨found, hfound⟩ := htally bv.binValues.toList (0, .NONE)
  have hcount : bv.countAux = some found := hfound
  unfold tryOutput
  split
  case isTrue => exact ⟨bv, rfl⟩
  case isFalse =>
    rw [hcount]
    exact ⟨_, rfl⟩

/-- With an entry for every value every message is handled. -/
theorem exists_handleMessage {bv : BvBroadcast} (hbval : ∀ b, b ∈ bv.bvalFrom) (haux : ∀ b, b ∈ bv.auxFrom)
    (source : String) (msg : BaMessage) : ∃ result, bv.handleMessage source msg = some result := by
  cases msg with
  | bval id b =>
    obtain ⟨senders, hsenders⟩ := Finmap.mem_iff.1 (hbval b)
    simp only [handleMessage, handleBval, hsenders, bind, pure, Option.bind_some]
    split
    case isTrue => exact ⟨_, rfl⟩
    case isFalse =>
      split
      case isTrue =>
        split
        case isTrue => exact ⟨_, rfl⟩
        case isFalse =>
          obtain ⟨bv', htry⟩ := exists_tryOutput { bv with
            bvalFrom := bv.bvalFrom.insert b (insert source senders), binValues := bv.binValues.insert b } haux
          rw [htry]
          exact ⟨_, rfl⟩
      case isFalse => exact ⟨_, rfl⟩
  | aux id b =>
    obtain ⟨senders, hsenders⟩ := Finmap.mem_iff.1 (haux b)
    simp only [handleMessage, handleAux, hsenders, bind, pure, Option.bind_some]
    split
    case isTrue => exact ⟨_, rfl⟩
    case isFalse =>
      obtain ⟨bv', htry⟩ := exists_tryOutput { bv with auxFrom := bv.auxFrom.insert b (insert source senders) }
        fun b' ↦ Finmap.mem_insert.2 (.inr (haux b'))
      rw [htry]
      exact ⟨_, rfl⟩

end BvBroadcast

end BFTDiagnosis.Honeybadger
