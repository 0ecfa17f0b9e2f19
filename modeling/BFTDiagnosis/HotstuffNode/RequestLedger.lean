import BFTDiagnosis.HotstuffNode.Channel

/-!
# The accounts of the request buffer

The model of the request buffer is what the whole node makes of its requests. In it every buffered request is either
waiting, as the mode counts it, or has been proposed since the last request ended. A proposal that comes to nothing is
not counted as waiting again, so its request is not proposed again before another request arrives or ends.
-/

namespace BFTDiagnosis.HotstuffNode

open Components Utils Word Hotstuff BasicHotstuff

abbrev RequestTurn := Transition Node Event (Option Bytes)

/-! ## Waiting requests -/

def Mode.waiting : Mode → ℕ
  | .done n | .do n | .notIsLeader n => n.toNat
  | .init => 0

def isEnd (t : RequestTurn) : Bool :=
  match t.event with
  | .end _ => true
  | _ => false

/-- The check for a proposal has found a waiting request and notifies the loop. -/
def isProposal (t : RequestTurn) : Bool :=
  match t.event, t.pre.mode with
  | .proposalStateCheck, .do n => decide (0 < n)
  | _, _ => false

/-- Every buffered request is waiting or has been proposed. -/
def Accounts (node : Node) (proposed : ℕ) : Prop := node.requestBuffer.length = node.mode.waiting + proposed

variable {X : Platform} {node node' : Node} {proposed : ℕ}

theorem Mode.waiting_received {mode mode' : Mode} (h : mode.received = some mode') :
    mode'.waiting = mode.waiting + 1 := by
  cases mode with
  | init =>
    obtain rfl := Option.some.inj h
    rfl
  | done n =>
    obtain ⟨m, hadd, rfl⟩ := Option.map_eq_some_iff.1 h
    exact toNat_of_checkedAdd hadd
  | «do» n =>
    obtain ⟨m, hadd, rfl⟩ := Option.map_eq_some_iff.1 h
    exact toNat_of_checkedAdd hadd
  | notIsLeader n =>
    obtain ⟨m, hadd, rfl⟩ := Option.map_eq_some_iff.1 h
    exact toNat_of_checkedAdd hadd

@[simp] theorem Mode.waiting_proposing (mode : Mode) : mode.proposing.waiting = mode.waiting := by
  cases mode <;> rfl

theorem Accounts.receiveRequest {data : Bytes} {request : Request} (h : Accounts node proposed)
    (hreceive : receiveRequest X node data request = some node') : Accounts node' proposed := by
  obtain ⟨mode, hmode, rfl⟩ := Option.map_eq_some_iff.1 hreceive
  have hwaiting := Mode.waiting_received hmode
  unfold Accounts at h ⊢
  rw [List.length_append, List.length_singleton, h, hwaiting]
  omega

/-- The end of a request counts what is left as waiting. -/
theorem accounts_of_endRequest {requestHash : String} (h : endRequest node requestHash = some node')
    (hlength : node.requestBuffer.length < 2 ^ 64) : Accounts node' 0 := by
  obtain ⟨removed, hremove, rfl⟩ := Option.map_eq_some_iff.1 h
  have hle : removed.requestBuffer.length ≤ node.requestBuffer.length := by
    unfold removeRequest at hremove
    split at hremove
    case isFalse =>
      obtain rfl := Option.some.inj hremove
      exact le_refl _
    case isTrue =>
      split at hremove
      case h_1 => cases hremove
      case h_2 first rest hbuffer =>
        obtain rfl := Option.some.inj hremove
        rw [hbuffer]
        exact Nat.le_succ _
  unfold Accounts
  by_cases hempty : removed.requestBuffer.length = 0
  · simp only [hempty, if_true]
    rfl
  · simp only [hempty, if_false, Mode.waiting, UInt64.toNat_ofNat', Nat.add_zero]
    exact (Nat.mod_eq_of_lt (lt_of_le_of_lt hle hlength)).symm

theorem Accounts.viewTimeout (h : Accounts node proposed) : Accounts (viewTimeout node) proposed := by
  unfold HotstuffNode.viewTimeout
  split
  case h_3 => exact h
  all_goals
    rename_i n hmode
    unfold Accounts at h ⊢
    rw [hmode] at h
    by_cases hn : n = 0
    · subst hn
      exact h
    · simp only [hn, if_false]
      exact h

theorem newviewQuorum_eq (node : Node) : newviewQuorum node = { node with mode := node.mode.proposing } := by
  unfold newviewQuorum
  cases node.mode <;> rfl

theorem Accounts.newviewQuorum (h : Accounts node proposed) : Accounts (newviewQuorum node) proposed := by
  rw [newviewQuorum_eq]
  exact h.trans (by rw [Mode.waiting_proposing])

/-- A proposal is taken from the waiting requests. -/
theorem Accounts.proposalStateCheck (h : Accounts node proposed) (out : Option Bytes) :
    Accounts (proposalStateCheck node)
      (proposed + if isProposal ⟨node, .proposalStateCheck, out, proposalStateCheck node⟩ then 1 else 0) := by
  unfold Accounts at h ⊢
  unfold HotstuffNode.proposalStateCheck isProposal
  cases hmode : node.mode with
  | «do» n =>
    rw [hmode] at h
    by_cases hn : 0 < n
    · have hpos : 0 < n.toNat := UInt64.lt_iff_toNat_lt.1 hn
      have hsub : (n - 1).toNat = n.toNat - 1 := UInt64.toNat_sub_of_le _ _ (UInt64.le_iff_toNat_le.2 hpos)
      simp only [hn, decide_true, if_true, Mode.waiting, hsub] at h ⊢
      omega
    · simp only [hn, decide_false, if_false, Bool.false_eq_true, hmode, Nat.add_zero]
      exact h
  | done n | notIsLeader n | init =>
    simp only [Bool.false_eq_true, if_false, Nat.add_zero]
    exact h

/-! ## Runs of the requests -/

/-- One turn keeps the accounts: the end of a request settles them, and a proposal is entered. -/
theorem Accounts.step {event : Event} {out : Option Bytes} (h : Accounts node proposed)
    (taken : step X node event = some (node', out)) (hlength : node.requestBuffer.length < 2 ^ 64) :
    Accounts node' (if isEnd ⟨node, event, out, node'⟩ then 0
      else proposed + if isProposal ⟨node, event, out, node'⟩ then 1 else 0) := by
  cases event with
  | request data request =>
    obtain ⟨received, hreceive, heq⟩ := Option.map_eq_some_iff.1 taken
    obtain ⟨rfl, -⟩ := Prod.mk.inj heq
    exact h.receiveRequest hreceive
  | «end» requestHash =>
    obtain ⟨ended, hend, heq⟩ := Option.map_eq_some_iff.1 taken
    obtain ⟨rfl, -⟩ := Prod.mk.inj heq
    exact accounts_of_endRequest hend hlength
  | consensusNotify =>
    simp only [HotstuffNode.step] at taken
    split at taken
    · obtain ⟨data, -, heq⟩ := Option.map_eq_some_iff.1 taken
      obtain ⟨rfl, -⟩ := Prod.mk.inj heq
      exact h
    · obtain ⟨rfl, -⟩ := Prod.mk.inj (Option.some.inj taken)
      exact h
  | proposalStateCheck =>
    obtain ⟨rfl, -⟩ := Prod.mk.inj (Option.some.inj taken)
    exact h.proposalStateCheck out
  | viewTimeout =>
    obtain ⟨rfl, -⟩ := Prod.mk.inj (Option.some.inj taken)
    exact h.viewTimeout
  | newviewQuorum =>
    obtain ⟨rfl, -⟩ := Prod.mk.inj (Option.some.inj taken)
    exact h.newviewQuorum

section Node

variable {Y : NodeExternals} {me : Bytes} {n n' : ConsensusNode} {out : List (SendType Payload)}

/-- What a turn is for the mode when it calls the executor. -/
def quorumEvents (t : LoopTurn) : List Event :=
  if t.post.executor.state.mode = t.pre.executor.state.mode then [] else [.newviewQuorum]

/-- What a turn of the loop is for the requests. -/
def requestEvents (Y : NodeExternals) (t : LoopTurn) : List Event :=
  match t.event with
  | .consensusNotify _ => .consensusNotify :: quorumEvents t
  | .viewTimeoutNotify => quorumEvents t
  | .receive => ((t.pre.channel.head?.bind MessageType.endedRequest).map Event.end).toList
  | .unicast _ _ => quorumEvents t
  | .gossip data _ =>
    match Y.deserialize data with
    | some (.request request) => [.request data request]
    | _ => quorumEvents t
  | .proposalStateCheck => [.proposalStateCheck]
  | .viewTimer => [.viewTimeout]

end Node

end BFTDiagnosis.HotstuffNode
