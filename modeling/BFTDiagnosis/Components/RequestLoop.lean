import BFTDiagnosis.Components.Calls
import BFTDiagnosis.Components.RequestBuffer
import BFTDiagnosis.Lib.Run

/-!
# Proposing requests

The part of `ProtocolActuator` in `components/src/protocol_actuator.rs` that proposes requests, over any protocol.
A node that leads takes the branch of `consensus_notify` and proposes the next request of its buffer. When there is
none, it refills the buffer with the fifty requests of its round, counts the round up and unwraps the next request.
The round survives `reset`, and the protocol alone says which requests are taken.

Messages to the network, the controller and the analyzer are left out, and so is what a malicious node does with
them.
-/

namespace BFTDiagnosis.Components

open Utils Word

/-- What the actuator of a node calls on its protocol (`ProtocolBehaviour`), with decoded messages and the peer id of
the node filled in. -/
structure Behaviour (π μ ι ρ : Type) where
  call : π → Call μ ι → Option (π × Response ρ)
  /-- `generate_serialized_request_message`, decoded again. -/
  requestMessage : Request → μ
  /-- `protocol_reset`, with the peer id that it may draw. -/
  protocolReset : π → String → π
  checkTakenRequest : π → Bytes → Bool
  isLeader : π → Bool

/-- The requests that fill the buffer in a round. The bounds may overflow. -/
def refillRequests (round : UInt64) : Option (List Request) := do
  let start ← checkedMul round 50
  let next ← checkedAdd round 1
  let stop ← checkedMul next 50
  return (List.range' start.toNat (stop.toNat - start.toNat)).map fun i ↦ ⟨"Request_" ++ toString i⟩

/-- The `i`-th request of a round. -/
def refillRequest (round : UInt64) (i : ℕ) : Request := ⟨"Request_" ++ toString (round.toNat * 50 + i)⟩

theorem refillRequests_eq_some_iff {round : UInt64} {requests : List Request} :
    refillRequests round = some requests ↔
      (round.toNat + 1) * 50 < 2 ^ 64 ∧ requests = (List.range 50).map (refillRequest round) := by
  have hfifty : (50 : UInt64).toNat = 50 := rfl
  have hone : (1 : UInt64).toNat = 1 := rfl
  simp only [refillRequests, bind, pure, Option.bind_eq_some_iff, Option.some.injEq]
  constructor
  · rintro ⟨start, hstart, next, hnext, stop, hstop, rfl⟩
    have hlt := stop.toNat_lt
    have hstart := toNat_of_checkedMul hstart
    have hstop := toNat_of_checkedMul hstop
    rw [toNat_of_checkedAdd hnext, hfifty, hone] at hstop
    rw [hfifty] at hstart
    refine ⟨by omega, ?_⟩
    rw [show stop.toNat - start.toNat = 50 by omega, List.range'_eq_map_range, List.map_map, hstart]
    rfl
  · rintro ⟨hlt, rfl⟩
    have hstart : (checkedMul round 50).isSome = true := isSome_checkedMul.2 (by rw [hfifty]; omega)
    have hnext : (checkedAdd round 1).isSome = true := isSome_checkedAdd.2 (by rw [hone]; omega)
    obtain ⟨start, hstart⟩ := Option.isSome_iff_exists.1 hstart
    obtain ⟨next, hnext⟩ := Option.isSome_iff_exists.1 hnext
    have hnextNat := toNat_of_checkedAdd hnext
    have hstop : (checkedMul next 50).isSome = true :=
      isSome_checkedMul.2 (by rw [hnextNat, hfifty, hone]; exact hlt)
    obtain ⟨stop, hstop⟩ := Option.isSome_iff_exists.1 hstop
    have hstartNat := toNat_of_checkedMul hstart
    have hstopNat := toNat_of_checkedMul hstop
    rw [hnextNat, hfifty, hone] at hstopNat
    rw [hfifty] at hstartNat
    refine ⟨start, hstart, next, hnext, stop, hstop, ?_⟩
    rw [show stop.toNat - start.toNat = 50 by omega, List.range'_eq_map_range, List.map_map, hstartNat]
    rfl

/-- The fields of `ProtocolActuator` that decide what is proposed. `running` says that the node is in the loop of
`message_handler_start`, and `consensus_notify` holds at most one permit. -/
structure RequestLoop (π : Type) where
  protocol : π
  round : UInt64
  requestBuffer : HashMap String Request
  isLeader : Bool
  consensusState : Bool
  consensusNotify : Bool
  running : Bool

namespace RequestLoop

/-- What the loops of a node and its task `state_check_start` react to. -/
inductive Event (μ ι : Type) where
  /-- `ProtocolStart` of the controller, with the peer id that the reset of the protocol draws. -/
  | protocolStart (drawn : String)
  /-- `MakeAConsensusRequest` or `MakeConsensusRequests`. -/
  | makeConsensusRequests (requests : List Request)
  /-- A message of the protocol, a view timeout or the distribution of keys. -/
  | call (c : Call μ ι)
  /-- One turn of the loop of `state_check_start`. -/
  | stateCheck
  /-- The branch of `consensus_notify`, with the orders in which `next_request` visits the buffer: first, and again
  when it has been refilled. -/
  | consensus (first second : List (String × Request))
  /-- The branch of `protocol_stop_notify` or `crash_notify`. -/
  | stop

variable {π μ ι ρ : Type}

/-- The call on the protocol that an event is. -/
def Event.protocolCall : Event μ ι → Option (Call μ ι)
  | .call c => some c
  | _ => none

/-- `ProtocolActuator::new` and `network_start`. -/
def new (protocol : π) (isLeader : Bool) : RequestLoop π where
  protocol := protocol
  round := 1
  requestBuffer := ∅
  isLeader := isLeader
  consensusState := false
  consensusNotify := false
  running := false

variable (X : Platform) (B : Behaviour π μ ι ρ)

/-- The end of the branches `Over` and `OverMessage`: the leader of the protocol is to propose. -/
def checkLeader (s : RequestLoop π) : RequestLoop π :=
  if B.isLeader s.protocol then { s with consensusState := true } else s

def removeRequest (s : RequestLoop π) (request : Request) : RequestLoop π :=
  { s with requestBuffer := s.requestBuffer.remove (getRequestHash X request) }

/-- `check_protocol_phase_state`. -/
def checkProtocolPhaseState (s : RequestLoop π) : Response ρ → RequestLoop π
  | .phaseState (.over none) => s.checkLeader B
  | .phaseState (.over (some request)) => (s.removeRequest X request).checkLeader B
  | .phaseState (.overMessage _ _) => s.checkLeader B
  | .phaseState (.continueExecute _) => s
  | .phaseState (.complete request _) => s.removeRequest X request
  | .emptyBroadcast => s
  | .decision _ => s

/-- A call on the protocol and what follows from its answer; `none` is a panic of the protocol. -/
def handle (s : RequestLoop π) (c : Call μ ι) : Option (RequestLoop π) :=
  (B.call s.protocol c).map fun (protocol, response) ↦
    { s with protocol := protocol }.checkProtocolPhaseState X B response

/-- `next_request`, with the entries of the buffer in the order in which they are visited. -/
def nextRequest (s : RequestLoop π) (entries : List (String × Request)) : Option Request :=
  Components.nextRequest X (B.checkTakenRequest s.protocol) entries

/-- Hand a request to the protocol. -/
def propose (s : RequestLoop π) (request : Request) : Option (RequestLoop π × Option Request) :=
  (s.handle X B (.consensusProtocolMessageHandler (B.requestMessage request))).map (·, some request)

/-- Fill the buffer with the requests of the round and count the round up. -/
def refill (s : RequestLoop π) : Option (RequestLoop π) := do
  let requests ← refillRequests s.round
  let round ← checkedAdd s.round 1
  return { s with round := round, requestBuffer := writeRequestsIntoBuffer X s.requestBuffer requests }

/-- The branch of `consensus_notify`, with the request that is proposed. `none` is a panic, or an order in which the
buffer cannot be visited. -/
def consensus (s : RequestLoop π) (first second : List (String × Request)) :
    Option (RequestLoop π × Option Request) :=
  if s.requestBuffer.Listing first then
    match s.nextRequest X B first with
    | some request => s.propose X B request
    | none => do
      let s ← s.refill X
      if s.requestBuffer.Listing second then
        let request ← s.nextRequest X B second
        s.propose X B request
      else none
  else none

/-- One turn, with the request that the node proposes. Outside of its loop a node only starts; the branch of
`consensus_notify` is taken when there is a permit. -/
def step (s : RequestLoop π) : Event μ ι → Option (RequestLoop π × Option Request)
  | .protocolStart drawn =>
    if s.running then some (s, none)
    else some ({ s with protocol := B.protocolReset s.protocol drawn, running := true }, none)
  | .makeConsensusRequests requests =>
    if s.running then
      let buffer := writeRequestsIntoBuffer X s.requestBuffer requests
      let state := s.consensusState || (buffer.len != 0 && s.isLeader)
      some ({ s with requestBuffer := buffer, consensusState := state }, none)
    else some (s, none)
  | .call c => if s.running then (s.handle X B c).map (·, none) else some (s, none)
  | .stateCheck =>
    if s.consensusState then some ({ s with consensusState := false, consensusNotify := true }, none)
    else some (s, none)
  | .consensus first second =>
    if s.running && s.consensusNotify then { s with consensusNotify := false }.consensus X B first second
    else some (s, none)
  | .stop => if s.running then some ({ s with requestBuffer := ∅, running := false }, none) else some (s, none)

/-- The refill does not overflow, and in whatever order the refilled buffer is visited, there is a next request to
unwrap. -/
def RefillYields (s : RequestLoop π) : Prop :=
  ∃ s', s.refill X = some s' ∧
    ∀ second, s'.requestBuffer.Listing second → (s'.nextRequest X B second).isSome = true

/-! ## The refilled buffer -/

variable {X} {B}

theorem lookup_writeRequestsIntoBuffer {buffer : HashMap String Request} {requests : List Request} {key : String}
    {request : Request} (h : (writeRequestsIntoBuffer X buffer requests).lookup key = some request) :
    request ∈ requests ∨ buffer.lookup key = some request := by
  induction requests generalizing buffer with
  | nil => exact .inr h
  | cons first rest ih =>
    rcases ih h with hmem | hlookup
    · exact .inl (List.mem_cons_of_mem _ hmem)
    · by_cases hkey : key = getRequestHash X first
      · rw [hkey, writeRequestIntoBuffer, Finmap.lookup_insert] at hlookup
        rw [← Option.some.inj hlookup]
        exact .inl List.mem_cons_self
      · rw [writeRequestIntoBuffer, Finmap.lookup_insert_of_ne _ hkey] at hlookup
        exact .inr hlookup

/-- With a hash of its own for every request, each request that is written is found. -/
theorem lookup_writeRequestsIntoBuffer_of_mem (hhash : Function.Injective (getRequestHash X))
    {buffer : HashMap String Request} {requests : List Request} {request : Request} (h : request ∈ requests) :
    (writeRequestsIntoBuffer X buffer requests).lookup (getRequestHash X request) = some request := by
  have hkept (rest : List Request) (buffer : HashMap String Request)
      (hfound : buffer.lookup (getRequestHash X request) = some request) :
      (writeRequestsIntoBuffer X buffer rest).lookup (getRequestHash X request) = some request := by
    induction rest generalizing buffer with
    | nil => exact hfound
    | cons first rest ih =>
      apply ih
      by_cases hsame : request = first
      · rw [hsame, writeRequestIntoBuffer, Finmap.lookup_insert]
      · rw [writeRequestIntoBuffer, Finmap.lookup_insert_of_ne _ fun heq ↦ hsame (hhash heq), hfound]
  induction requests generalizing buffer with
  | nil => cases h
  | cons first rest ih =>
    rcases List.mem_cons.1 h with rfl | hrest
    · exact hkept rest _ (Finmap.lookup_insert _)
    · exact ih hrest

theorem getRequestHash_injective (hX : X.CollisionFree) (hbytes : Function.Injective X.requestBytes) :
    Function.Injective (getRequestHash X) := hX.comp hbytes

/-- The node after its buffer has been refilled with the requests of the round. -/
def refilled (X : Platform) (s : RequestLoop π) (requests : List Request) : RequestLoop π :=
  { s with round := s.round + 1, requestBuffer := writeRequestsIntoBuffer X s.requestBuffer requests }

theorem refill_eq_some_iff {s s' : RequestLoop π} :
    s.refill X = some s' ↔ ∃ requests, refillRequests s.round = some requests ∧ s' = s.refilled X requests := by
  simp only [refill, bind, pure, Option.bind_eq_some_iff, Option.some.injEq]
  refine exists_congr fun requests ↦ and_congr_right fun hrequests ↦ ?_
  have hlt : s.round.toNat + 1 < 2 ^ 64 := by
    have hbound := (refillRequests_eq_some_iff.1 hrequests).1
    omega
  constructor
  · rintro ⟨round, hround, rfl⟩
    have hsum : s.round + 1 = round := by
      rw [← UInt64.toNat_inj, toNat_of_checkedAdd hround, UInt64.toNat_add]
      exact Nat.mod_eq_of_lt hlt
    rw [refilled, hsum]
  · rintro rfl
    exact ⟨s.round + 1, if_pos hlt, rfl⟩

/-- When the buffer holds taken requests only, the refill yields a request exactly when one of the requests of the
round is not taken. -/
theorem refillYields_iff_of_none (hX : X.CollisionFree) (hbytes : Function.Injective X.requestBytes)
    {s : RequestLoop π} {first : List (String × Request)} (hfirst : s.requestBuffer.Listing first)
    (hnone : s.nextRequest X B first = none) :
    s.RefillYields X B ↔ (s.round.toNat + 1) * 50 < 2 ^ 64 ∧
      ∃ i < 50, B.checkTakenRequest s.protocol (X.requestBytes (refillRequest s.round i)) = false := by
  have htaken := nextRequest_eq_none_iff.1 hnone
  constructor
  · rintro ⟨s', hrefill, hyields⟩
    obtain ⟨requests, hrequests, rfl⟩ := refill_eq_some_iff.1 hrefill
    obtain ⟨hlt, hround⟩ := refillRequests_eq_some_iff.1 hrequests
    refine ⟨hlt, ?_⟩
    obtain ⟨second, hsecond⟩ := HashMap.exists_listing (s.refilled X requests).requestBuffer
    obtain ⟨request, hnext⟩ := Option.isSome_iff_exists.1 (hyields second hsecond)
    obtain ⟨hfree, key, hmem⟩ := nextRequest_eq_some hnext
    rcases lookup_writeRequestsIntoBuffer ((HashMap.mem_listing hsecond).1 hmem) with hnew | hold
    · rw [hround] at hnew
      obtain ⟨i, hi, rfl⟩ := List.mem_map.1 hnew
      exact ⟨i, List.mem_range.1 hi, hfree⟩
    · -- what was buffered before the refill is taken
      have hbefore := htaken (key, request) ((HashMap.mem_listing hfirst).2 hold)
      rw [show B.checkTakenRequest s.protocol (X.requestBytes request) = false from hfree] at hbefore
      cases hbefore
  · rintro ⟨hlt, i, hi, hfree⟩
    have hrequests := refillRequests_eq_some_iff.2 ⟨hlt, rfl⟩
    refine ⟨_, refill_eq_some_iff.2 ⟨_, hrequests, rfl⟩, fun second hsecond ↦ ?_⟩
    have hround : refillRequest s.round i ∈ (List.range 50).map (refillRequest s.round) :=
      List.mem_map_of_mem (List.mem_range.2 hi)
    generalize (List.range 50).map (refillRequest s.round) = requests at hsecond hround ⊢
    have hmem : (getRequestHash X (refillRequest s.round i), refillRequest s.round i) ∈ second :=
      (HashMap.mem_listing hsecond).2
        (lookup_writeRequestsIntoBuffer_of_mem (getRequestHash_injective hX hbytes) hround)
    rw [Option.isSome_iff_ne_none]
    intro hnext
    have hall := nextRequest_eq_none_iff.1 hnext _ hmem
    rw [show B.checkTakenRequest s.protocol (X.requestBytes (refillRequest s.round i)) = true from hall] at hfree
    cases hfree

/-! ## What the protocol takes along a run -/

/-- How a protocol takes requests: `enters` are the requests that a call brings along, and a reset of the protocol
forgets them all or none. -/
structure Taking (X : Platform) (B : Behaviour π μ ι ρ) (enters : Call μ ι → Request → Prop) (forgets : Bool) :
    Prop where
  call : ∀ {p p' : π} {c : Call μ ι} {response : Response ρ}, B.call p c = some (p', response) → ∀ taken,
    B.checkTakenRequest p' taken = true ↔
      (∃ request, enters c request ∧ X.requestBytes request = taken) ∨ B.checkTakenRequest p taken = true
  request : ∀ request request', enters (.consensusProtocolMessageHandler (B.requestMessage request)) request' ↔
    request' = request
  reset : ∀ p drawn taken, B.checkTakenRequest (B.protocolReset p drawn) taken = true ↔
    forgets = false ∧ B.checkTakenRequest p taken = true

variable {enters : Call μ ι → Request → Prop} {forgets : Bool}

/-- The request comes in with a call, or the node proposes it. -/
def Enters (enters : Call μ ι → Request → Prop) (t : Transition (RequestLoop π) (Event μ ι) (Option Request))
    (request : Request) : Prop :=
  (∃ c ∈ t.event.protocolCall, t.pre.running = true ∧ enters c request) ∨ t.out = some request

instance Enters.decidable (enters : Call μ ι → Request → Prop)
    (t : Transition (RequestLoop π) (Event μ ι) (Option Request)) (request : Request)
    [DecidablePred fun c ↦ enters c request] : Decidable (Enters enters t request) :=
  inferInstanceAs (Decidable ((∃ c ∈ t.event.protocolCall, t.pre.running = true ∧ enters c request) ∨ _))

/-- The turn resets a protocol that forgets what it has taken. -/
def forgetsAt (forgets : Bool) (t : Transition (RequestLoop π) (Event μ ι) (Option Request)) : Bool :=
  match t.event with
  | .protocolStart _ => forgets && !t.pre.running
  | _ => false

@[simp] theorem protocol_checkProtocolPhaseState (s : RequestLoop π) (response : Response ρ) :
    (s.checkProtocolPhaseState X B response).protocol = s.protocol := by
  have hleader (s : RequestLoop π) : (s.checkLeader B).protocol = s.protocol := by
    unfold checkLeader
    split <;> rfl
  unfold checkProtocolPhaseState
  split <;> first | rfl | exact hleader _

variable {s s' : RequestLoop π}

theorem checkTakenRequest_of_handle (hB : Taking X B enters forgets) {c : Call μ ι}
    (h : s.handle X B c = some s') (taken : Bytes) :
    B.checkTakenRequest s'.protocol taken = true ↔
      (∃ request, enters c request ∧ X.requestBytes request = taken) ∨
        B.checkTakenRequest s.protocol taken = true := by
  obtain ⟨⟨protocol, response⟩, hcall, rfl⟩ := Option.map_eq_some_iff.1 h
  rw [protocol_checkProtocolPhaseState]
  exact hB.call hcall taken

theorem checkTakenRequest_of_propose (hB : Taking X B enters forgets) {request : Request} {out : Option Request}
    (h : s.propose X B request = some (s', out)) (taken : Bytes) : out = some request ∧
      (B.checkTakenRequest s'.protocol taken = true ↔
        X.requestBytes request = taken ∨ B.checkTakenRequest s.protocol taken = true) := by
  obtain ⟨s'', hhandle, heq⟩ := Option.map_eq_some_iff.1 h
  obtain ⟨rfl, rfl⟩ := Prod.mk.inj heq
  refine ⟨rfl, ?_⟩
  rw [checkTakenRequest_of_handle hB hhandle]
  simp only [hB.request, exists_eq_left]

theorem checkTakenRequest_of_consensus (hB : Taking X B enters forgets) {first second : List (String × Request)}
    {out : Option Request} (h : s.consensus X B first second = some (s', out)) (taken : Bytes) :
    B.checkTakenRequest s'.protocol taken = true ↔
      (∃ request, out = some request ∧ X.requestBytes request = taken) ∨
        B.checkTakenRequest s.protocol taken = true := by
  have hproposed (s₁ : RequestLoop π) {request : Request} (hsame : s₁.protocol = s.protocol)
      (hpropose : s₁.propose X B request = some (s', out)) : B.checkTakenRequest s'.protocol taken = true ↔
        (∃ request, out = some request ∧ X.requestBytes request = taken) ∨
          B.checkTakenRequest s.protocol taken = true := by
    obtain ⟨rfl, hiff⟩ := checkTakenRequest_of_propose hB hpropose taken
    rw [hiff, hsame]
    simp
  unfold consensus at h
  split at h
  case isFalse => cases h
  case isTrue =>
    split at h
    case h_1 => exact hproposed s rfl h
    case h_2 =>
      obtain ⟨s₁, hrefill, hrest⟩ := Option.bind_eq_some_iff.1 h
      split at hrest
      case isFalse => cases hrest
      case isTrue =>
        obtain ⟨request, -, hpropose⟩ := Option.bind_eq_some_iff.1 hrest
        obtain ⟨requests, -, rfl⟩ := refill_eq_some_iff.1 hrefill
        exact hproposed (s.refilled X requests) rfl hpropose

/-- One turn takes what enters with it, unless it resets a protocol that forgets. -/
theorem checkTakenRequest_of_step (hB : Taking X B enters forgets)
    {t : Transition (RequestLoop π) (Event μ ι) (Option Request)}
    (h : t.pre.step X B t.event = some (t.post, t.out)) (taken : Bytes) :
    B.checkTakenRequest t.post.protocol taken = true ↔ forgetsAt forgets t = false ∧
      ((∃ request, Enters enters t request ∧ X.requestBytes request = taken) ∨
        B.checkTakenRequest t.pre.protocol taken = true) := by
  obtain ⟨s, event, out, s'⟩ := t
  have hquiet (hforgets : forgetsAt forgets ⟨s, event, out, s'⟩ = false) (hsame : s'.protocol = s.protocol)
      (henters : ∀ request, ¬ Enters enters ⟨s, event, out, s'⟩ request) :
      B.checkTakenRequest s'.protocol taken = true ↔ forgetsAt forgets ⟨s, event, out, s'⟩ = false ∧
        ((∃ request, Enters enters ⟨s, event, out, s'⟩ request ∧ X.requestBytes request = taken) ∨
          B.checkTakenRequest s.protocol taken = true) := by
    simp [hforgets, hsame, henters]
  cases event with
  | protocolStart drawn =>
    simp only [step] at h
    split at h
    case isTrue hrunning =>
      obtain ⟨rfl, rfl⟩ := Prod.mk.inj (Option.some.inj h)
      exact hquiet (by simp [forgetsAt, hrunning]) rfl (by simp [Enters, Event.protocolCall])
    case isFalse hidle =>
      obtain ⟨rfl, rfl⟩ := Prod.mk.inj (Option.some.inj h)
      simp [forgetsAt, Enters, Event.protocolCall, hB.reset, Bool.eq_false_of_not_eq_true hidle]
  | makeConsensusRequests requests =>
    simp only [step] at h
    split at h
    all_goals
      obtain ⟨rfl, rfl⟩ := Prod.mk.inj (Option.some.inj h)
      exact hquiet rfl rfl (by simp [Enters, Event.protocolCall])
  | call c =>
    simp only [step] at h
    split at h
    case isTrue hrunning =>
      obtain ⟨s'', hhandle, heq⟩ := Option.map_eq_some_iff.1 h
      obtain ⟨rfl, rfl⟩ := Prod.mk.inj heq
      simp [forgetsAt, Enters, Event.protocolCall, hrunning, checkTakenRequest_of_handle hB hhandle]
    case isFalse hidle =>
      obtain ⟨rfl, rfl⟩ := Prod.mk.inj (Option.some.inj h)
      exact hquiet rfl rfl (by simp [Enters, Event.protocolCall, hidle])
  | stateCheck =>
    simp only [step] at h
    split at h
    all_goals
      obtain ⟨rfl, rfl⟩ := Prod.mk.inj (Option.some.inj h)
      exact hquiet rfl rfl (by simp [Enters, Event.protocolCall])
  | consensus first second =>
    simp only [step] at h
    split at h
    case isTrue =>
      rw [checkTakenRequest_of_consensus hB h]
      simp [forgetsAt, Enters, Event.protocolCall]
    case isFalse =>
      obtain ⟨rfl, rfl⟩ := Prod.mk.inj (Option.some.inj h)
      exact hquiet rfl rfl (by simp [Enters, Event.protocolCall])
  | stop =>
    simp only [step] at h
    split at h
    all_goals
      obtain ⟨rfl, rfl⟩ := Prod.mk.inj (Option.some.inj h)
      exact hquiet rfl rfl (by simp [Enters, Event.protocolCall])

/-- Some request of the round has neither come in nor been proposed since the protocol has last forgotten, and the
bounds of the round fit into a word. -/
def FreshRound (enters : Call μ ι → Request → Prop) (forgets : Bool)
    (run : List (Transition (RequestLoop π) (Event μ ι) (Option Request))) (round : UInt64) : Prop :=
  (round.toNat + 1) * 50 < 2 ^ 64 ∧
    ∃ i < 50, ∀ t ∈ sinceLast (forgetsAt forgets) run, ¬ Enters enters t (refillRequest round i)

/-- In every reachable state without a next request, the refill yields one exactly when some request of the round
is fresh. -/
theorem refillYields_iff (hB : Taking X B enters forgets) (hX : X.CollisionFree)
    (hbytes : Function.Injective X.requestBytes) {protocol : π} {isLeader : Bool}
    (hprotocol : ∀ taken, B.checkTakenRequest protocol taken = false)
    {run : List (Transition (RequestLoop π) (Event μ ι) (Option Request))}
    (hrun : IsRun (step X B) (.new protocol isLeader) run s) {first : List (String × Request)}
    (hfirst : s.requestBuffer.Listing first) (hnone : s.nextRequest X B first = none) :
    s.RefillYields X B ↔ FreshRound enters forgets run s.round := by
  have htaken := hrun.holds_iff (fun s taken ↦ B.checkTakenRequest s.protocol taken = true)
    (fun t taken ↦ ∃ request, Enters enters t request ∧ X.requestBytes request = taken) (forgetsAt forgets)
    (fun taken htaken ↦ Bool.false_ne_true ((hprotocol taken).symm.trans htaken))
    (fun t htaken taken ↦ checkTakenRequest_of_step hB htaken taken)
  rw [refillYields_iff_of_none hX hbytes hfirst hnone, FreshRound]
  refine and_congr_right fun _ ↦ exists_congr fun i ↦ and_congr_right fun _ ↦ ?_
  rw [← Bool.not_eq_true, htaken]
  constructor
  · intro hnot t ht henters
    exact hnot ⟨t, ht, _, henters, rfl⟩
  · rintro hfresh ⟨t, ht, request, henters, heq⟩
    exact hfresh t ht (hbytes heq ▸ henters)

end RequestLoop

end BFTDiagnosis.Components
