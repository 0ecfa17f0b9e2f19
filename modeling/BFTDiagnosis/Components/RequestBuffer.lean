import BFTDiagnosis.Lib.Drain
import BFTDiagnosis.Utils.Platform

/-!
# The request buffer of a consensus node

`request_buffer` of `ProtocolActuator` in `components/src/protocol_actuator.rs`: a map from the hash of a request
to the request. The next request is the first one that the protocol has not taken, in the order in which the map
is visited; the protocol is asked about the bincode form of a request.
-/

namespace BFTDiagnosis.Components

open Utils

variable (X : Platform)

/-- `get_request_hash` of `components/src/common.rs`. -/
def getRequestHash (request : Request) : String := X.getHashStr (X.requestBytes request)

/-- One turn of the loop of `write_requests_into_buffer`. -/
def writeRequestIntoBuffer (buffer : HashMap String Request) (request : Request) : HashMap String Request :=
  buffer.insert (getRequestHash X request) request

def writeRequestsIntoBuffer (buffer : HashMap String Request) (requests : List Request) : HashMap String Request :=
  requests.foldl (writeRequestIntoBuffer X) buffer

/-- `next_request`, with the entries of the buffer in the order in which the map is visited. -/
def nextRequest (checkTakenRequest : Bytes → Bool) : List (String × Request) → Option Request
  | [] => none
  | entry :: rest =>
    if checkTakenRequest (X.requestBytes entry.2) then nextRequest checkTakenRequest rest else some entry.2

variable {X} {checkTakenRequest : Bytes → Bool} {entries : List (String × Request)}

/-- There is no next request exactly when every buffered one is taken. -/
theorem nextRequest_eq_none_iff : nextRequest X checkTakenRequest entries = none ↔
    ∀ entry ∈ entries, checkTakenRequest (X.requestBytes entry.2) = true := by
  induction entries with
  | nil => exact iff_of_true rfl (List.forall_mem_nil _)
  | cons entry rest ih =>
    rw [nextRequest, List.forall_mem_cons, ← ih]
    split
    case isTrue htaken => exact (and_iff_right htaken).symm
    case isFalse hnot => exact iff_of_false (Option.some_ne_none _) fun h ↦ hnot h.1

/-- The next request is buffered and not taken. -/
theorem nextRequest_eq_some {request : Request} (h : nextRequest X checkTakenRequest entries = some request) :
    checkTakenRequest (X.requestBytes request) = false ∧ ∃ key, (key, request) ∈ entries := by
  induction entries with
  | nil => cases h
  | cons entry rest ih =>
    rw [nextRequest] at h
    split at h
    case isTrue =>
      obtain ⟨hfree, key, hmem⟩ := ih h
      exact ⟨hfree, key, List.mem_cons_of_mem _ hmem⟩
    case isFalse hnot =>
      obtain rfl := Option.some.inj h
      exact ⟨Bool.eq_false_of_not_eq_true hnot, entry.1, List.mem_cons_self⟩

/-- A request is never the next one, whatever is buffered and in whatever order, exactly when it is taken. -/
theorem nextRequest_ne_some_iff {request : Request} :
    (∀ entries, nextRequest X checkTakenRequest entries ≠ some request) ↔
      checkTakenRequest (X.requestBytes request) = true := by
  constructor
  · intro hnever
    by_contra hnot
    have hnext : nextRequest X checkTakenRequest [("", request)] = some request := by
      rw [nextRequest, if_neg hnot]
    exact hnever _ hnext
  · intro htaken entries hnext
    rw [(nextRequest_eq_some hnext).1] at htaken
    cases htaken

end BFTDiagnosis.Components
