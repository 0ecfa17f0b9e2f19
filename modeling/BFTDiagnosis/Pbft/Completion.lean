import BFTDiagnosis.Pbft.LogIntegrity

/-!
# How often a PBFT request completes

The handler that completes a request resets the log in the same call, and with it the phase state that
would reject further votes on the request. What remains of the request is a mark in `taken_requests`,
which no handler reads. A PrePrepare of a completed request is therefore accepted like a new one, and
the votes on it complete it again. Apart from this a request completes once: it must be logged to
complete, and completing it leaves nothing logged.
-/

namespace BFTDiagnosis.Pbft

open Components Word PBFTProtocol

variable {X : Externals}

/-- The requests that a run completes, in order. -/
def completions (run : PbftRun) : List Request := run.filterMap (completedRequest ·.out)

theorem completions_concat (run : PbftRun) (t : Transition PBFTProtocol Event Answer) :
    completions (run ++ [t]) = completions run ++ (completedRequest t.out).toList := by
  unfold completions
  rw [filterMap_concat]

/-- Every request is completed at most once, and the counter of the protocol is the number of different
requests that are completed. -/
structure CompletesOnce (run : PbftRun) (p : PBFTProtocol) : Prop where
  once : (completions run).Nodup
  count : p.state.currentCommitedRequestCount.toNat = (completions run).toFinset.card

/-- The call does not log a request that has been completed before. -/
def NotReopened (X : Externals) (before : PbftRun) (t : Transition PBFTProtocol Event Answer) : Prop :=
  ∀ entry ∈ acceptedRequest X t.pre t.event, entry.2 ∉ completions before

section Step

variable {me : Bytes} {p p' : PBFTProtocol} {event : Event} {out : Answer}

/-- A Commit that completes a request raises the counter by one. -/
theorem handleCommit_complete {msg : Commit} {request : Request} {queue : List (SendType Payload)}
    (h : p.handleCommit X me msg = some (p', .complete request queue)) :
    p'.state.currentCommitedRequestCount.toNat = p.state.currentCommitedRequestCount.toNat + 1 := by
  obtain ⟨accepted, -, hrest⟩ := Option.bind_eq_some_iff.1 h
  split at hrest
  case h_1 m haccepted hm =>
    simp only [acceptCommit, bind, pure, Option.bind_eq_some_iff] at hrest
    obtain ⟨threshold, -, hrest⟩ := hrest
    split at hrest
    case isTrue => cases hrest
    case isFalse =>
      split at hrest
      case isTrue =>
        simp only [completeCommit, bind, pure, Option.bind_eq_some_iff, Option.some.injEq,
          Prod.mk.injEq] at hrest
        obtain ⟨count, hcount, primary, -, rfl, -⟩ := hrest
        exact toNat_of_checkedAdd hcount
      case isFalse => cases hrest
  case h_2 => cases hrest

theorem completedRequest_eq_some {request : Request} (h : completedRequest out = some request) :
    ∃ queue, out = .complete request queue := by
  cases out with
  | complete request' queue => exact ⟨queue, by rw [Option.some.inj h]⟩
  | _ => cases h

theorem step_count_of_complete {request : Request} (h : step X me p event = some (p', out))
    (hcompleted : completedRequest out = some request) :
    p'.state.currentCommitedRequestCount.toNat = p.state.currentCommitedRequestCount.toNat + 1 := by
  obtain ⟨queue, rfl⟩ := completedRequest_eq_some hcompleted
  obtain ⟨msg, rfl, -⟩ := step_complete h
  exact handleCommit_complete h

theorem step_count_of_not_complete (h : step X me p event = some (p', out))
    (hcompleted : completedRequest out = none) :
    p'.state.currentCommitedRequestCount = p.state.currentCommitedRequestCount := by
  cases step_effect h with
  | commitQuorum => cases hcompleted
  | _ => rfl

end Step

/-- What a run keeps: the completed requests are different, the counter counts them, and none of them
is logged. -/
structure CompletionInv (run : PbftRun) (p : PBFTProtocol) : Prop where
  once : (completions run).Nodup
  count : p.state.currentCommitedRequestCount.toNat = (completions run).length
  unlogged : ∀ number request, p.log.requests.lookup number = some request → request ∉ completions run

theorem CompletionInv.start {f : UInt64} {keypair : Bytes} :
    CompletionInv [] (PBFTProtocol.new f keypair) where
  once := List.nodup_nil
  count := rfl
  unlogged := fun _ _ _ ↦ List.not_mem_nil

theorem CompletionInv.step {me : Bytes} {run : PbftRun} {t : Transition PBFTProtocol Event Answer}
    (htaken : step X me t.pre t.event = some (t.post, t.out)) (hnew : NotReopened X run t)
    (h : CompletionInv run t.pre) : CompletionInv (run ++ [t]) t.post := by
  cases hcompleted : completedRequest t.out with
  | none =>
    have hsame : completions (run ++ [t]) = completions run := by
      rw [completions_concat, hcompleted, Option.toList_none, List.append_nil]
    refine ⟨hsame ▸ h.once, ?_, ?_⟩
    · rw [hsame, step_count_of_not_complete htaken hcompleted]
      exact h.count
    · intro number request hlogged
      rw [hsame]
      rcases step_requests htaken hlogged with hold | haccepted
      · exact h.unlogged number request hold
      · exact hnew (number, request) haccepted
  | some request =>
    have hlonger : completions (run ++ [t]) = completions run ++ [request] := by
      rw [completions_concat, hcompleted, Option.toList_some]
    obtain ⟨queue, hout⟩ := completedRequest_eq_some hcompleted
    have hfresh : request ∉ completions run := by
      have hcomplete := htaken
      rw [hout] at hcomplete
      obtain ⟨msg, -, -, hlogged, -⟩ := step_complete hcomplete
      exact h.unlogged msg.number request hlogged
    have hcleared : t.post.log.Cleared := step_cleared htaken (by rw [hout]; rfl)
    refine ⟨?_, ?_, ?_⟩
    · rw [hlonger, ← List.concat_eq_append, List.nodup_concat]
      exact ⟨hfresh, h.once⟩
    · rw [hlonger, List.length_append, List.length_singleton, ← h.count]
      exact step_count_of_complete htaken hcompleted
    · intro number other hlogged
      rw [hcleared.requests, Finmap.lookup_empty] at hlogged
      cases hlogged

/-- In a run that does not log a completed request again, every request completes at most once and the
counter is the number of completed requests. -/
theorem completesOnce_of_notReopened {f : UInt64} {keypair me : Bytes} {run : PbftRun}
    {p : PBFTProtocol} (hrun : IsRun (step X me) (PBFTProtocol.new f keypair) run p)
    (hnew : ∀ before t after, run = before ++ t :: after → NotReopened X before t) :
    CompletesOnce run p := by
  have hinv : CompletionInv run p := by
    apply IsRun.induction_of_split .start ?_ hrun hnew
    intro run s event out s' h hcondition htaken
    exact CompletionInv.step htaken hcondition h
  refine ⟨hinv.once, ?_⟩
  rw [List.toFinset_card_of_nodup hinv.once]
  exact hinv.count

/-! ## A request that is delivered again -/

instance NotReopened.decidable (X : Externals) (before : PbftRun)
    (t : Transition PBFTProtocol Event Answer) : Decidable (NotReopened X before t) :=
  inferInstanceAs (Decidable (∀ entry ∈ acceptedRequest X t.pre t.event, _ ∉ _))

/-- The proposal of a request, two Prepares and two Commits. -/
def agreementEvents (cmd : String) : List Event :=
  [.message (.prePrepare (roundPreprepare [2] ⟨cmd⟩)), .message (.prepare (roundPrepare [2] ⟨cmd⟩)),
    .message (.prepare (roundPrepare [3] ⟨cmd⟩)), .message (.commit (roundCommit [2] ⟨cmd⟩)),
    .message (.commit (roundCommit [3] ⟨cmd⟩))]

/-- A replica that knows two peers and sees them agree on the given requests. -/
def agreementsEvents (cmds : List String) : List Event :=
  [.message (.publicKey ⟨[2], [2]⟩), .message (.publicKey ⟨[3], [3]⟩)] ++ cmds.flatMap agreementEvents

/-- Two requests, each completed once. -/
theorem completesOnce_of_notReopened_two :
    ∃ run p, IsRun (step .transparent [1]) (PBFTProtocol.new 1 [1]) run p ∧
      completions run = [⟨"a"⟩, ⟨"b"⟩] ∧
      (∀ before t after, run = before ++ t :: after → NotReopened .transparent before t) ∧
      CompletesOnce run p := by
  have hrun : IsRun (step .transparent [1]) (PBFTProtocol.new 1 [1])
      (transitions (step .transparent [1]) (PBFTProtocol.new 1 [1]) (agreementsEvents ["a", "b"])) _ :=
    .of_isSome (by decide +kernel)
  have hnew : ∀ before t after, transitions (step .transparent [1]) (PBFTProtocol.new 1 [1])
      (agreementsEvents ["a", "b"]) = before ++ t :: after → NotReopened .transparent before t :=
    forall_split_of_forall (by decide +kernel)
  exact ⟨_, _, hrun, by decide +kernel, hnew, completesOnce_of_notReopened hrun hnew⟩

/-- The messages of one agreement are delivered twice, and the request completes twice. -/
theorem not_completesOnce_of_redelivery :
    ∃ run p, IsRun (step .transparent [1]) (PBFTProtocol.new 1 [1]) run p ∧
      completions run = [⟨"a"⟩, ⟨"a"⟩] ∧ p.state.currentCommitedRequestCount = 2 ∧
      ¬ (completions run).Nodup ∧
      p.state.currentCommitedRequestCount.toNat ≠ (completions run).toFinset.card ∧
      ¬ CompletesOnce run p := by
  have hrun : IsRun (step .transparent [1]) (PBFTProtocol.new 1 [1])
      (transitions (step .transparent [1]) (PBFTProtocol.new 1 [1]) (agreementsEvents ["a", "a"])) _ :=
    .of_isSome (by decide +kernel)
  have htwice : ¬ (completions (transitions (step .transparent [1]) (PBFTProtocol.new 1 [1])
      (agreementsEvents ["a", "a"]))).Nodup := by decide +kernel
  exact ⟨_, _, hrun, by decide +kernel, by decide +kernel, htwice, by decide +kernel,
    fun h ↦ htwice h.once⟩

end BFTDiagnosis.Pbft
