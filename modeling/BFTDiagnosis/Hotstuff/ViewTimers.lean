import BFTDiagnosis.Lib.Answers
import BFTDiagnosis.Lib.Run

/-!
# Which handle a view timer signals

The protocols of HotStuff start a view timer in some of their calls. The timer signals the handle that the
protocol holds at that moment, so it belongs to what a call does, next to the answer. A handle is the number of
the `Notify` in the order in which they were made; `Notify::new` makes the next one.
-/

namespace BFTDiagnosis.Hotstuff

variable {π ε ο : Type}

/-- A protocol with the handle that its view timers signal, and how many handles have been made. -/
structure Timed (π : Type) where
  protocol : π
  viewTimeoutNotify : ℕ
  allocated : ℕ

namespace Timed

/-- A protocol prepared with `init_timeout_notify`: the given handle replaces the one that it was created with. -/
def initTimeoutNotify (protocol : π) (timeoutNotify allocated : ℕ) : Timed π where
  protocol := protocol
  viewTimeoutNotify := timeoutNotify
  allocated := allocated

/-- The protocol holds a handle that it has just made. -/
def newNotify (s : Timed π) (protocol : π) : Timed π where
  protocol := protocol
  viewTimeoutNotify := s.allocated
  allocated := s.allocated + 1

/-- A call, with the handles that the view timers started by it signal. -/
def call (respond : π → ε → Option (π × ο)) (startsViewTimer : π → π → Bool) (s : Timed π) (event : ε) :
    Option (Timed π × ο × List ℕ) :=
  (respond s.protocol event).map fun (protocol, response) ↦
    ({ s with protocol := protocol }, response,
      if startsViewTimer s.protocol protocol then [s.viewTimeoutNotify] else [])

variable {respond : π → ε → Option (π × ο)} {startsViewTimer : π → π → Bool} {s s' t : Timed π}

theorem call_eq_some_iff {event : ε} {response : ο} {timers : List ℕ} :
    call respond startsViewTimer s event = some (s', response, timers) ↔
      ∃ protocol, respond s.protocol event = some (protocol, response) ∧ s' = { s with protocol := protocol } ∧
        timers = if startsViewTimer s.protocol protocol then [s.viewTimeoutNotify] else [] := by
  constructor
  · intro h
    obtain ⟨⟨protocol, response'⟩, hrespond, heq⟩ := Option.map_eq_some_iff.1 h
    obtain ⟨rfl, hout⟩ := Prod.mk.inj heq
    obtain ⟨rfl, rfl⟩ := Prod.mk.inj hout
    exact ⟨protocol, hrespond, rfl, rfl⟩
  · rintro ⟨protocol, hrespond, rfl, rfl⟩
    rw [call, hrespond]
    rfl

/-- Calls make no handles. -/
theorem allocated_of_run {run : List (Transition (Timed π) ε (ο × List ℕ))}
    (hrun : IsRun (call respond startsViewTimer) s run s') : s'.allocated = s.allocated := by
  apply IsRun.invariant_of_forall (fun t ↦ t.allocated = s.allocated) rfl ?_ hrun fun _ _ ↦ trivial
  intro t hbefore _ htaken
  obtain ⟨protocol, -, hpost, -⟩ := call_eq_some_iff.1 htaken
  rw [hpost]
  exact hbefore

/-- A call that starts a view timer on both sides tells two protocols with different handles apart. -/
theorem not_indistinguishable_of_timer (hhandles : s.viewTimeoutNotify ≠ t.viewTimeoutNotify) {event : ε}
    {protocol protocol' : π} {response response' : ο} (hleft : respond s.protocol event = some (protocol, response))
    (hright : respond t.protocol event = some (protocol', response'))
    (hstarts : startsViewTimer s.protocol protocol = true) (hstarts' : startsViewTimer t.protocol protocol' = true) :
    ¬ Indistinguishable (call respond startsViewTimer) s t := by
  intro h
  have hcall : call respond startsViewTimer s event =
      some ({ s with protocol := protocol }, response, [s.viewTimeoutNotify]) :=
    call_eq_some_iff.2 ⟨protocol, hleft, rfl, by rw [if_pos hstarts]⟩
  have hcall' : call respond startsViewTimer t event =
      some ({ t with protocol := protocol' }, response', [t.viewTimeoutNotify]) :=
    call_eq_some_iff.2 ⟨protocol', hright, rfl, by rw [if_pos hstarts']⟩
  obtain ⟨t', hother, -⟩ := h.next hcall
  have hsame := (Prod.mk.inj (Option.some.inj (hcall'.symm.trans hother))).2
  exact hhandles (List.singleton_inj.1 (Prod.mk.inj hsame).2).symm

/-- Two protocols that differ in their handles only answer the same calls alike until one of them starts a view
timer. -/
theorem answers_eq_iff_of_handles (hprotocol : s.protocol = t.protocol)
    (hhandles : s.viewTimeoutNotify ≠ t.viewTimeoutNotify) (events : List ε) :
    answers (call respond startsViewTimer) s events = answers (call respond startsViewTimer) t events ↔
      ∀ response timers, some (response, timers) ∈ answers (call respond startsViewTimer) s events →
        timers = [] := by
  induction events generalizing s t with
  | nil => exact iff_of_true rfl fun _ _ h ↦ absurd h List.not_mem_nil
  | cons event events ih =>
    cases hrespond : respond s.protocol event with
    | none =>
      have hleft : call respond startsViewTimer s event = none := by rw [call, hrespond, Option.map_none]
      have hright : call respond startsViewTimer t event = none := by
        rw [call, ← hprotocol, hrespond, Option.map_none]
      rw [answers_cons_of_eq_none hleft, answers_cons_of_eq_none hright]
      refine iff_of_true rfl fun response timers hmem ↦ ?_
      cases List.mem_singleton.1 hmem
    | some result =>
      obtain ⟨protocol, response⟩ := result
      have hleft : call respond startsViewTimer s event = some ({ s with protocol := protocol }, response,
          if startsViewTimer s.protocol protocol then [s.viewTimeoutNotify] else []) :=
        call_eq_some_iff.2 ⟨protocol, hrespond, rfl, rfl⟩
      have hright : call respond startsViewTimer t event = some ({ t with protocol := protocol }, response,
          if startsViewTimer s.protocol protocol then [t.viewTimeoutNotify] else []) :=
        call_eq_some_iff.2 ⟨protocol, hprotocol ▸ hrespond, rfl, by rw [hprotocol]⟩
      rw [answers_cons_of_eq_some hleft, answers_cons_of_eq_some hright]
      cases hstarts : startsViewTimer s.protocol protocol with
      | true =>
        refine iff_of_false (fun hsame ↦ ?_) fun hnone ↦ ?_
        · have htimers := (Prod.mk.inj (Option.some.inj (List.cons.inj hsame).1)).2
          exact hhandles (List.singleton_inj.1 htimers)
        · exact List.cons_ne_nil _ _ (hnone response _ List.mem_cons_self)
      | false =>
        have hrest := @ih { s with protocol := protocol } { t with protocol := protocol } rfl hhandles
        constructor
        · intro hsame response' timers hmem
          rcases List.mem_cons.1 hmem with hfirst | hlater
          · exact (Prod.mk.inj (Option.some.inj hfirst)).2
          · exact hrest.1 (List.cons.inj hsame).2 response' timers hlater
        · intro hnone
          have htail := hrest.2 fun response' timers hmem ↦ hnone response' timers (List.mem_cons_of_mem _ hmem)
          exact congrArg _ htail

end Timed

end BFTDiagnosis.Hotstuff
