import Mathlib.Data.List.Basic

/-!
# What a component answers

Two states of a component can differ in what no sequence of calls ever shows. They are
indistinguishable when every sequence of calls is answered alike, up to and including the first call
that aborts. A relation that every call preserves and under which it answers alike is enough for
that; in the other direction indistinguishability is itself such a relation, so that one call after
another can be played on both states.
-/

namespace BFTDiagnosis

variable {σ ε ο : Type}

/-- The answers to a list of calls; the list ends with `none` when a call aborts. -/
def answers (step : σ → ε → Option (σ × ο)) : σ → List ε → List (Option ο)
  | _, [] => []
  | s, event :: events =>
    match step s event with
    | none => [none]
    | some (s', out) => some out :: answers step s' events

theorem answers_cons_of_eq_none {step : σ → ε → Option (σ × ο)} {s : σ} {event : ε} {events : List ε}
    (h : step s event = none) : answers step s (event :: events) = [none] := by
  rw [answers, h]

theorem answers_cons_of_eq_some {step : σ → ε → Option (σ × ο)} {s s' : σ} {event : ε} {events : List ε}
    {out : ο} (h : step s event = some (s', out)) :
    answers step s (event :: events) = some out :: answers step s' events := by
  rw [answers, h]

/-- Every sequence of calls is answered alike. -/
def Indistinguishable (step : σ → ε → Option (σ × ο)) (s t : σ) : Prop :=
  ∀ events, answers step s events = answers step t events

/-- Both calls abort, or both return the same answer and related states. -/
def AnsweredAlike (Rel : σ → σ → Prop) : Option (σ × ο) → Option (σ × ο) → Prop
  | none, none => True
  | some (s, out), some (t, out') => Rel s t ∧ out = out'
  | _, _ => False

/-- Two calls that begin with the same computation and go on alike. -/
theorem AnsweredAlike.bind {α : Type} {Rel : σ → σ → Prop} {x : Option α} {f g : α → Option (σ × ο)}
    (h : ∀ a, AnsweredAlike Rel (f a) (g a)) : AnsweredAlike Rel (x.bind f) (x.bind g) := by
  cases x with
  | none => trivial
  | some a => exact h a

/-- A call that adds to its answer what related states have in common. -/
theorem AnsweredAlike.mapState {ω : Type} {Rel : σ → σ → Prop} {result result' : Option (σ × ο)}
    (h : AnsweredAlike Rel result result') (wrap : σ → ο → ω) (hwrap : ∀ s t out, Rel s t → wrap s out = wrap t out) :
    AnsweredAlike Rel (result.map fun r ↦ (r.1, wrap r.1 r.2)) (result'.map fun r ↦ (r.1, wrap r.1 r.2)) := by
  unfold AnsweredAlike at h
  split at h
  case h_1 => trivial
  case h_2 s out t out' =>
    obtain ⟨hrel, rfl⟩ := h
    exact ⟨hrel, hwrap s t out hrel⟩
  case h_3 => exact h.elim

/-- A call that answers alike, read off the answer to one of the states. -/
theorem AnsweredAlike.exists_of_eq_some {Rel : σ → σ → Prop} {result result' : Option (σ × ο)} {s : σ} {out : ο}
    (h : AnsweredAlike Rel result result') (hresult : result = some (s, out)) :
    ∃ t, result' = some (t, out) ∧ Rel s t := by
  subst hresult
  cases result' with
  | none => exact h.elim
  | some r =>
    obtain ⟨hrel, rfl⟩ := h
    exact ⟨r.1, rfl, hrel⟩

theorem AnsweredAlike.map {ω : Type} {Rel : σ → σ → Prop} {result result' : Option (σ × ο)}
    (h : AnsweredAlike Rel result result') (wrap : ο → ω) :
    AnsweredAlike Rel (result.map (Prod.map id wrap)) (result'.map (Prod.map id wrap)) := by
  unfold AnsweredAlike at h
  split at h
  case h_1 => trivial
  case h_2 => exact h.imp_right (congrArg wrap)
  case h_3 => exact h.elim

namespace Indistinguishable

variable {step : σ → ε → Option (σ × ο)} {s t : σ}

theorem symm (h : Indistinguishable step s t) : Indistinguishable step t s := fun events ↦ (h events).symm

/-- States in a relation that every call preserves, answering alike, are indistinguishable. -/
theorem of_simulation (Rel : σ → σ → Prop)
    (hstep : ∀ s t event, Rel s t → AnsweredAlike Rel (step s event) (step t event)) (hrel : Rel s t) :
    Indistinguishable step s t := by
  intro events
  induction events generalizing s t with
  | nil => rfl
  | cons event events ih =>
    have halike := hstep s t event hrel
    unfold AnsweredAlike at halike
    split at halike
    case h_1 hs ht => rw [answers_cons_of_eq_none hs, answers_cons_of_eq_none ht]
    case h_2 hs ht =>
      obtain ⟨hrel', rfl⟩ := halike
      rw [answers_cons_of_eq_some hs, answers_cons_of_eq_some ht, ih hrel']
    case h_3 => exact halike.elim

/-- A call that one of two indistinguishable states answers is answered alike by the other one, and the
states stay indistinguishable. -/
theorem next (h : Indistinguishable step s t) {event : ε} {s' : σ} {out : ο}
    (htaken : step s event = some (s', out)) :
    ∃ t', step t event = some (t', out) ∧ Indistinguishable step s' t' := by
  cases htaken' : step t event with
  | none =>
    have hfirst := h [event]
    rw [answers_cons_of_eq_some htaken, answers_cons_of_eq_none htaken'] at hfirst
    cases hfirst
  | some result =>
    obtain ⟨t', out'⟩ := result
    have hsame (events : List ε) :
        some out :: answers step s' events = some out' :: answers step t' events := by
      rw [← answers_cons_of_eq_some htaken, ← answers_cons_of_eq_some htaken', h]
    refine ⟨t', ?_, fun events ↦ (List.cons.inj (hsame events)).2⟩
    rw [Option.some.inj (List.cons.inj (hsame [])).1]

end Indistinguishable

end BFTDiagnosis
