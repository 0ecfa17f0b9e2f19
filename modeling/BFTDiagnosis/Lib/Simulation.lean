import Mathlib.Data.List.Forall2
import BFTDiagnosis.Lib.Run

/-!
# Simulations

A machine simulates another one when every step of the other one is matched by steps of it, from related states to
related states. A whole run is then matched piece by piece. The stepwise rule is for machines that keep in step.
-/

namespace BFTDiagnosis

variable {σ ε ο τ φ π : Type} {step : σ → ε → Option (σ × ο)} {step' : τ → φ → Option (τ × π)} {initial : σ}
  {initial' : τ}

/-- A run goes on with a run from where it ends. -/
theorem IsRun.append {run later : List (Transition σ ε ο)} {s s' : σ} (h : IsRun step initial run s)
    (hlater : IsRun step s later s') : IsRun step initial (run ++ later) s' := by
  induction hlater with
  | nil => rwa [List.append_nil]
  | snoc previous taken ih =>
    rw [← List.append_assoc]
    exact ih.snoc taken

theorem IsRun.single {s s' : σ} {event : ε} {out : ο} (h : step s event = some (s', out)) :
    IsRun step s [⟨s, event, out, s'⟩] s' :=
  IsRun.nil.snoc h

theorem exec_concat {events : List ε} {event : ε} {run : List (Transition σ ε ο)} {s s₁ s' : σ} {out : ο}
    (h : exec step s events = some (run, s₁)) (htaken : step s₁ event = some (s', out)) :
    exec step s (events ++ [event]) = some (run ++ [⟨s₁, event, out, s'⟩], s') := by
  induction events generalizing s run with
  | nil =>
    obtain ⟨rfl, rfl⟩ := Prod.mk.inj (Option.some.inj h)
    simp only [List.nil_append, exec, htaken, bind, pure, Option.bind_some]
  | cons first events ih =>
    obtain ⟨s₂, out', rest, hfirst, hrest, rfl⟩ := exec_cons_eq_some h
    simp only [List.cons_append, exec, hfirst, ih hrest, bind, pure, Option.bind_some]

/-- A run is the execution of its events. -/
theorem IsRun.exec_eq {run : List (Transition σ ε ο)} {s : σ} (h : IsRun step initial run s) :
    exec step initial (run.map Transition.event) = some (run, s) := by
  induction h with
  | nil => rfl
  | snoc previous taken ih =>
    rw [List.map_append, List.map_singleton]
    exact exec_concat ih taken

/-- Simulation rule: when every step under the side condition is matched by a run from a related state to a related
state, then every run of such steps is matched by a run, piece by piece. -/
theorem IsRun.simulated (Rel : σ → τ → Prop) (Matched : Transition σ ε ο → List (Transition τ φ π) → Prop)
    {condition : Transition σ ε ο → Prop}
    (hstep : ∀ (t : Transition σ ε ο) (s : τ), Rel t.pre s → condition t → step t.pre t.event = some (t.post, t.out) →
      ∃ steps s', IsRun step' s steps s' ∧ Rel t.post s' ∧ Matched t steps)
    {run : List (Transition σ ε ο)} {s : σ} (hinitial : Rel initial initial') (h : IsRun step initial run s)
    (hcondition : ∀ t ∈ run, condition t) :
    ∃ pieces s', IsRun step' initial' pieces.flatten s' ∧ Rel s s' ∧ List.Forall₂ Matched run pieces := by
  induction h with
  | nil => exact ⟨[], initial', .nil, hinitial, .nil⟩
  | @snoc run s s' event out previous taken ih =>
    obtain ⟨pieces, t, hpieces, hrel, hmatched⟩ := ih fun t ht ↦ hcondition t (List.mem_append_left _ ht)
    have hlast : condition ⟨s, event, out, s'⟩ := hcondition _ List.mem_concat_self
    obtain ⟨steps, t', hsteps, hrel', hmatch⟩ := hstep ⟨s, event, out, s'⟩ t hrel hlast taken
    refine ⟨pieces ++ [steps], t', ?_, hrel', List.rel_append hmatched (.cons hmatch .nil)⟩
    rw [List.flatten_append, List.flatten_singleton]
    exact hpieces.append hsteps

/-- What is read off a run and what is read off the pieces that match its steps are the same when they are the same
step by step. -/
theorem flatMap_eq_of_matched {α β γ : Type} {Matched : α → List β → Prop} {read : α → List γ} {read' : β → List γ}
    (hread : ∀ a piece, Matched a piece → read a = piece.flatMap read') {as : List α} {pieces : List (List β)}
    (h : List.Forall₂ Matched as pieces) : as.flatMap read = pieces.flatten.flatMap read' := by
  induction h with
  | nil => rfl
  | cons hfirst _ ih =>
    rw [List.flatMap_cons, List.flatten_cons, List.flatMap_append, hread _ _ hfirst, ih]

/-- The same for runs that keep in step. -/
theorem flatMap_eq_of_alike {α β γ : Type} {Alike : α → β → Prop} {read : α → List γ} {read' : β → List γ}
    (hread : ∀ a b, Alike a b → read a = read' b) {as : List α} {bs : List β} (h : List.Forall₂ Alike as bs) :
    as.flatMap read = bs.flatMap read' := by
  induction h with
  | nil => rfl
  | cons hfirst _ ih => rw [List.flatMap_cons, List.flatMap_cons, hread _ _ hfirst, ih]

/-- Stepwise rule: two machines that take the same calls, where the calls of the first are read off the calls of the
second. When every step of the first is a step of the second as well, so is every run. -/
theorem exec_of_stepwise (Rel : σ → τ → Prop) (read : φ → ε)
    (Alike : Transition σ ε ο → Transition τ φ π → Prop) (condition : φ → Prop)
    (hstep : ∀ s t call s' out, Rel s t → condition call → step s (read call) = some (s', out) →
      ∃ t' out', step' t call = some (t', out') ∧ Rel s' t' ∧ Alike ⟨s, read call, out, s'⟩ ⟨t, call, out', t'⟩)
    {calls : List φ} {run : List (Transition σ ε ο)} {s s' : σ} {t : τ} (hrel : Rel s t)
    (hcalls : ∀ call ∈ calls, condition call) (h : exec step s (calls.map read) = some (run, s')) :
    ∃ run' t', exec step' t calls = some (run', t') ∧ Rel s' t' ∧ List.Forall₂ Alike run run' := by
  induction calls generalizing s t run with
  | nil =>
    obtain ⟨rfl, rfl⟩ := Prod.mk.inj (Option.some.inj h)
    exact ⟨[], t, rfl, hrel, .nil⟩
  | cons call calls ih =>
    obtain ⟨s₁, out, rest, htaken, hrest, rfl⟩ := exec_cons_eq_some h
    obtain ⟨hcall, hlater⟩ := List.forall_mem_cons.1 hcalls
    obtain ⟨t₁, out', htaken', hrel₁, hfirst⟩ := hstep s t call s₁ out hrel hcall htaken
    obtain ⟨run', t', hexec, hrel', halike⟩ := ih hrel₁ hlater hrest
    refine ⟨⟨t, call, out', t₁⟩ :: run', t', ?_, hrel', .cons hfirst halike⟩
    simp only [exec, htaken', hexec, bind, pure, Option.bind_some]

end BFTDiagnosis
