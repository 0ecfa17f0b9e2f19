import Mathlib.Data.Multiset.Filter
import Mathlib.Logic.Relation

/-!
# A hub that exchanges messages with its spokes

A star is the state of a hub and of every spoke, the messages in flight in both directions and a record of what
the hub has done. Every message in flight is delivered once, and in any order: a step takes one of them and
adds what its receiver sends. The hub may abort, and then the message stays in flight.
-/

namespace BFTDiagnosis

structure Star (σ τ ι μ ο : Type) where
  hub : σ
  spokes : ι → τ
  toSpokes : Multiset (ι × μ)
  toHub : Multiset (ι × μ)
  /-- What the hub has done, oldest first. -/
  record : List ο

namespace Star

variable {σ τ ι μ ο ε : Type}

/-- How hub and spokes handle a message. -/
structure Handlers (σ τ ι μ ο ε : Type) where
  /-- The hub may depend on a choice that is not its own. -/
  hub : σ → ι → μ → ε → Option (σ × List ο)
  /-- A spoke answers to the hub. -/
  spoke : τ → μ → τ × List μ
  /-- The message that something the hub has done puts in flight. -/
  sends : σ → ο → Option (ι × μ)

variable (H : Handlers σ τ ι μ ο ε)

/-- The hub has handled a message, and the rest stays in flight. -/
def handled (w : Star σ τ ι μ ο) (rest : Multiset (ι × μ)) (hub : σ) (out : List ο) : Star σ τ ι μ ο :=
  { w with
    hub := hub
    toSpokes := w.toSpokes + ↑(out.filterMap (H.sends hub))
    toHub := rest
    record := w.record ++ out }

theorem handled_toSpokes (w : Star σ τ ι μ ο) (rest : Multiset (ι × μ)) (hub : σ) (out : List ο) :
    (w.handled H rest hub out).toSpokes = w.toSpokes + ↑(out.filterMap (H.sends hub)) := rfl

variable [DecidableEq ι]

/-- A message is delivered to a spoke, and the rest stays in flight. -/
def toSpoke (w : Star σ τ ι μ ο) (i : ι) (m : μ) (rest : Multiset (ι × μ)) : Star σ τ ι μ ο :=
  { w with
    spokes := Function.update w.spokes i (H.spoke (w.spokes i) m).1
    toSpokes := rest
    toHub := w.toHub + ↑((H.spoke (w.spokes i) m).2.map fun answer ↦ (i, answer)) }

section Projections

variable (w : Star σ τ ι μ ο) (i : ι) (m : μ) (rest : Multiset (ι × μ))

theorem toSpoke_spokes :
    (w.toSpoke H i m rest).spokes = Function.update w.spokes i (H.spoke (w.spokes i) m).1 := rfl

theorem toSpoke_toSpokes : (w.toSpoke H i m rest).toSpokes = rest := rfl

theorem toSpoke_toHub : (w.toSpoke H i m rest).toHub =
    w.toHub + ↑((H.spoke (w.spokes i) m).2.map fun answer ↦ (i, answer)) := rfl

end Projections

inductive Step : Star σ τ ι μ ο → Star σ τ ι μ ο → Prop
  | spoke {w : Star σ τ ι μ ο} {i : ι} {m : μ} {rest : Multiset (ι × μ)} (flight : w.toSpokes = (i, m) ::ₘ rest) :
      Step w (w.toSpoke H i m rest)
  | hub {w : Star σ τ ι μ ο} {i : ι} {m : μ} {rest : Multiset (ι × μ)} {choice : ε} {hub : σ} {out : List ο}
      (flight : w.toHub = (i, m) ::ₘ rest) (taken : H.hub w.hub i m choice = some (hub, out)) :
      Step w (w.handled H rest hub out)

/-- Worlds that deliveries lead to. -/
abbrev Reachable : Star σ τ ι μ ο → Star σ τ ι μ ο → Prop := Relation.ReflTransGen (Step H)

variable {H} {w w' : Star σ τ ι μ ο}

/-- Invariant rule: what every delivery preserves holds in every reachable star. -/
theorem Reachable.invariant {P : Star σ τ ι μ ο → Prop} (hstep : ∀ w w', P w → Step H w w' → P w')
    (h : Reachable H w w') (hw : P w) : P w' := by
  induction h with
  | refl => exact hw
  | tail _ taken ih => exact hstep _ _ ih taken

/-- Termination rule: when every delivery preserves an invariant and decreases a measure, a star is reached in
which nothing can be delivered. -/
theorem exists_final {P : Star σ τ ι μ ο → Prop} (measure : Star σ τ ι μ ο → ℕ)
    (hstep : ∀ w w', P w → Step H w w' → P w' ∧ measure w' < measure w) (hw : P w) :
    ∃ w', Reachable H w w' ∧ P w' ∧ ∀ w'', ¬ Step H w' w'' := by
  induction hmeasure : measure w using Nat.strong_induction_on generalizing w with
  | _ n ih =>
    by_cases hfinal : ∃ w', Step H w w'
    · obtain ⟨w', htaken⟩ := hfinal
      obtain ⟨hw', hlt⟩ := hstep w w' hw htaken
      obtain ⟨w'', hreachable, hw'', hnone⟩ := ih _ (hmeasure ▸ hlt) hw' rfl
      exact ⟨w'', .head htaken hreachable, hw'', hnone⟩
    · exact ⟨w, .refl, hw, fun w' htaken ↦ hfinal ⟨w', htaken⟩⟩

/-- Where nothing can be delivered, all that is in flight makes the hub abort. -/
theorem eq_zero_of_final (h : ∀ w', ¬ Step H w w') :
    w.toSpokes = 0 ∧ ∀ x ∈ w.toHub, ∀ choice, H.hub w.hub x.1 x.2 choice = none := by
  constructor
  · refine Multiset.eq_zero_of_forall_notMem fun x hx ↦ ?_
    obtain ⟨rest, hrest⟩ := Multiset.exists_cons_of_mem hx
    exact h _ (.spoke hrest)
  · intro x hx choice
    obtain ⟨rest, hrest⟩ := Multiset.exists_cons_of_mem hx
    rw [Option.eq_none_iff_forall_ne_some]
    intro result htaken
    exact h _ (.hub hrest htaken)

end Star

end BFTDiagnosis
