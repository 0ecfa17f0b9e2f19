import Mathlib.Data.Finset.Basic
import BFTDiagnosis.Lib.Run

/-!
# Nodes that exchange messages

A world is one state for each node, and the history of everything that happened so far: which node
took which transition, oldest first. Every order, loss and duplication of messages is a list of
deliveries, and faulty nodes are those whose deliveries carry messages that no correct node sent.
What a result assumes of the environment, and what it needs of the messages, is a condition on a
delivery and the world it happens in; `Reachable` collects the worlds that deliveries under the
condition lead to.

A node that aborts takes no further part. The worlds that remain reachable are those in which the
aborting message was lost, so an aborted delivery is no transition.
-/

namespace BFTDiagnosis

variable {ι σ ε ο : Type}

/-- What happened so far, with the node it happened at. -/
abbrev History (ι σ ε ο : Type) := List (ι × Transition σ ε ο)

/-- What a record reads off the transitions of one node, oldest first. -/
def History.perNode {α : Type} [DecidableEq ι] (record : Transition σ ε ο → Option α)
    (history : History ι σ ε ο) (i : ι) : List α :=
  history.filterMap fun entry ↦ if entry.1 = i then record entry.2 else none

theorem History.perNode_append {α : Type} [DecidableEq ι] (record : Transition σ ε ο → Option α)
    (history : History ι σ ε ο) (j : ι) (t : Transition σ ε ο) (i : ι) :
    perNode record (history ++ [(j, t)]) i =
      perNode record history i ++ if j = i then (record t).toList else [] := by
  rw [perNode, filterMap_concat, ← perNode]
  by_cases hji : j = i
  · simp only [hji, if_true]
  · simp only [hji, if_false, Option.toList_none]

theorem History.mem_perNode [DecidableEq ι] {history : History ι σ ε ο} {i : ι} {t : Transition σ ε ο} :
    t ∈ perNode some history i ↔ (i, t) ∈ history := by
  simp only [perNode, List.mem_filterMap, Option.ite_none_right_eq_some, Option.some.injEq]
  constructor
  · rintro ⟨⟨j, t'⟩, hentry, rfl, rfl⟩
    exact hentry
  · exact fun hentry ↦ ⟨(i, t), hentry, rfl, rfl⟩

/-- A transition of one node, together with what it did before, as a part of the whole history. -/
theorem History.split_of_perNode [DecidableEq ι] {history : History ι σ ε ο} {i : ι}
    {before after : List (Transition σ ε ο)} {t : Transition σ ε ο}
    (h : perNode some history i = before ++ t :: after) :
    ∃ first rest, history = first ++ (i, t) :: rest ∧ perNode some first i = before := by
  obtain ⟨first, rest, rfl, hfirst, hrest⟩ := List.filterMap_eq_append_iff.1 h
  obtain ⟨others, ⟨j, t'⟩, rest, rfl, hothers, hentry, -⟩ := List.filterMap_eq_cons_iff.1 hrest
  rw [Option.ite_none_right_eq_some] at hentry
  obtain ⟨rfl, hsame⟩ := hentry
  obtain rfl := Option.some.inj hsame
  refine ⟨first ++ others, rest, by rw [List.append_assoc], ?_⟩
  rw [perNode, List.filterMap_append, hfirst, List.filterMap_eq_nil_iff.2 hothers, List.append_nil]

structure World (ι σ ε ο : Type) where
  nodes : ι → σ
  history : History ι σ ε ο

namespace World

variable [DecidableEq ι]

/-- A world in which nothing has happened. -/
def start (nodes : ι → σ) : World ι σ ε ο := ⟨nodes, []⟩

/-- Deliver an event to a node. -/
def deliver (step : ι → σ → ε → Option (σ × ο)) (w : World ι σ ε ο) (delivery : ι × ε) :
    Option (World ι σ ε ο) :=
  (step delivery.1 (w.nodes delivery.1) delivery.2).map fun result ↦
    { nodes := Function.update w.nodes delivery.1 result.1
      history := w.history ++
        [(delivery.1, ⟨w.nodes delivery.1, delivery.2, result.2, result.1⟩)] }

/-- Worlds that deliveries under a condition lead to. -/
inductive Reachable (step : ι → σ → ε → Option (σ × ο))
    (condition : World ι σ ε ο → ι × ε → Prop) (initial : World ι σ ε ο) : World ι σ ε ο → Prop
  | start : Reachable step condition initial initial
  | deliver {w w' : World ι σ ε ο} {delivery : ι × ε} (previous : Reachable step condition initial w)
      (met : condition w delivery) (taken : w.deliver step delivery = some w') :
      Reachable step condition initial w'

/-- Execute deliveries, stopping at the first that aborts or fails the condition. -/
def exec (step : ι → σ → ε → Option (σ × ο)) (condition : World ι σ ε ο → ι × ε → Prop)
    [∀ w delivery, Decidable (condition w delivery)] :
    World ι σ ε ο → List (ι × ε) → Option (World ι σ ε ο)
  | w, [] => some w
  | w, delivery :: rest =>
    if condition w delivery then (w.deliver step delivery).bind (exec step condition · rest) else none

/-- The world an execution ends in, the initial one when it stops early. -/
def final (step : ι → σ → ε → Option (σ × ο)) (condition : World ι σ ε ο → ι × ε → Prop)
    [∀ w delivery, Decidable (condition w delivery)] (w : World ι σ ε ο)
    (deliveries : List (ι × ε)) : World ι σ ε ο :=
  (exec step condition w deliveries).getD w

section Rules

variable {step : ι → σ → ε → Option (σ × ο)} {condition : World ι σ ε ο → ι × ε → Prop}
  {initial w w' : World ι σ ε ο} {delivery : ι × ε}

theorem deliver_cases (h : w.deliver step delivery = some w') :
    ∃ s out, step delivery.1 (w.nodes delivery.1) delivery.2 = some (s, out) ∧
      w'.nodes = Function.update w.nodes delivery.1 s ∧
      w'.history = w.history ++ [(delivery.1, ⟨w.nodes delivery.1, delivery.2, out, s⟩)] := by
  obtain ⟨⟨s, out⟩, hstep, rfl⟩ := Option.map_eq_some_iff.1 h
  exact ⟨s, out, hstep, rfl, rfl⟩

theorem Reachable.cons (hmet : condition w delivery) (htaken : w.deliver step delivery = some w')
    {final : World ι σ ε ο} (h : Reachable step condition w' final) :
    Reachable step condition w final := by
  induction h with
  | start => exact deliver start hmet htaken
  | deliver _ met taken ih => exact deliver ih met taken

theorem Reachable.of_exec [∀ w delivery, Decidable (condition w delivery)]
    {deliveries : List (ι × ε)} (h : exec step condition w deliveries = some w') :
    Reachable step condition w w' := by
  induction deliveries generalizing w with
  | nil => exact Option.some.inj h ▸ start
  | cons delivery rest ih =>
    rw [exec] at h
    split at h
    case isTrue hmet =>
      obtain ⟨middle, htaken, hrest⟩ := Option.bind_eq_some_iff.1 h
      exact cons hmet htaken (ih hrest)
    case isFalse => cases h

theorem Reachable.of_isSome [∀ w delivery, Decidable (condition w delivery)]
    {deliveries : List (ι × ε)} (h : (exec step condition w deliveries).isSome = true) :
    Reachable step condition w (final step condition w deliveries) := by
  obtain ⟨w', hexec⟩ := Option.isSome_iff_exists.1 h
  have hreached : Reachable step condition w w' := of_exec hexec
  simpa only [final, hexec, Option.getD_some] using hreached

/-- A weaker condition reaches the same worlds and more. -/
theorem Reachable.mono {condition' : World ι σ ε ο → ι × ε → Prop}
    (h : Reachable step condition initial w) (hweaker : ∀ w delivery, condition w delivery → condition' w delivery) :
    Reachable step condition' initial w := by
  induction h with
  | start => exact .start
  | deliver _ met taken ih => exact .deliver ih (hweaker _ _ met) taken

/-- Where an entry of the history comes from: a reachable world whose history ends before it, and a
delivery under the condition. -/
theorem Reachable.before (h : Reachable step condition initial w) (hstart : initial.history = [])
    {before after : History ι σ ε ο} {i : ι} {t : Transition σ ε ο}
    (hsplit : w.history = before ++ (i, t) :: after) :
    ∃ w₀ : World ι σ ε ο, Reachable step condition initial w₀ ∧ w₀.history = before ∧
      w₀.nodes i = t.pre ∧ condition w₀ (i, t.event) ∧ step i t.pre t.event = some (t.post, t.out) := by
  induction h generalizing after with
  | start =>
    rw [hstart] at hsplit
    simp at hsplit
  | @deliver w w' delivery previous met taken ih =>
    obtain ⟨s, out, hs, -, hhistory⟩ := deliver_cases taken
    rw [hhistory] at hsplit
    rcases List.eq_nil_or_concat after with rfl | ⟨rest, last, rfl⟩
    · have hparts := List.append_inj' hsplit rfl
      have hlast := List.singleton_inj.1 hparts.2
      obtain ⟨rfl, rfl⟩ := Prod.mk.inj hlast
      exact ⟨w, previous, hparts.1, rfl, met, hs⟩
    · have hshift : w.history ++ [(delivery.1, ⟨w.nodes delivery.1, delivery.2, out, s⟩)] =
          (before ++ (i, t) :: rest) ++ [last] := by
        rw [hsplit]
        simp
      exact ih (List.append_inj' hshift rfl).1

/-- The transitions of one node are a run of it. -/
theorem Reachable.isRun (h : Reachable step condition initial w) (hstart : initial.history = []) (i : ι) :
    IsRun (step i) (initial.nodes i) (History.perNode some w.history i) (w.nodes i) := by
  induction h with
  | start =>
    rw [hstart]
    exact .nil
  | @deliver w w' delivery previous met taken ih =>
    obtain ⟨s, out, hs, hnodes, hhistory⟩ := deliver_cases taken
    rw [hhistory, History.perNode_append, hnodes]
    by_cases hi : delivery.1 = i
    · subst hi
      rw [if_pos rfl, Function.update_self]
      exact .snoc ih hs
    · rw [if_neg hi, List.append_nil, Function.update_of_ne (Ne.symm hi)]
      exact ih

/-- The same for a transition in the run of one node. -/
theorem Reachable.before_of_perNode (h : Reachable step condition initial w) (hstart : initial.history = [])
    {i : ι} {before after : List (Transition σ ε ο)} {t : Transition σ ε ο}
    (hsplit : History.perNode some w.history i = before ++ t :: after) :
    ∃ w₀ : World ι σ ε ο, Reachable step condition initial w₀ ∧ History.perNode some w₀.history i = before ∧
      w₀.nodes i = t.pre ∧ condition w₀ (i, t.event) := by
  obtain ⟨first, rest, hhistory, hfirst⟩ := History.split_of_perNode hsplit
  obtain ⟨w₀, hreachable, hbefore, hpre, hmet, -⟩ := h.before hstart hhistory
  exact ⟨w₀, hreachable, by rw [hbefore, hfirst], hpre, hmet⟩

/-- A property of each node's state and the history, kept when the history grows and when the node
itself takes a step, holds of every node after a delivery. -/
theorem forall_nodes_of_deliver (P : History ι σ ε ο → ι → σ → Prop)
    (hgrow : ∀ entry i s, P w.history i s → P (w.history ++ [entry]) i s)
    (hstep : ∀ s out, step delivery.1 (w.nodes delivery.1) delivery.2 = some (s, out) →
      P w.history delivery.1 (w.nodes delivery.1) →
        P (w.history ++ [(delivery.1, ⟨w.nodes delivery.1, delivery.2, out, s⟩)]) delivery.1 s)
    (htaken : w.deliver step delivery = some w') (h : ∀ i, P w.history i (w.nodes i)) :
    ∀ i, P w'.history i (w'.nodes i) := by
  obtain ⟨s, out, hs, hnodes, hhistory⟩ := deliver_cases htaken
  intro i
  rw [hnodes, hhistory]
  by_cases hi : i = delivery.1
  · subst hi
    rw [Function.update_self]
    exact hstep s out hs (h _)
  · rw [Function.update_of_ne hi]
    exact hgrow _ i _ (h i)

end Rules

end World

end BFTDiagnosis
