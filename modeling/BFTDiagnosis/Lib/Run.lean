import Mathlib.Data.List.Basic

/-!
# Runs of a partial step function

A component is a step function that takes a state and an event and either aborts or returns the
next state with an output. A run is the list of the transitions taken, oldest first, so that a
property of a run can compare any two of its transitions without auxiliary state. `exec` computes
the run of a list of events; `IsRun` is the relation that proofs do induction on.
-/

namespace BFTDiagnosis

/-- One executed step, with the state before and after it. -/
structure Transition (σ ε ο : Type) where
  pre : σ
  event : ε
  out : ο
  post : σ

variable {σ ε ο : Type}

/-- What is read off a record that has grown by one entry. -/
theorem filterMap_concat {α β : Type} (read : α → Option β) (record : List α) (entry : α) :
    (record ++ [entry]).filterMap read = record.filterMap read ++ (read entry).toList := by
  rw [List.filterMap_append]
  cases hread : read entry <;> simp [hread]

/-- A record split at one of its entries. -/
theorem eq_take_append_cons_drop {α : Type} (record : List α) (n : ℕ) (h : n < record.length) :
    record = record.take n ++ record[n] :: record.drop (n + 1) := by
  rw [← List.drop_eq_getElem_cons h, List.take_append_drop]

/-- A property of every entry of a record and the record before it, checked entry by entry. -/
theorem forall_split_of_forall {α : Type} {record : List α} {P : List α → α → Prop}
    (h : ∀ i : Fin record.length, P (record.take i) (record.get i)) :
    ∀ before entry after, record = before ++ entry :: after → P before entry := by
  intro before entry after hsplit
  subst hsplit
  have hat := h ⟨before.length, by simp⟩
  simpa using hat

/-- Such a property of a record holds of what the record begins with. -/
theorem forall_split_of_append {α : Type} {record first rest : List α} {P : List α → α → Prop}
    (h : ∀ before entry after, record = before ++ entry :: after → P before entry)
    (hsplit : record = first ++ rest) :
    ∀ before entry after, first = before ++ entry :: after → P before entry := by
  intro before entry after hfirst
  apply h before entry (after ++ rest)
  rw [hsplit, hfirst, List.append_assoc, List.cons_append]

/-- Execute a list of events, recording every transition. -/
def exec (step : σ → ε → Option (σ × ο)) : σ → List ε → Option (List (Transition σ ε ο) × σ)
  | s, [] => some ([], s)
  | s, event :: events => do
    let (s', out) ← step s event
    let (run, final) ← exec step s' events
    return (⟨s, event, out, s'⟩ :: run, final)

/-- The transitions of an execution, none when it aborts. -/
def transitions (step : σ → ε → Option (σ × ο)) (s : σ) (events : List ε) : List (Transition σ ε ο) :=
  ((exec step s events).map Prod.fst).getD []

/-- The state an execution ends in, the initial one when it aborts. -/
def final (step : σ → ε → Option (σ × ο)) (s : σ) (events : List ε) : σ :=
  ((exec step s events).map Prod.snd).getD s

/-- The state that a list of events leads to, none when the execution aborts. -/
def stateAfter (step : σ → ε → Option (σ × ο)) : σ → List ε → Option σ
  | s, [] => some s
  | s, event :: events => (step s event).bind fun result ↦ stateAfter step result.1 events

theorem stateAfter_cons {step : σ → ε → Option (σ × ο)} {s s' : σ} {event : ε}
    (h : (step s event).map Prod.fst = some s') (events : List ε) :
    stateAfter step s (event :: events) = stateAfter step s' events := by
  obtain ⟨result, htaken, rfl⟩ := Option.map_eq_some_iff.1 h
  rw [stateAfter, htaken, Option.bind_some]

/-- Events that leave the state as it is. -/
theorem stateAfter_eq_self {step : σ → ε → Option (σ × ο)} {s : σ} {events : List ε}
    (h : ∀ event ∈ events, ∃ out, step s event = some (s, out)) : stateAfter step s events = some s := by
  induction events with
  | nil => rfl
  | cons event events ih =>
    obtain ⟨⟨out, htaken⟩, hrest⟩ := List.forall_mem_cons.1 h
    rw [stateAfter, htaken, Option.bind_some, ih hrest]

/-- What a list of events begins with can be executed if the list can. -/
theorem exists_stateAfter_of_append {step : σ → ε → Option (σ × ο)} {s s' : σ} {first rest : List ε}
    (h : stateAfter step s (first ++ rest) = some s') : ∃ mid, stateAfter step s first = some mid ∧
      stateAfter step mid rest = some s' := by
  induction first generalizing s with
  | nil => exact ⟨s, rfl, h⟩
  | cons event first ih =>
    obtain ⟨⟨next, out⟩, htaken, hrest⟩ := Option.bind_eq_some_iff.1 h
    obtain ⟨mid, hfirst, hlast⟩ := ih hrest
    exact ⟨mid, Option.bind_eq_some_iff.2 ⟨(next, out), htaken, hfirst⟩, hlast⟩

/-- A property that every step preserves holds of the state after the events. -/
theorem stateAfter_induction {step : σ → ε → Option (σ × ο)} {P : σ → Prop}
    (hstep : ∀ s event s' out, P s → step s event = some (s', out) → P s') {s s' : σ} {events : List ε} (hs : P s)
    (h : stateAfter step s events = some s') : P s' := by
  induction events generalizing s with
  | nil => exact Option.some.inj h ▸ hs
  | cons event events ih =>
    obtain ⟨⟨next, out⟩, htaken, hrest⟩ := Option.bind_eq_some_iff.1 h
    exact ih (hstep s event next out hs htaken) hrest

theorem exec_eq_of_isSome {step : σ → ε → Option (σ × ο)} {s : σ} {events : List ε}
    (h : (exec step s events).isSome = true) :
    exec step s events = some (transitions step s events, final step s events) := by
  obtain ⟨⟨run, s'⟩, hexec⟩ := Option.isSome_iff_exists.1 h
  simp only [transitions, final, hexec, Option.map_some, Option.getD_some]

/-- The transitions of `run` lead from the initial state to the given one. -/
inductive IsRun (step : σ → ε → Option (σ × ο)) (initial : σ) :
    List (Transition σ ε ο) → σ → Prop
  | nil : IsRun step initial [] initial
  | snoc {run : List (Transition σ ε ο)} {s s' : σ} {event : ε} {out : ο}
      (previous : IsRun step initial run s) (taken : step s event = some (s', out)) :
      IsRun step initial (run ++ [⟨s, event, out, s'⟩]) s'

namespace IsRun

variable {step : σ → ε → Option (σ × ο)} {initial : σ}

theorem cons {run : List (Transition σ ε ο)} {s s' final : σ} {event : ε} {out : ο}
    (taken : step s event = some (s', out)) (rest : IsRun step s' run final) :
    IsRun step s (⟨s, event, out, s'⟩ :: run) final := by
  induction rest with
  | nil => exact snoc nil taken
  | snoc previous taken' ih => exact snoc ih taken'

theorem of_exec {events : List ε} {run : List (Transition σ ε ο)} {s final : σ}
    (h : exec step s events = some (run, final)) : IsRun step s run final := by
  induction events generalizing s run with
  | nil =>
    obtain ⟨rfl, rfl⟩ := Prod.mk.inj (Option.some.inj h)
    exact nil
  | cons event events ih =>
    simp only [exec, bind, pure, Option.bind_eq_some_iff, Option.some.injEq, Prod.mk.injEq,
      Prod.exists] at h
    obtain ⟨s', out, htaken, run', final', hrest, rfl, rfl⟩ := h
    exact cons htaken (ih hrest)

theorem of_isSome {events : List ε} (h : (exec step initial events).isSome = true) :
    IsRun step initial (transitions step initial events) (final step initial events) :=
  of_exec (exec_eq_of_isSome h)

/-- Every transition of a run was taken by the step function. -/
theorem taken {run : List (Transition σ ε ο)} {s : σ} (h : IsRun step initial run s) :
    ∀ t ∈ run, step t.pre t.event = some (t.post, t.out) := by
  induction h with
  | nil => exact List.forall_mem_nil _
  | snoc previous taken ih => exact List.forall_mem_append.2 ⟨ih, List.forall_mem_singleton.2 taken⟩

/-- A run up to one of its transitions is a run. -/
theorem before {run before after : List (Transition σ ε ο)} {s : σ} {t : Transition σ ε ο}
    (h : IsRun step initial run s) (hsplit : run = before ++ t :: after) :
    IsRun step initial before t.pre ∧ step t.pre t.event = some (t.post, t.out) := by
  induction h generalizing after with
  | nil => simp at hsplit
  | @snoc run s s' event out previous taken ih =>
    rcases List.eq_nil_or_concat after with rfl | ⟨rest, last, rfl⟩
    · have hparts := List.append_inj' hsplit rfl
      have hlast := List.singleton_inj.1 hparts.2
      rw [← hparts.1, ← hlast]
      exact ⟨previous, taken⟩
    · have hshift : run ++ [⟨s, event, out, s'⟩] = (before ++ t :: rest) ++ [last] := by
        rw [hsplit]
        simp
      exact ih (List.append_inj' hshift rfl).1

/-- What a run begins with is a run. -/
theorem exists_of_append {run first rest : List (Transition σ ε ο)} {s : σ} (h : IsRun step initial run s)
    (hsplit : run = first ++ rest) : ∃ s', IsRun step initial first s' := by
  cases rest with
  | nil => exact ⟨s, by rwa [hsplit, List.append_nil] at h⟩
  | cons t rest => exact ⟨t.pre, (h.before hsplit).1⟩

/-- A run from one of its transitions on is a run, from the state the transition leads to. -/
theorem after {run before after : List (Transition σ ε ο)} {s : σ} {t : Transition σ ε ο}
    (h : IsRun step initial run s) (hsplit : run = before ++ t :: after) :
    IsRun step t.post after s := by
  induction h generalizing after with
  | nil => simp at hsplit
  | @snoc run s s' event out previous taken ih =>
    rcases List.eq_nil_or_concat after with rfl | ⟨rest, last, rfl⟩
    · have hlast := List.singleton_inj.1 (List.append_inj' hsplit rfl).2
      rw [← hlast]
      exact nil
    · have hshift : run ++ [⟨s, event, out, s'⟩] = (before ++ t :: rest) ++ [last] := by
        rw [hsplit]
        simp
      have hparts := List.append_inj' hshift rfl
      have hlast := List.singleton_inj.1 hparts.2
      rw [List.concat_eq_append, ← hlast]
      exact snoc (ih hparts.1) taken

/-- What a run ends with is a run, from some state. -/
theorem exists_from_append {run first rest : List (Transition σ ε ο)} {s : σ} (h : IsRun step initial run s)
    (hsplit : run = first ++ rest) : ∃ s', IsRun step s' rest s := by
  rcases List.eq_nil_or_concat first with rfl | ⟨before, t, rfl⟩
  · exact ⟨initial, by rwa [hsplit, List.nil_append] at h⟩
  · have hmiddle : run = before ++ t :: rest := by
      rw [hsplit, List.concat_eq_append, List.append_assoc, List.singleton_append]
    exact ⟨t.post, h.after hmiddle⟩

/-- The last transition of a run leads to its final state. -/
theorem post_of_concat {run : List (Transition σ ε ο)} {s : σ} {t : Transition σ ε ο}
    (h : IsRun step initial (run ++ [t]) s) : t.post = s := by
  generalize hnil : ([] : List (Transition σ ε ο)) = rest at h
  have hafter : IsRun step t.post rest s := h.after (by rw [← hnil])
  cases hafter with
  | nil => rfl
  | snoc => simp at hnil

/-- Rule for properties of the run so far: they hold of the empty run and each step that meets
the side condition preserves them. -/
theorem induction_of_forall {motive : List (Transition σ ε ο) → σ → Prop}
    {condition : Transition σ ε ο → Prop} (hinitial : motive [] initial)
    (hstep : ∀ run s event out s', motive run s → condition ⟨s, event, out, s'⟩ →
      step s event = some (s', out) → motive (run ++ [⟨s, event, out, s'⟩]) s')
    {run : List (Transition σ ε ο)} {s : σ} (h : IsRun step initial run s)
    (hcondition : ∀ t ∈ run, condition t) : motive run s := by
  induction h with
  | nil => exact hinitial
  | snoc previous taken ih =>
    obtain ⟨hearlier, hlast⟩ := List.forall_mem_append.1 hcondition
    exact hstep _ _ _ _ _ (ih hearlier) (List.forall_mem_singleton.1 hlast) taken

/-- The same rule when the side condition of a step is about the run before it. -/
theorem induction_of_split {motive : List (Transition σ ε ο) → σ → Prop}
    {condition : List (Transition σ ε ο) → Transition σ ε ο → Prop} (hinitial : motive [] initial)
    (hstep : ∀ run s event out s', motive run s → condition run ⟨s, event, out, s'⟩ →
      step s event = some (s', out) → motive (run ++ [⟨s, event, out, s'⟩]) s')
    {run : List (Transition σ ε ο)} {s : σ} (h : IsRun step initial run s)
    (hcondition : ∀ before t after, run = before ++ t :: after → condition before t) : motive run s := by
  induction h with
  | nil => exact hinitial
  | @snoc run s s' event out previous taken ih =>
    have hearlier := ih fun before t after hsplit ↦ hcondition before t (after ++ [⟨s, event, out, s'⟩])
      (by rw [hsplit, List.append_assoc, List.cons_append])
    exact hstep _ _ _ _ _ hearlier (hcondition run _ [] rfl) taken

/-- Invariant rule: an invariant of the initial state that every step under the side condition
preserves holds in the final state. -/
theorem invariant_of_forall (invariant : σ → Prop) {condition : Transition σ ε ο → Prop}
    (hinitial : invariant initial)
    (hstep : ∀ t : Transition σ ε ο, invariant t.pre → condition t →
      step t.pre t.event = some (t.post, t.out) → invariant t.post)
    {run : List (Transition σ ε ο)} {s : σ} (h : IsRun step initial run s)
    (hcondition : ∀ t ∈ run, condition t) : invariant s :=
  induction_of_forall (motive := fun _ s ↦ invariant s) hinitial
    (fun _ s event out s' hinv hcond taken ↦ hstep ⟨s, event, out, s'⟩ hinv hcond taken) h hcondition

/-- Such an invariant also holds before every transition of the run. -/
theorem invariant_pre_of_forall (invariant : σ → Prop) {condition : Transition σ ε ο → Prop}
    (hinitial : invariant initial)
    (hstep : ∀ t : Transition σ ε ο, invariant t.pre → condition t →
      step t.pre t.event = some (t.post, t.out) → invariant t.post)
    {run : List (Transition σ ε ο)} {s : σ} (h : IsRun step initial run s)
    (hcondition : ∀ t ∈ run, condition t) : ∀ t ∈ run, invariant t.pre := by
  induction h with
  | nil => exact List.forall_mem_nil _
  | snoc previous taken ih =>
    have hearlier := (List.forall_mem_append.1 hcondition).1
    apply List.forall_mem_append.2 ⟨ih hearlier, List.forall_mem_singleton.2 ?_⟩
    exact invariant_of_forall invariant hinitial hstep previous hearlier

/-- A reflexive and transitive relation between the states before and after every step leads from the initial
state to every later one. -/
theorem related_of_forall (R : σ → σ → Prop) (hrefl : ∀ s, R s s) (htrans : ∀ s t u, R s t → R t u → R s u)
    {run : List (Transition σ ε ο)} {s : σ} (h : IsRun step initial run s)
    (hstep : ∀ t ∈ run, R t.pre t.post) : R initial s ∧ ∀ t ∈ run, R initial t.post := by
  induction h with
  | nil => exact ⟨hrefl _, List.forall_mem_nil _⟩
  | snoc previous taken ih =>
    obtain ⟨hearlier, hlast⟩ := List.forall_mem_append.1 hstep
    obtain ⟨hbefore, hposts⟩ := ih hearlier
    have hnow := htrans _ _ _ hbefore (hlast _ (List.mem_singleton_self _))
    exact ⟨hnow, List.forall_mem_append.2 ⟨hposts, List.forall_mem_singleton.2 hnow⟩⟩

/-- Two runs whose events agree up to what a step may read of them: a relation of the states that every
pair of such steps under the side condition preserves holds at the end, and the runs are observed alike. -/
theorem related_of_map_eq {κ ω : Type} (Rel : σ → σ → Prop) (read : ε → κ) (observe : ο → ω)
    (condition : κ → Prop)
    (hstep : ∀ s s' event event' out out' t t', Rel s s' → condition (read event) →
      read event = read event' → step s event = some (t, out) → step s' event' = some (t', out') →
        Rel t t' ∧ observe out = observe out')
    {initial' : σ} {run run' : List (Transition σ ε ο)} {s s' : σ} (hrel : Rel initial initial')
    (h : IsRun step initial run s) (h' : IsRun step initial' run' s')
    (hcondition : ∀ t ∈ run, condition (read t.event))
    (hsame : run.map (read ·.event) = run'.map (read ·.event)) :
    Rel s s' ∧ run.map (observe ·.out) = run'.map (observe ·.out) := by
  induction h generalizing run' s' with
  | nil =>
    cases h' with
    | nil => exact ⟨hrel, rfl⟩
    | snoc => simp at hsame
  | snoc previous taken ih =>
    cases h' with
    | nil => simp at hsame
    | snoc previous' taken' =>
      simp only [List.map_append, List.map_cons, List.map_nil] at hsame ⊢
      obtain ⟨hbefore, hlast⟩ := List.append_inj' hsame rfl
      obtain ⟨hearlier, hnow⟩ := List.forall_mem_append.1 hcondition
      obtain ⟨hrel, hobserve⟩ := ih previous' hearlier hbefore
      obtain ⟨hrel', hout⟩ := hstep _ _ _ _ _ _ _ _ hrel
        (hnow _ (List.mem_singleton_self _)) (List.singleton_inj.1 hlast) taken taken'
      exact ⟨hrel', by rw [hobserve, hout]⟩

end IsRun

/-! ## The run since a certain transition -/

/-- The transitions after the last one of a kind. -/
def sinceLast (kind : Transition σ ε ο → Bool) (run : List (Transition σ ε ο)) : List (Transition σ ε ο) :=
  run.foldl (fun window t ↦ if kind t then [] else window ++ [t]) []

theorem sinceLast_concat (kind : Transition σ ε ο → Bool) (run : List (Transition σ ε ο))
    (t : Transition σ ε ο) :
    sinceLast kind (run ++ [t]) = if kind t then [] else sinceLast kind run ++ [t] := by
  rw [sinceLast, List.foldl_append]
  rfl

theorem sinceLast_never (run : List (Transition σ ε ο)) : sinceLast (fun _ ↦ false) run = run := by
  have hwindow (window : List (Transition σ ε ο)) :
      run.foldl (fun window t ↦ if false then [] else window ++ [t]) window = window ++ run := by
    induction run generalizing window with
    | nil => exact (List.append_nil window).symm
    | cons t run ih =>
      rw [List.foldl_cons, if_neg Bool.false_ne_true, ih, List.append_assoc, List.singleton_append]
  exact hwindow []

/-- What every step adds to a set, unless it clears the set: the set holds what was added since it was cleared. -/
theorem IsRun.holds_iff {α : Type} {step : σ → ε → Option (σ × ο)} {initial : σ} (holds : σ → α → Prop)
    (adds : Transition σ ε ο → α → Prop) (clears : Transition σ ε ο → Bool) (hinitial : ∀ a, ¬ holds initial a)
    (hstep : ∀ t : Transition σ ε ο, step t.pre t.event = some (t.post, t.out) →
      ∀ a, holds t.post a ↔ clears t = false ∧ (adds t a ∨ holds t.pre a))
    {run : List (Transition σ ε ο)} {s : σ} (h : IsRun step initial run s) (a : α) :
    holds s a ↔ ∃ t ∈ sinceLast clears run, adds t a := by
  induction h with
  | nil => exact iff_of_false (hinitial a) fun ⟨_, hmem, _⟩ ↦ absurd hmem List.not_mem_nil
  | @snoc run s s' event out previous taken ih =>
    rw [hstep ⟨s, event, out, s'⟩ taken a, sinceLast_concat]
    cases hclears : clears ⟨s, event, out, s'⟩ with
    | true => simp
    | false =>
      simp only [true_and, Bool.false_eq_true, if_false, List.mem_append, List.mem_singleton, or_and_right,
        exists_or, exists_eq_left, ih]
      exact or_comm

/-- A set that is never cleared holds what was added along the run. -/
theorem IsRun.holds_iff_exists {α : Type} {step : σ → ε → Option (σ × ο)} {initial : σ} (holds : σ → α → Prop)
    (adds : Transition σ ε ο → α → Prop) (hinitial : ∀ a, ¬ holds initial a)
    (hstep : ∀ t : Transition σ ε ο, step t.pre t.event = some (t.post, t.out) →
      ∀ a, holds t.post a ↔ adds t a ∨ holds t.pre a)
    {run : List (Transition σ ε ο)} {s : σ} (h : IsRun step initial run s) (a : α) :
    holds s a ↔ ∃ t ∈ run, adds t a := by
  have hiff := h.holds_iff holds adds (fun _ ↦ false) hinitial
    (fun t htaken a ↦ (hstep t htaken a).trans (and_iff_right rfl).symm) a
  rwa [sinceLast_never] at hiff

/-! ## Removing events from a run -/

section Removal

variable {step : σ → ε → Option (σ × ο)}

theorem exec_cons_eq_some {event : ε} {events : List ε} {run : List (Transition σ ε ο)} {s final : σ}
    (h : exec step s (event :: events) = some (run, final)) :
    ∃ s' out rest, step s event = some (s', out) ∧ exec step s' events = some (rest, final) ∧
      run = ⟨s, event, out, s'⟩ :: rest := by
  simp only [exec, bind, pure, Option.bind_eq_some_iff, Option.some.injEq, Prod.mk.injEq,
    Prod.exists] at h
  obtain ⟨s', out, htaken, rest, final', hrest, rfl, rfl⟩ := h
  exact ⟨s', out, rest, htaken, hrest, rfl⟩

/-- An execution takes its events one by one. -/
theorem map_event_of_exec {events : List ε} {run : List (Transition σ ε ο)} {s final : σ}
    (h : exec step s events = some (run, final)) : run.map Transition.event = events := by
  induction events generalizing s run with
  | nil =>
    obtain ⟨rfl, -⟩ := Prod.mk.inj (Option.some.inj h)
    rfl
  | cons event events ih =>
    obtain ⟨s', out, rest, -, hrest, rfl⟩ := exec_cons_eq_some h
    rw [List.map_cons, ih hrest]

/-- Removal rule: when a relation of states lets the events of one kind be answered alike from
related states, and the other events do not leave the relation, then the answers to the first kind
are the same when the other events are removed. -/
theorem exec_filter_of_simulation {ω : Type} (Rel : σ → σ → Prop) (mine : ε → Bool) (observe : ο → ω)
    {condition : Transition σ ε ο → Prop}
    (hmine : ∀ s t event s' out, Rel s t → mine event = true → condition ⟨s, event, out, s'⟩ →
      step s event = some (s', out) →
        ∃ t' out', step t event = some (t', out') ∧ observe out' = observe out ∧ Rel s' t')
    (hother : ∀ s t event s' out, Rel s t → mine event = false → condition ⟨s, event, out, s'⟩ →
      step s event = some (s', out) → Rel s' t)
    {events : List ε} {run : List (Transition σ ε ο)} {s s' t : σ} (hrel : Rel s t)
    (hexec : exec step s events = some (run, s')) (hcondition : ∀ t ∈ run, condition t) :
    ∃ alone t', exec step t (events.filter mine) = some (alone, t') ∧
      alone.map (observe ·.out) = (run.filter (mine ·.event)).map (observe ·.out) := by
  induction events generalizing s t run with
  | nil =>
    obtain ⟨rfl, -⟩ := Prod.mk.inj (Option.some.inj hexec)
    exact ⟨[], t, rfl, rfl⟩
  | cons event events ih =>
    obtain ⟨s₁, out, rest, htaken, hrest, rfl⟩ := exec_cons_eq_some hexec
    have hfirst := hcondition _ List.mem_cons_self
    have hlater : ∀ t ∈ rest, condition t := fun t ht ↦ hcondition t (List.mem_cons_of_mem _ ht)
    cases hkind : mine event with
    | true =>
      obtain ⟨t₁, out', htaken', hobserve, hrel₁⟩ := hmine s t event s₁ out hrel hkind hfirst htaken
      obtain ⟨alone, t', halone, hsame⟩ := ih hrel₁ hrest hlater
      refine ⟨⟨t, event, out', t₁⟩ :: alone, t', ?_, ?_⟩
      · rw [List.filter_cons_of_pos hkind]
        simp only [exec, htaken', halone, bind, pure, Option.bind_some]
      · simp only [List.filter_cons, hkind, if_true, List.map_cons, hsame, hobserve]
    | false =>
      simp only [List.filter_cons, hkind, Bool.false_eq_true, if_false]
      exact ih (hother s t event s₁ out hrel hkind hfirst htaken) hrest hlater

end Removal

end BFTDiagnosis
