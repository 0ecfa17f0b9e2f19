import BFTDiagnosis.Lib.Run

/-!
# Queues along a run

A queue that every step takes from at the front and puts into at the back loses nothing, invents nothing and keeps
the order.
-/

namespace BFTDiagnosis

variable {σ ε ο α : Type} {step : σ → ε → Option (σ × ο)} {initial : σ}

/-- Conservation rule: what was there first and what the steps have put in is what they have taken out and what is
there in the end, in this order. -/
theorem IsRun.conserves (queue : σ → List α) (put take : Transition σ ε ο → List α)
    {condition : Transition σ ε ο → Prop}
    (hstep : ∀ t : Transition σ ε ο, condition t → step t.pre t.event = some (t.post, t.out) →
      queue t.pre ++ put t = take t ++ queue t.post)
    {run : List (Transition σ ε ο)} {s : σ} (h : IsRun step initial run s) (hcondition : ∀ t ∈ run, condition t) :
    queue initial ++ run.flatMap put = run.flatMap take ++ queue s := by
  induction h with
  | nil => rw [List.flatMap_nil, List.flatMap_nil, List.append_nil, List.nil_append]
  | @snoc run s s' event out previous taken ih =>
    let t : Transition σ ε ο := ⟨s, event, out, s'⟩
    have hlast : queue s ++ put t = take t ++ queue s' := hstep t (hcondition t List.mem_concat_self) taken
    calc queue initial ++ (run ++ [t]).flatMap put
        = (queue initial ++ run.flatMap put) ++ put t := by
          rw [List.flatMap_append, List.flatMap_singleton, List.append_assoc]
      _ = (run.flatMap take ++ queue s) ++ put t := by
          rw [ih fun u hu ↦ hcondition u (List.mem_append_left _ hu)]
      _ = run.flatMap take ++ (take t ++ queue s') := by
          rw [List.append_assoc, hlast]
      _ = (run ++ [t]).flatMap take ++ queue s' := by
          rw [List.flatMap_append, List.flatMap_singleton, List.append_assoc]

end BFTDiagnosis
