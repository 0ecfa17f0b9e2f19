import Mathlib.Algebra.Order.Group.Multiset

/-!
# Timers that store a permit

A task waits for a notification; timers, once started, notify it at any later time, in any order, and cannot
be stopped. Notifications are not counted: as long as the task has not taken the first one there is one
permit, whatever the number of timers that have fired. Each timer carries a label, which says what it was
started for, and the permit the labels of the timers it stands for.
-/

namespace BFTDiagnosis

/-- The timers that have not fired yet, and those behind the stored permit. -/
structure Notify (τ : Type) where
  pending : List τ
  permit : List τ

namespace Notify

variable {τ : Type}

def new : Notify τ := ⟨[], []⟩

def start (notify : Notify τ) (label : τ) : Notify τ := { notify with pending := notify.pending ++ [label] }

def notifyOne (notify : Notify τ) (label : τ) : Notify τ := { notify with permit := notify.permit ++ [label] }

/-- A timer fires; nothing happens when there is no such timer. -/
def fire (notify : Notify τ) (i : ℕ) : Notify τ :=
  match notify.pending[i]? with
  | some label => ⟨notify.pending.eraseIdx i, notify.permit ++ [label]⟩
  | none => notify

/-- The waiting task takes the permit. -/
def notified (notify : Notify τ) : Notify τ := { notify with permit := [] }

/-- Whether the waiting task may go on. -/
def ready (notify : Notify τ) : Bool := !notify.permit.isEmpty

theorem ready_iff {notify : Notify τ} : notify.ready = true ↔ notify.permit ≠ [] := by
  simp [ready]

/-- The timers whose notification has not been taken. -/
def outstanding (notify : Notify τ) : Multiset τ := (notify.pending : Multiset τ) + notify.permit

@[simp] theorem outstanding_new : (new : Notify τ).outstanding = 0 := rfl

@[simp] theorem outstanding_start (notify : Notify τ) (label : τ) :
    (notify.start label).outstanding = label ::ₘ notify.outstanding := by
  rw [outstanding, start, ← Multiset.coe_add, add_assoc, add_left_comm]
  rfl

@[simp] theorem outstanding_notifyOne (notify : Notify τ) (label : τ) :
    (notify.notifyOne label).outstanding = label ::ₘ notify.outstanding := by
  rw [outstanding, notifyOne, ← Multiset.coe_add, ← add_assoc, add_comm]
  rfl

/-- A timer that fires is still outstanding. -/
@[simp] theorem outstanding_fire (notify : Notify τ) (i : ℕ) :
    (notify.fire i).outstanding = notify.outstanding := by
  unfold fire
  cases hget : notify.pending[i]? with
  | none => rfl
  | some label =>
    obtain ⟨hlt, rfl⟩ := List.getElem?_eq_some_iff.1 hget
    have hpending : notify.pending[i] ::ₘ (notify.pending.eraseIdx i : Multiset τ) = notify.pending :=
      Multiset.coe_eq_coe.2 (List.getElem_cons_eraseIdx_perm hlt)
    have hpermit : ((notify.permit ++ [notify.pending[i]] : List τ) : Multiset τ) =
        notify.pending[i] ::ₘ (notify.permit : Multiset τ) := by
      rw [← Multiset.coe_add, Multiset.coe_singleton, Multiset.add_comm, Multiset.singleton_add]
    rw [outstanding, outstanding, ← hpending, hpermit, Multiset.add_cons, Multiset.cons_add]

theorem outstanding_eq_zero_iff {notify : Notify τ} :
    notify.outstanding = 0 ↔ notify.pending = [] ∧ notify.permit = [] := by
  rw [outstanding, Multiset.coe_add, Multiset.coe_eq_zero, List.append_eq_nil_iff]

theorem ready_eq_false_of_outstanding {notify : Notify τ} (h : notify.outstanding = 0) :
    notify.ready = false := by
  rw [ready, (outstanding_eq_zero_iff.1 h).2]
  rfl

theorem mem_outstanding_of_mem_permit {notify : Notify τ} {label : τ} (h : label ∈ notify.permit) :
    label ∈ notify.outstanding :=
  Multiset.mem_add.2 (.inr (Multiset.mem_coe.2 h))

theorem outstanding_notified (notify : Notify τ) : notify.notified.outstanding = notify.pending :=
  add_zero _

/-- When only one timer is outstanding and has fired, taking its permit leaves nothing. -/
theorem outstanding_notified_of_singleton {notify : Notify τ} {label : τ}
    (h : notify.outstanding = {label}) (hready : notify.ready = true) : notify.notified.outstanding = 0 := by
  have hcard : notify.pending.length + notify.permit.length = 1 := by
    simpa [outstanding] using congrArg Multiset.card h
  have hpermit : notify.permit.length ≠ 0 := fun hzero ↦ ready_iff.1 hready (List.length_eq_zero_iff.1 hzero)
  have hpending : notify.pending = [] := List.length_eq_zero_iff.1 (by omega)
  rw [outstanding_notified, hpending, Multiset.coe_nil]

end Notify

end BFTDiagnosis
