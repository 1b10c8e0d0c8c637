import RegistryFleet.Reconcile.Report
import Mathlib.Data.List.Count

/-!
# Proofs/Reconcile/Report — what the statuses of a report say

* `UnitResult.statusOf_of_open` — an action that failed or was never started leaves its unit open.
* `Report.fullySuccessful_iff` — a report is fully successful just if no unit is open.
-/

namespace RegistryFleet

/-- **Was something left undone?** The action or its effect failed, or the action was never
started. -/
def ActionResult.Open (r : ActionResult) : Prop := r.isFailed = true ∨ r.status = .notStarted

/-- **Was something left undone?** Some action failed, or the unit was cut off. -/
def UnitStatus.Open (s : UnitStatus) : Prop :=
  (∃ reason, s = .failed reason) ∨ ∃ reason, s = .notReconciled reason

instance : DecidablePred UnitStatus.Open
  | .failed reason => isTrue (.inl ⟨reason, rfl⟩)
  | .notReconciled reason => isTrue (.inr ⟨reason, rfl⟩)
  | .reconciled | .skipped _ => isFalse fun h => by rcases h with ⟨_, h⟩ | ⟨_, h⟩ <;> cases h

theorem ActionResult.isSkipped_of_notStarted {r : ActionResult} (h : r.status = .notStarted) :
    r.isSkipped = false := by
  rw [isSkipped, h]

namespace UnitResult

/-- **An open action leaves its unit open.** -/
theorem statusOf_of_open {actions : List ActionResult} {r : ActionResult} (hr : r ∈ actions)
    (h : r.Open) : (statusOf actions).Open := by
  unfold statusOf
  by_cases hfailed : 0 < actions.countP ActionResult.isFailed
  · exact .inl ⟨_, if_pos hfailed⟩
  have hwaiting : r.status = .notStarted :=
    h.resolve_left fun hf => hfailed (List.countP_pos_iff.2 ⟨r, hr, hf⟩)
  have hskipped : actions.countP ActionResult.isSkipped ≠ actions.length := fun hall => by
    have := List.countP_eq_length.1 hall r hr
    rw [ActionResult.isSkipped_of_notStarted hwaiting] at this
    cases this
  have hcount : 0 < actions.countP fun a => a.status == .notStarted :=
    List.countP_pos_iff.2 ⟨r, hr, by simp [hwaiting]⟩
  simp only [gt_iff_lt, if_neg hfailed, if_neg fun hall => hskipped (And.right hall), if_pos hcount]
  exact .inr ⟨_, rfl⟩

theorem mem_sortByLabel {units : List UnitResult} {u : UnitResult} :
    u ∈ sortByLabel units ↔ u ∈ units :=
  (List.mergeSort_perm units _).mem_iff

end UnitResult

/-- **A report is fully successful just if no unit is open.** -/
theorem Report.fullySuccessful_iff {r : Report} :
    r.fullySuccessful = true ↔ ∀ u ∈ r.units, ¬ u.status.Open := by
  simp only [fullySuccessful, failed, notReconciled, Bool.and_eq_true, beq_iff_eq,
    List.countP_eq_zero, ← forall_and]
  refine forall₂_congr fun u _ => ?_
  cases hu : u.status <;> simp [UnitStatus.Open]

end RegistryFleet
