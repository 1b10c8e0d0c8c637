import RegistryFleet.Proofs.Reconcile.Report
import RegistryFleet.Text.Cut
import Mathlib.Data.String.Basic

/-!
# Proofs/Reconcile/Status — what the status of a unit says of its actions

The status of a unit is read off three counts, and a failure comes before anything else. Where
nothing failed, it depends on whether all actions were skipped, and then on whether one was never
started. What is left is reconciled: units whose actions were done, among which others may have been
skipped.

* `UnitResult.StatusFits` — the four kinds of lists of results, with the status of each.
* `UnitResult.statusFits` — the status of a unit is that of its kind.
* `UnitResult.status_exact` — what the status of a unit tells of its actions.
* `UnitResult.reconciled_undone` — a unit is reconciled although an action was not performed.
-/

namespace RegistryFleet

/-! ## Actions -/

namespace ActionResult

/-- **Something failed**: the action, or the effect that it called for. -/
def Fails (r : ActionResult) : Prop :=
  (∃ reason, r.status = .failed reason) ∨ ∃ detail, r.effect = .failed detail

/-- **Nothing is left undone**: the action succeeded or was planned, and no effect failed. -/
def Fulfilled (r : ActionResult) : Prop :=
  (r.status = .succeeded ∨ r.status = .planned) ∧ ∀ detail, r.effect ≠ .failed detail

/-- **The action was skipped**, and no effect failed. -/
def Skipped (r : ActionResult) : Prop :=
  (∃ reason, r.status = .skipped reason) ∧ ∀ detail, r.effect ≠ .failed detail

/-- **The action was never started**, and no effect failed. -/
def Waiting (r : ActionResult) : Prop :=
  r.status = .notStarted ∧ ∀ detail, r.effect ≠ .failed detail

variable {r : ActionResult}

theorem isFailed_iff : r.isFailed = true ↔ r.Fails := by
  rcases r with ⟨description, status, effect⟩
  cases status <;> cases effect <;> simp [isFailed, Fails]

instance : DecidablePred Fails := fun _ => decidable_of_iff _ isFailed_iff

/-- What did not fail was done, skipped or never started. -/
theorem not_fails_iff : ¬ r.Fails ↔ r.Fulfilled ∨ r.Skipped ∨ r.Waiting := by
  rcases r with ⟨description, status, effect⟩
  cases status <;> cases effect <;> simp [Fails, Fulfilled, Skipped, Waiting]

theorem not_fails_of_done (h : r.Fulfilled ∨ r.Skipped) : ¬ r.Fails :=
  not_fails_iff.2 (h.imp_right .inl)

theorem isSkipped_iff (h : ¬ r.Fails) : r.isSkipped = true ↔ r.Skipped := by
  rcases r with ⟨description, status, effect⟩
  cases status <;> cases effect <;> simp_all [Fails, Skipped, isSkipped]

theorem waiting_iff (h : ¬ r.Fails) : r.status = .notStarted ↔ r.Waiting :=
  ⟨fun hstatus => ⟨hstatus, fun detail he => h (.inr ⟨detail, he⟩)⟩, And.left⟩

theorem Fulfilled.not_skipped (h : r.Fulfilled) : ¬ r.Skipped := by
  rintro ⟨⟨reason, hskipped⟩, -⟩
  rcases h.1 with hdone | hdone <;> rw [hdone] at hskipped <;> cases hskipped

theorem Waiting.not_done (h : r.Waiting) : ¬ (r.Fulfilled ∨ r.Skipped) := by
  rintro (⟨hdone | hdone, -⟩ | ⟨⟨reason, hdone⟩, -⟩) <;> rw [h.1] at hdone <;> cases hdone

end ActionResult

/-! ## Numbers in words -/

/-- No blank stands in a number. -/
theorem Text.blank_not_mem_toString (n : Nat) : ' ' ∉ (toString n).toList := fun h => by
  rw [Nat.toString_eq_repr, Nat.toList_repr] at h
  exact absurd (Nat.isDigit_of_mem_toDigits (by decide) (by decide) h) (by decide)

/-- A number can be read off its digits. -/
theorem Text.toString_inj {n m : Nat} (h : (toString n).toList = (toString m).toList) : n = m := by
  simp only [Nat.toString_eq_repr, Nat.toList_repr] at h
  simpa using congrArg (fun digits => Nat.ofDigitChars 10 digits 0) h

namespace UnitResult

/-- **How many actions of a unit failed**, in words. -/
def failureCount (failed total : Nat) : String :=
  toString failed ++ " of " ++ toString total ++ " actions failed"

/-- **Both numbers can be read off the words.** -/
theorem failureCount_inj {failed total failed' total' : Nat} :
    failureCount failed total = failureCount failed' total' ↔ failed = failed' ∧ total = total' := by
  have hcut : ∀ failed total, Text.cutAt? ' ' (failureCount failed total).toList
      = some ((toString failed).toList, "of ".toList ++ ((toString total).toList
        ++ " actions failed".toList)) := fun failed total => by
    simp only [failureCount, String.toList_append, List.append_assoc]
    exact Text.cutAt?_append _ (Text.blank_not_mem_toString failed)
  constructor
  · intro h
    have hhalves := hcut failed total
    rw [h, hcut, Option.some.injEq, Prod.mk.injEq] at hhalves
    obtain ⟨hfailed, hrest⟩ := hhalves
    have htotal := List.append_cancel_right (List.append_cancel_left hrest)
    exact ⟨(Text.toString_inj hfailed).symm, (Text.toString_inj htotal).symm⟩
  · rintro ⟨rfl, rfl⟩
    rfl

/-! ## Units -/

open ActionResult (isFailed_iff isSkipped_iff not_fails_iff not_fails_of_done waiting_iff)

variable {actions : List ActionResult} {status : UnitStatus}

/-- How many actions failed, or had an effect that failed. -/
def failures (actions : List ActionResult) : Nat := actions.countP fun a => a.Fails

theorem failures_pos_iff : 0 < failures actions ↔ ∃ a ∈ actions, a.Fails := by
  simp [failures, List.countP_pos_iff]

theorem countP_isFailed (actions : List ActionResult) :
    actions.countP ActionResult.isFailed = failures actions := by
  refine List.countP_congr fun a _ => ?_
  rw [isFailed_iff, decide_eq_true_iff]

/-- How many actions were never started. -/
def waiting (actions : List ActionResult) : Nat := actions.countP fun a => a.status == .notStarted

/-- **The kinds of lists of results**, with the status that a unit of the kind has. -/
inductive StatusFits (actions : List ActionResult) : UnitStatus → Prop
  | failed (h : ∃ a ∈ actions, a.Fails) :
    StatusFits actions (.failed (failureCount (failures actions) actions.length))
  | skipped (hsome : actions ≠ []) (h : ∀ a ∈ actions, a.Skipped) :
    StatusFits actions (.skipped (toString actions.length ++ " actions skipped"))
  | notReconciled (hnone : ∀ a ∈ actions, ¬ a.Fails) (h : ∃ a ∈ actions, a.Waiting) :
    StatusFits actions (.notReconciled (toString (waiting actions) ++ " of "
      ++ toString actions.length ++ " actions not started"))
  | reconciled (h : ∀ a ∈ actions, a.Fulfilled ∨ a.Skipped)
    (hdone : actions = [] ∨ ∃ a ∈ actions, a.Fulfilled) : StatusFits actions .reconciled

/-- **The status of a unit fits the results of its actions.** -/
theorem statusFits (actions : List ActionResult) : StatusFits actions (statusOf actions) := by
  have hstatus : statusOf actions
      = if 0 < failures actions then .failed (failureCount (failures actions) actions.length)
        else if 0 < actions.countP ActionResult.isSkipped
            ∧ actions.countP ActionResult.isSkipped = actions.length then
          .skipped (toString (actions.countP ActionResult.isSkipped) ++ " actions skipped")
        else if 0 < waiting actions then
          .notReconciled (toString (waiting actions) ++ " of " ++ toString actions.length
            ++ " actions not started")
        else .reconciled := by
    rw [statusOf, countP_isFailed]
    rfl
  rw [hstatus]
  by_cases hfails : ∃ a ∈ actions, a.Fails
  · rw [if_pos (failures_pos_iff.2 hfails)]
    exact .failed hfails
  have hnone : ∀ a ∈ actions, ¬ a.Fails := fun a ha h => hfails ⟨a, ha, h⟩
  rw [if_neg (mt failures_pos_iff.1 hfails)]
  split
  · next hall =>
    rw [hall.2]
    refine .skipped (fun hnil => ?_) fun a ha => ?_
    · rw [hnil] at hall
      exact absurd hall.1 (by decide)
    · exact (isSkipped_iff (hnone a ha)).1 (List.countP_eq_length.1 hall.2 a ha)
  next hall =>
  split
  · next hwaiting =>
    obtain ⟨a, ha, hstarted⟩ := List.countP_pos_iff.1 hwaiting
    exact .notReconciled hnone ⟨a, ha, (waiting_iff (hnone a ha)).1 (beq_iff_eq.1 hstarted)⟩
  next hwaiting =>
  have hstarted : ∀ a ∈ actions, ¬ a.Waiting := fun a ha h =>
    hwaiting (List.countP_pos_iff.2 ⟨a, ha, beq_iff_eq.2 h.1⟩)
  have hdone : ∀ a ∈ actions, a.Fulfilled ∨ a.Skipped := fun a ha => by
    rcases not_fails_iff.1 (hnone a ha) with h | h | h
    · exact .inl h
    · exact .inr h
    · exact absurd h (hstarted a ha)
  refine .reconciled hdone ?_
  by_contra hundone
  rw [not_or] at hundone
  have hskipped : actions.countP ActionResult.isSkipped = actions.length :=
    List.countP_eq_length.2 fun a ha => (isSkipped_iff (hnone a ha)).2 <|
      (hdone a ha).resolve_left fun h => hundone.2 ⟨a, ha, h⟩
  exact hall ⟨hskipped ▸ List.length_pos_iff.2 hundone.1, hskipped⟩

namespace StatusFits

/-- **A unit is reconciled** where every action was done or skipped, and not all were skipped. -/
theorem reconciled_iff (h : StatusFits actions status) : status = .reconciled
    ↔ (∀ a ∈ actions, a.Fulfilled ∨ a.Skipped) ∧ (actions = [] ∨ ∃ a ∈ actions, a.Fulfilled) := by
  cases h with
  | failed h =>
    obtain ⟨a, ha, hfails⟩ := h
    exact iff_of_false nofun fun hdone => not_fails_of_done (hdone.1 a ha) hfails
  | skipped hsome h =>
    refine iff_of_false nofun ?_
    rintro ⟨-, hnil | ⟨a, ha, hfulfilled⟩⟩
    · exact hsome hnil
    · exact hfulfilled.not_skipped (h a ha)
  | notReconciled hnone h =>
    obtain ⟨a, ha, hwaiting⟩ := h
    exact iff_of_false nofun fun hdone => hwaiting.not_done (hdone.1 a ha)
  | reconciled h hdone => exact iff_of_true rfl ⟨h, hdone⟩

/-- **A unit failed** where an action or its effect failed. -/
theorem failed_iff (h : StatusFits actions status) :
    (∃ reason, status = .failed reason) ↔ ∃ a ∈ actions, a.Fails := by
  cases h with
  | failed h => exact iff_of_true ⟨_, rfl⟩ h
  | skipped hsome h =>
    exact iff_of_false nofun fun ⟨a, ha, hfails⟩ => not_fails_of_done (.inr (h a ha)) hfails
  | notReconciled hnone h =>
    exact iff_of_false nofun fun ⟨a, ha, hfails⟩ => hnone a ha hfails
  | reconciled h hdone =>
    exact iff_of_false nofun fun ⟨a, ha, hfails⟩ => not_fails_of_done (h a ha) hfails

theorem eq_failed (h : StatusFits actions status) (hfails : ∃ a ∈ actions, a.Fails) :
    status = .failed (failureCount (failures actions) actions.length) := by
  obtain ⟨reason, rfl⟩ := h.failed_iff.2 hfails
  cases h
  rfl

/-- **The words of a failure are exact.** -/
theorem failureCount_iff (h : StatusFits actions status) (failed total : Nat) :
    status = .failed (failureCount failed total)
      ↔ 0 < failed ∧ failed = failures actions ∧ total = actions.length := by
  constructor
  · intro hstatus
    have hfails := h.failed_iff.1 ⟨_, hstatus⟩
    rw [h.eq_failed hfails, UnitStatus.failed.injEq, failureCount_inj] at hstatus
    obtain ⟨rfl, rfl⟩ := hstatus
    exact ⟨failures_pos_iff.2 hfails, rfl, rfl⟩
  · rintro ⟨hpos, rfl, rfl⟩
    exact h.eq_failed (failures_pos_iff.1 hpos)

end StatusFits

/-- **What the status of a unit tells of its actions.** It is reconciled just if every action was
done or skipped, and at least one was done where there are any; so a reconciled unit has nothing
left undone but what was skipped. It failed just if an action or an effect failed, and then says how
many did. -/
theorem status_exact (registry : String) (project : Option String) (actions : List ActionResult) :
    ∃ status, (ofActions registry project actions).status = status
      ∧ (status = .reconciled ↔ (∀ a ∈ actions, a.Fulfilled ∨ a.Skipped)
        ∧ (actions = [] ∨ ∃ a ∈ actions, a.Fulfilled))
      ∧ ((∀ a ∈ actions, a.Fulfilled) ↔ status = .reconciled ∧ ∀ a ∈ actions, ¬ a.Skipped)
      ∧ ((∃ reason, status = .failed reason) ↔ ∃ a ∈ actions, a.Fails)
      ∧ ∀ failed total, status = .failed (failureCount failed total)
        ↔ 0 < failed ∧ failed = failures actions ∧ total = actions.length := by
  have hfits := statusFits actions
  refine ⟨_, rfl, hfits.reconciled_iff, ?_, hfits.failed_iff, hfits.failureCount_iff⟩
  constructor
  · intro hall
    refine ⟨hfits.reconciled_iff.2 ⟨fun a ha => .inl (hall a ha), ?_⟩,
      fun a ha => (hall a ha).not_skipped⟩
    refine or_iff_not_imp_left.2 fun hsome => ?_
    obtain ⟨a, ha⟩ := List.exists_mem_of_ne_nil actions hsome
    exact ⟨a, ha, hall a ha⟩
  · rintro ⟨hreconciled, hnone⟩ a ha
    exact ((hfits.reconciled_iff.1 hreconciled).1 a ha).resolve_right (hnone a ha)

/-- A project was deleted, and another one could not be created. -/
def unevenActions : List ActionResult :=
  [.plain "deleting project legacy" .succeeded,
    .plain "creating project new"
      (.skipped "project creation is not implemented by the harbor provider")]

/-- **A unit is reconciled although an action was not performed.** -/
theorem reconciled_undone :
    ¬ ((ofActions "edge" none unevenActions).status = .reconciled
      ↔ ∀ a ∈ unevenActions, a.Fulfilled) := by
  intro h
  have hlast : .plain "creating project new"
      (.skipped "project creation is not implemented by the harbor provider") ∈ unevenActions :=
    List.mem_cons_of_mem _ List.mem_cons_self
  exact (h.1 (by decide +kernel) _ hlast).not_skipped ⟨⟨_, rfl⟩, nofun⟩

end UnitResult

end RegistryFleet
