/-!
# Reconcile/Report — what became of every action and every unit

A unit is the project set of a registry, or the members of one project on one registry. Its status
is read off the results of its actions, and the report counts units by status.
-/

namespace RegistryFleet

/-- What became of an action. -/
inductive ActionStatus
  /-- Worked out, but not performed. -/
  | planned
  | succeeded
  | failed (reason : String)
  /-- Not performed because something it needs failed or is missing. -/
  | skipped (reason : String)
  /-- The run was interrupted, or the unit ended, before it. -/
  | notStarted
  deriving DecidableEq, Repr

/-- What became of the effect that an action called for. -/
inductive EffectStatus
  /-- None was called for. -/
  | none
  | applied (detail : String)
  | failed (detail : String)
  deriving DecidableEq, Repr

/-- The result of an action. -/
structure ActionResult where
  description : String
  status : ActionStatus
  effect : EffectStatus
  deriving DecidableEq, Repr

namespace ActionResult

/-- A result without effect. -/
def plain (description : String) (status : ActionStatus) : ActionResult :=
  ⟨description, status, .none⟩

/-- Did the action or its effect fail? -/
def isFailed (r : ActionResult) : Bool :=
  match r.status, r.effect with
  | .failed _, _ | _, .failed _ => true
  | _, _ => false

/-- Was the action skipped? -/
def isSkipped (r : ActionResult) : Bool :=
  match r.status with
  | .skipped _ => true
  | _ => false

end ActionResult

/-- What became of a unit. -/
inductive UnitStatus
  | reconciled
  | failed (reason : String)
  /-- The backend lacks a capability. -/
  | skipped (reason : String)
  /-- The run was interrupted first. -/
  | notReconciled (reason : String)
  deriving DecidableEq, Repr

/-- The result of a unit. -/
structure UnitResult where
  registry : String
  /-- The project whose members the unit is about, if it is not the project set. -/
  project : Option String
  status : UnitStatus
  actions : List ActionResult
  deriving DecidableEq, Repr

namespace UnitResult

/-- The status that follows from the results: a failure comes first, then units all of whose
actions were skipped, then actions that were never started. -/
def statusOf (actions : List ActionResult) : UnitStatus :=
  let failed := actions.countP ActionResult.isFailed
  let waiting := actions.countP fun a => a.status == .notStarted
  let skipped := actions.countP ActionResult.isSkipped
  if failed > 0 then
    .failed (toString failed ++ " of " ++ toString actions.length ++ " actions failed")
  else if skipped > 0 ∧ skipped = actions.length then
    .skipped (toString skipped ++ " actions skipped")
  else if waiting > 0 then
    .notReconciled (toString waiting ++ " of " ++ toString actions.length
      ++ " actions not started")
  else .reconciled

/-- The result of a unit that performed these actions. -/
def ofActions (registry : String) (project : Option String) (actions : List ActionResult) :
    UnitResult :=
  ⟨registry, project, statusOf actions, actions⟩

/-- The label that units are listed by. -/
def label (u : UnitResult) : String :=
  match u.project with
  | some project => u.registry ++ "/" ++ project
  | none => u.registry

/-- Units in the order of their labels; equal labels keep their order. -/
def sortByLabel (units : List UnitResult) : List UnitResult :=
  units.mergeSort fun a b => decide (a.label ≤ b.label)

end UnitResult

/-- **The report of a run** — the project sets first, then the members. -/
structure Report where
  dry : Bool
  units : List UnitResult
  deriving DecidableEq, Repr

namespace Report

/-- How many units were reconciled. -/
def succeeded (r : Report) : Nat :=
  r.units.countP fun u => u.status == .reconciled

/-- How many units failed. -/
def failed (r : Report) : Nat :=
  r.units.countP fun u => match u.status with | .failed _ => true | _ => false

/-- How many units were skipped. -/
def skipped (r : Report) : Nat :=
  r.units.countP fun u => match u.status with | .skipped _ => true | _ => false

/-- How many units were cut off by an interruption. -/
def notReconciled (r : Report) : Nat :=
  r.units.countP fun u => match u.status with | .notReconciled _ => true | _ => false

/-- The results of all actions, in order. -/
def actions (r : Report) : List ActionResult := r.units.flatMap UnitResult.actions

/-- How many actions or effects failed. -/
def failedActions (r : Report) : Nat := r.actions.countP ActionResult.isFailed

/-- Did no unit fail or stay unreconciled? -/
def fullySuccessful (r : Report) : Bool :=
  r.failed == 0 && r.notReconciled == 0

end Report

end RegistryFleet
