import RegistryFleet.Reconcile.Action
import RegistryFleet.Reconcile.Interruption
import RegistryFleet.Reconcile.Report

/-!
# Reconcile/Loop — the actions of a unit, one after the other

A failed action does not keep the following ones from being tried, with three exceptions. A failure
that no later run can mend ends the unit; so does an interruption. And a member is not bound while
an earlier binding of the same name could not be undone, so that no name is ever bound twice.
-/

namespace RegistryFleet

/-- What the loop remembers of the actions before. -/
structure Progress where
  /-- Has the unit been ended? -/
  halted : Bool
  /-- The members whose unbinding failed. -/
  stuck : List String
  deriving DecidableEq, Repr

namespace Progress

/-- Before the first action. -/
def start : Progress := ⟨false, []⟩

/-- Does the action bind a member whose unbinding failed? -/
def blocks (s : Progress) (a : Action) : Bool := a.bound?.any s.stuck.contains

end Progress

/-- What became of an effect. -/
def EffectStatus.ofOutcome (e : Effect) : Except Error Unit → EffectStatus
  | .ok () => if e.isNone then .none else .applied e.text
  | .error err => .failed err.message

/-- The result of an action whose effect has been carried out, or has failed to be. -/
def effectOutcome (s : Progress) (a : Action) (e : Effect) (settled : Except Error Unit) :
    ActionResult × Progress :=
  let fatal := match settled with
    | .ok () => false
    | .error err => err.isFatal
  (⟨a.description, .succeeded, .ofOutcome e settled⟩, { s with halted := s.halted || fatal })

/-- The result of an action that failed; a missing capability is no failure. -/
def failureOutcome (s : Progress) (a : Action) (err : Error) : ActionResult × Progress :=
  if err.isCapabilityGap then (.plain a.description (.skipped err.message), s)
  else
    (.plain a.description (.failed err.message),
      ⟨s.halted || err.isFatal, a.unbound?.toList ++ s.stuck⟩)

section

variable {m : Type → Type} [Monad m]

/-- **One action**, given how to ask for interruptions, perform and carry out effects. -/
def runAction (interrupted : m (Option Interruption)) (perform : Action → m (Except Error Effect))
    (settle : Effect → m (Except Error Unit)) (dry : Bool) (s : Progress) (a : Action) :
    m (ActionResult × Progress) := do
  if s.halted then return (.plain a.description .notStarted, s)
  else
    match ← interrupted with
    | some _ => return (.plain a.description .notStarted, { s with halted := true })
    | none =>
      if dry then return (.plain a.description .planned, s)
      else if s.blocks a then
        return (.plain a.description (.skipped "removing the previous binding failed"), s)
      else
        match ← perform a with
        | .ok e => return effectOutcome s a e (← settle e)
        | .error err => return failureOutcome s a err

/-- **The actions in order**, after what is remembered. -/
def runActions (interrupted : m (Option Interruption)) (perform : Action → m (Except Error Effect))
    (settle : Effect → m (Except Error Unit)) (dry : Bool) :
    Progress → List Action → m (List ActionResult)
  | _, [] => pure []
  | s, a :: rest => do
    let (r, s) ← runAction interrupted perform settle dry s a
    let rs ← runActions interrupted perform settle dry s rest
    return r :: rs

end

end RegistryFleet
