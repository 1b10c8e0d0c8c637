import RegistryFleet.Reconcile.Loop
import RegistryFleet.Reconcile.Work

/-!
# Reconcile/Unit — the two kinds of units

A unit observes, compares and acts. The unit of a registry is about the set of its projects, the
unit of a project on a registry about its members.
-/

namespace RegistryFleet

/-- The loop over the actions of a unit on a backend. -/
def Work.actions (p : Profile) (dry : Bool) (actions : List Action) : Work (List ActionResult) :=
  runActions Work.interrupted (fun a => Work.acting (a.perform p)) Work.settling dry
    Progress.start actions

/-- The projects expected on a registry, in order. -/
def expectedOn (registry : String) (projects : List ProjectSpec) : List ProjectSpec :=
  projects.filter fun spec => spec.expectedOn registry

/-- A result without actions. -/
def UnitResult.plain (registry : String) (project : Option String) (status : UnitStatus) :
    UnitResult :=
  ⟨registry, project, status, []⟩

/-- **The unit of a registry**: its projects become the expected ones. -/
def projectUnit (p : Profile) (projects : List ProjectSpec) (dry : Bool) : Work UnitResult := do
  let registry := p.registry.name
  match ← Work.interrupted with
  | some i => return .plain registry none (.notReconciled i.reason)
  | none =>
    match ← Work.observing (Calls.one .listProjects) with
    | .error i => return .plain registry none (.notReconciled i.reason)
    | .ok (.error e) => return .plain registry none (.failed e.message)
    | .ok (.ok observed) =>
      let steps := Action.projectSteps (observed.map Project.name)
        ((expectedOn registry projects).map ProjectSpec.name)
      return .ofActions registry none (← Work.actions p dry steps)

/-- The calls that observe the members of a project. -/
def observeMembers (name : String) : Calls (Except Error (List Member)) :=
  (Calls.one (.findProject name)).andThen fun project => .one (.members project)

/-- The actions on the members of a project, from what was observed. -/
def memberActions (p : Profile) (spec : ProjectSpec) (dry : Bool) (observed : List Member) :
    Work UnitResult := do
  let steps := Action.memberSteps spec.name observed spec.members
  return .ofActions p.registry.name (some spec.name) (← Work.actions p dry steps)

/-- **The unit of a project on a registry**: its members become the expected ones. A project that
is not there has nothing to reconcile; where nothing is performed it may be one that is yet to be
created. -/
def memberUnit (p : Profile) (spec : ProjectSpec) (dry : Bool) : Work UnitResult := do
  let registry := p.registry.name
  let project := some spec.name
  match ← Work.interrupted with
  | some i => return .plain registry project (.notReconciled i.reason)
  | none =>
    if !p.hasMembers then
      return .plain registry project (.skipped (p.registry.vendor.label ++ " has no member model"))
    else
      match ← Work.observing (observeMembers spec.name) with
      | .error i => return .plain registry project (.notReconciled i.reason)
      | .ok (.ok observed) => memberActions p spec dry observed
      | .ok (.error (.notFound entity name)) =>
        if dry then memberActions p spec dry []
        else return .plain registry project (.skipped (Error.notFound entity name).message)
      | .ok (.error e) => return .plain registry project (.failed e.message)

end RegistryFleet
