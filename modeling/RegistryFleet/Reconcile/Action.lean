import RegistryFleet.Backend.Deletion
import RegistryFleet.Credential.Key
import RegistryFleet.Reconcile.Diff

/-!
# Reconcile/Action — one step towards the expected, and how it is performed

An action creates or deletes a project, or binds or unbinds a member of one. Performing it is a tree
of calls that ends in the effect the action calls for; a failed call ends the action.
-/

namespace RegistryFleet

/-- **One step of a unit.** -/
inductive Action
  | createProject (name : String)
  | deleteProject (name : String)
  | bind (project : String) (member : Member)
  | unbind (project : String) (member : Member)
  deriving DecidableEq, Repr

namespace Action

/-- What the action does, in words. -/
def description : Action → String
  | createProject name => "creating project " ++ name
  | deleteProject name => "deleting project " ++ name
  | bind project member => "adding member " ++ member.text ++ " to " ++ project
  | unbind project member => "removing member " ++ member.text ++ " from " ++ project

/-- The project that the action is about. -/
def project : Action → String
  | createProject name | deleteProject name => name
  | bind project _ | unbind project _ => project

/-- The member that the action binds. -/
def bound? : Action → Option String
  | bind _ member => some member.name
  | _ => none

/-- The member that the action unbinds. -/
def unbound? : Action → Option String
  | unbind _ member => some member.name
  | _ => none

/-- The step of a change of the project set. -/
def ofProjectChange : Change String → Action
  | .remove name => deleteProject name
  | .add name => createProject name

/-- The step of a change of a project's members. -/
def ofMemberChange (project : String) : Change Member → Action
  | .remove member => unbind project member
  | .add member => bind project member

/-- The steps from the observed projects to the expected ones. -/
def projectSteps (observed expected : List String) : List Action :=
  (diff observed expected).map ofProjectChange

/-- The steps from the observed members of a project to the expected ones. -/
def memberSteps (project : String) (observed expected : List Member) : List Action :=
  (diff observed expected).map (ofMemberChange project)

/-- Looks up the project that a member action is about; one that is gone may be back in a later
run. -/
def lookUp (p : Profile) (name : String) : Calls (Except Error Project) :=
  (Calls.one (.findProject name)).bind fun
    | .error (.notFound ..) =>
      .done (.error (.recoverable ("project '" ++ name ++ "' not found on "
        ++ p.registry.name ++ ", reconcile again")))
    | answer => .done answer

/-- The effect of a binding: generated credentials are to be stored. -/
def bindingEffect (p : Profile) (project : Project) (member : Member) :
    Option Credentials → Effect
  | some credentials =>
    .persist ⟨p.registry.name, project.name, member.name⟩ p.registry.endpoint credentials
  | none => .none

/-- The effect of an unbinding: a robot's credentials are to be removed. -/
def unbindingEffect (p : Profile) (project : Project) (member : Member) : Effect :=
  if member.type = .robot then .remove ⟨p.registry.name, project.name, member.name⟩ else .none

/-- **The calls of an action**, which end in the effect it calls for. A project that is already
gone counts as deleted. -/
def perform (p : Profile) : Action → Calls (Except Error Effect)
  | createProject name => (p.create name).andThen fun _ => .done (.ok .none)
  | deleteProject name =>
    (Calls.one (.findProject name)).bind fun
      | .ok project => (p.delete project).andThen fun _ => .done (.ok .none)
      | .error (.notFound ..) => .done (.ok .none)
      | .error e => .done (.error e)
  | bind name member =>
    p.withMembers <| (lookUp p name).andThen fun project =>
      (Calls.one (.assign project member)).andThen fun generated =>
        .done (.ok (bindingEffect p project member generated))
  | unbind name member =>
    p.withMembers <| (lookUp p name).andThen fun project =>
      (Calls.one (.unassign project member)).andThen fun _ =>
        .done (.ok (unbindingEffect p project member))

end Action

end RegistryFleet
