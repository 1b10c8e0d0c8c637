import RegistryFleet.Fleet.Project
import RegistryFleet.Topology.Trigger

/-!
# Topology/Plan — the replication rules of a fleet

Every project is paired, on every registry that hosts it, with every other registry that hosts it;
`Rule.plan` says what rule the pair needs. The plan of the fleet is the concatenation over its
registries, in order.
-/

namespace RegistryFleet

/-- A replication rule for one project. -/
structure Rule where
  project : String
  /-- The registry the rule is configured on. -/
  here : String
  /-- The registry at the other end. -/
  there : String
  direction : Direction
  trigger : Trigger
  transport : Transport
  deriving DecidableEq, Repr

/-- **The rule that `here` needs for a project towards `there`**, if it needs one. -/
def Rule.plan (settings : TopologySettings) (here there : Registry) (project : ProjectSpec) :
    Except Error (Option Rule) := do
  match ← replication here.node there.node with
  | none => return none
  | some direction =>
    let trigger := Trigger.resolve settings direction project.trigger
    return some
      { project := project.name
        here := here.name
        there := there.name
        direction := direction
        trigger := trigger
        transport := trigger.transport here.options.replication }

/-- The registries that `here` is paired with for a project. -/
def partners (registries : List Registry) (here : Registry) (project : ProjectSpec) :
    List Registry :=
  registries.filter fun r => r.name != here.name && project.expectedOn r.name

/-- The rules of one project on one registry. -/
def planProject (settings : TopologySettings) (registries : List Registry) (here : Registry)
    (project : ProjectSpec) : Except Error (List Rule) := do
  let rules ← (partners registries here project).mapM fun there =>
    Rule.plan settings here there project
  return rules.filterMap id

/-- **The rules of one registry.** -/
def planRegistry (settings : TopologySettings) (registries : List Registry)
    (projects : List ProjectSpec) (here : Registry) : Except Error (List Rule) := do
  checkHubs registries
  let rules ← (projects.filter fun p => p.expectedOn here.name).mapM fun project =>
    planProject settings registries here project
  return rules.flatten

/-- **The rules of a fleet.** -/
def planFleet (settings : TopologySettings) (registries : List Registry)
    (projects : List ProjectSpec) : Except Error (List Rule) := do
  let rules ← registries.mapM fun here => planRegistry settings registries projects here
  return rules.flatten

end RegistryFleet
