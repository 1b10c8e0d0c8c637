import RegistryFleet.Fleet.Project
import RegistryFleet.Topology.Edge

/-!
# Fleet/Snapshot — the declared fleet

A snapshot lists the registries of a fleet and the projects expected on them. It is well formed if
names are there, unambiguous and known where they are referred to; the first problem in document
order is the one reported.
-/

namespace RegistryFleet

/-- **A declared fleet.** -/
structure Snapshot where
  registries : List RegistrySpec
  projects : List ProjectSpec
  deriving DecidableEq

namespace Snapshot

/-- Checks the names of registries, given those that came before. -/
def checkRegistries : (seen : List String) → List RegistrySpec → Except Error Unit
  | _, [] => .ok ()
  | seen, r :: rest =>
    if r.name = "" then .error (.configuration "registry name must not be empty")
    else if seen.contains r.name then
      .error (.configuration ("duplicate registry name '" ++ r.name ++ "'"))
    else checkRegistries (r.name :: seen) rest

/-- The first registry that a listed project refers to and that is not declared. -/
def unknownRegistry? (declared : List String) (p : ProjectSpec) : Option String :=
  match p.scope with
  | .everywhere => none
  | .listed => p.registries.find? fun r => !declared.contains r

/-- Checks the projects, given the declared registries and the projects that came before. -/
def checkProjects (declared : List String) : (seen : List String) → List ProjectSpec →
    Except Error Unit
  | _, [] => .ok ()
  | seen, p :: rest =>
    if p.name = "" ∨ p.name.toList.contains '/' then
      .error (.configuration ("invalid project name '" ++ p.name ++ "'"))
    else if seen.contains p.name then
      .error (.configuration ("duplicate project name '" ++ p.name ++ "'"))
    else
      match unknownRegistry? declared p with
      | some r =>
        .error (.configuration
          ("project '" ++ p.name ++ "' references unknown registry '" ++ r ++ "'"))
      | none => checkProjects declared (p.name :: seen) rest

/-- **The check of a snapshot.** -/
def check (s : Snapshot) : Except Error Unit := do
  checkRegistries [] s.registries
  checkProjects (s.registries.map RegistrySpec.name) [] s.projects

/-- The registries of the snapshot under the defaults, if at most one is the hub. -/
def fleet (s : Snapshot) (defaults : Defaults) : Except Error (List Registry) := do
  let registries := s.registries.map (Registry.ofSpec defaults)
  checkHubs registries
  return registries

/-- The projects expected on a registry. -/
def projectsOn (s : Snapshot) (registry : String) : List ProjectSpec :=
  s.projects.filter fun p => p.expectedOn registry

end Snapshot

end RegistryFleet
