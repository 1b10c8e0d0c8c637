import RegistryFleet.Backend.Call
import RegistryFleet.Keyed

/-!
# Backend/Memory — a backend that lives in memory

Projects with their repositories and members, a log of the changes made, and a count of the robots
created so far, from which their secrets are drawn. Capabilities can be switched off, and binding
or unbinding of chosen members can be made to fail.
-/

namespace RegistryFleet

/-- What a project in memory holds. -/
structure Holding where
  /-- Full names of its repositories. -/
  repositories : List String
  members : List Member
  deriving DecidableEq

/-- A project that holds nothing. -/
def Holding.empty : Holding := ⟨[], []⟩

/-- **A backend in memory.** -/
structure Memory where
  registry : Registry
  projects : Keyed Holding
  /-- The changes made so far, in order. -/
  log : List String
  /-- How many robots have been created. -/
  robots : Nat
  creates : Bool
  hasMembers : Bool
  /-- The members that can be neither bound nor unbound. -/
  failing : List String
  /-- How long every call takes, in milliseconds. -/
  latency : Nat
  deriving DecidableEq

namespace Memory

/-- The backend of a registry that has no projects and every capability. -/
def ofRegistry (registry : Registry) : Memory where
  registry := registry
  projects := .empty
  log := []
  robots := 0
  creates := true
  hasMembers := true
  failing := []
  latency := 0

/-- What is known of the backend without calling it. -/
def profile (m : Memory) : Profile := ⟨m.registry, m.creates, m.hasMembers⟩

/-- Adds a project; the repositories are named relative to it. -/
def addProject (m : Memory) (name : String) (repositories : List String) : Memory :=
  { m with
    projects := m.projects.insert name ⟨repositories.map fun r => name ++ "/" ++ r, []⟩ }

/-- Adds a member to a project that is there. -/
def addMember (m : Memory) (project : String) (member : Member) : Memory :=
  { m with
    projects := m.projects.modify project fun h => { h with members := h.members ++ [member] } }

/-- The backend after a change of one project, with the entry that the log gets. -/
def record (m : Memory) (projects : Keyed Holding) (entry : String) : Memory :=
  { m with projects := projects, log := m.log ++ [entry] }

/-- The failure for a project that is not there. -/
def noProject (name : String) : Error := .notFound "project" name

/-- Refuses a failing member. -/
def checkMember (m : Memory) (member : Member) : Except Error Unit :=
  if m.failing.contains member.name then
    .error (.recoverable ("backend rejected member '" ++ member.name ++ "'"))
  else .ok ()

/-- The projects present. -/
def listing (m : Memory) : List Project := m.projects.keys.map Project.named

/-- Looks a project up in the listing. -/
def find (m : Memory) (name : String) : Except Error Project :=
  match m.listing.find? fun p => p.name == name with
  | some p => .ok p
  | none => .error (noProject name)

/-- What a project holds. -/
def holding (m : Memory) (name : String) : Except Error Holding :=
  match m.projects.get? name with
  | some h => .ok h
  | none => .error (noProject name)

/-- The repositories of a project. -/
def repositories (m : Memory) (project : Project) : Except Error (List Repository) := do
  let h ← m.holding project.name
  return h.repositories.map fun r => ⟨project.name, r⟩

/-- Deletes every repository of that name. -/
def deleteRepository (m : Memory) (repository : Repository) : Except Error Memory := do
  let h ← m.holding repository.project
  if h.repositories.contains repository.name then
    return m.record
      (m.projects.insert repository.project
        { h with repositories := h.repositories.filter (· != repository.name) })
      ("delete_repository " ++ repository.name)
  else throw (.notFound "repository" repository.name)

/-- Removes a project with all it holds. -/
def removeProject (m : Memory) (project : Project) : Except Error Memory :=
  if m.projects.contains project.name then
    .ok (m.record (m.projects.erase project.name) ("remove_project " ++ project.name))
  else .error (noProject project.name)

/-- Creates an empty project. -/
def createProject (m : Memory) (name : String) : Except Error Memory :=
  if m.projects.contains name then
    .error (.recoverable ("project '" ++ name ++ "' already exists"))
  else .ok (m.record (m.projects.insert name .empty) ("create_project " ++ name))

/-- The log entry for a binding. -/
def bindingEntry (verb : String) (project : Project) (member : Member) : String :=
  verb ++ " " ++ project.name ++ " " ++ member.name ++ " " ++ member.role

/-- The credentials that a new robot gets. -/
def robotCredentials (m : Memory) (project : Project) (member : Member) : Credentials :=
  ⟨"robot$" ++ project.name ++ "+" ++ member.name, "secret-" ++ toString (m.robots + 1)⟩

/-- Binds a member; a robot gets credentials. -/
def assign (m : Memory) (project : Project) (member : Member) :
    Except Error (Option Credentials × Memory) := do
  m.checkMember member
  let h ← m.holding project.name
  let bound := m.record
    (m.projects.insert project.name { h with members := h.members ++ [member] })
    (bindingEntry "assign_member" project member)
  match member.type with
  | .robot => return (some (m.robotCredentials project member), { bound with robots := m.robots + 1 })
  | _ => return (none, bound)

/-- Unbinds the first binding of a member. -/
def unassign (m : Memory) (project : Project) (member : Member) : Except Error Memory := do
  m.checkMember member
  let h ← m.holding project.name
  if h.members.contains member then
    return m.record
      (m.projects.insert project.name { h with members := h.members.erase member })
      (bindingEntry "unassign_member" project member)
  else throw (.notFound "member" member.name)

/-- A change and its value, or the failure that leaves the backend as it is. -/
def commit {α : Type} (m : Memory) : Except Error (α × Memory) → Except Error α × Memory
  | .ok (a, m') => (.ok a, m')
  | .error e => (.error e, m)

/-- A change without value. -/
def commitUnit (m : Memory) (r : Except Error Memory) : Except Error Unit × Memory :=
  m.commit (r.map fun m' => ((), m'))

/-- **The answer to a call**, and the backend after it. -/
def serve : Calls.Server Memory
  | .listProjects, m => (.ok m.listing, m)
  | .findProject name, m => (m.find name, m)
  | .listRepositories p, m => (m.repositories p, m)
  | .deleteRepository r, m => m.commitUnit (m.deleteRepository r)
  | .removeProject p, m => m.commitUnit (m.removeProject p)
  | .createProject name, m =>
    m.commit ((m.createProject name).map fun m' => (Project.named name, m'))
  | .members p, m => ((m.holding p.name).map Holding.members, m)
  | .assign p member, m => m.commit (m.assign p member)
  | .unassign p member, m => m.commitUnit (m.unassign p member)

end Memory

end RegistryFleet
