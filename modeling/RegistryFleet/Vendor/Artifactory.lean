import RegistryFleet.Fleet.Project
import RegistryFleet.Text.Cut
import RegistryFleet.Web.Connection

/-!
# Vendor/Artifactory — registries whose projects are folders

A project is a folder of one docker repository. Beside it stands a permission target whose users,
with the actions each may take, are the members of the project.
-/

namespace RegistryFleet.Artifactory

open Json (Typed)
open Web (Connection Exchanges Subject)

/-! ## Folders -/

/-- Something in a folder. -/
structure Child where
  uri : String
  isFolder : Bool
  deriving DecidableEq, Repr

/-- Something in a folder. -/
def readChild : Typed Child :=
  .record "a child" [("uri", false), ("folder", true)]
    ((none, none) : Option String × Option Bool)
    (fun s field =>
      match field with
      | "uri" => some (.once s.1 "uri" .text fun v => (some v, s.2))
      | "folder" => some (.once s.2 "folder" .bool fun v => (s.1, some v))
      | _ => none)
    fun s => do return ⟨← Typed.required s.1 "uri", s.2.getD false⟩

/-- What is in a folder. -/
def readFolder : Typed (List Child) :=
  .record "a folder" [("children", true)] (none : Option (List Child))
    (fun s field =>
      match field with
      | "children" => some (.once s "children" (.list readChild) some)
      | _ => none)
    fun s => .ok (s.getD [])

/-- The names of the folders in a folder. -/
def folderNames (children : List Child) : List String :=
  (children.filter Child.isFolder).map fun child =>
    String.ofList (child.uri.toList.dropWhile (· == '/'))

/-! ## Permission targets -/

/-- **A permission target.** -/
structure Permission where
  name : String
  /-- What the permissions are about. -/
  includesPattern : String
  repositories : List String
  /-- The actions that each user may take. -/
  users : Keyed (List String)
  deriving DecidableEq

namespace Permission

/-- The users among the principals. -/
def readPrincipals : Typed (Keyed (List String)) :=
  .record "principals" [("users", true)] (none : Option (Keyed (List String)))
    (fun s field =>
      match field with
      | "users" => some (.once s "users" (.map (.list .text)) some)
      | _ => none)
    fun s => .ok (s.getD .empty)

/-- What is known of a permission target while it is read. -/
structure Fields where
  name : Option String
  includesPattern : Option String
  repositories : Option (List String)
  users : Option (Keyed (List String))

/-- A permission target. -/
def read : Typed Permission :=
  .record "a permission target"
    [("name", false), ("includesPattern", true), ("repositories", true), ("principals", true)]
    (⟨none, none, none, none⟩ : Fields)
    (fun s field =>
      match field with
      | "name" => some (.once s.name "name" .text fun v => { s with name := some v })
      | "includesPattern" =>
        some (.once s.includesPattern "includesPattern" .text fun v =>
          { s with includesPattern := some v })
      | "repositories" =>
        some (.once s.repositories "repositories" (.list .text) fun v =>
          { s with repositories := some v })
      | "principals" =>
        some (.once s.users "principals" readPrincipals fun v => { s with users := some v })
      | _ => none)
    fun s => do
      return ⟨← Typed.required s.name "name", s.includesPattern.getD "", s.repositories.getD [],
        s.users.getD .empty⟩

/-- A permission target as it is put in place. -/
def data (p : Permission) : Data :=
  .record
    [("name", .text p.name), ("includesPattern", .text p.includesPattern),
      ("repositories", .texts p.repositories),
      ("principals", .record
        [("users", .record (p.users.entries.map fun (user, actions) => (user, .texts actions)))])]

end Permission

/-! ## Roles -/

/-- The roles with the actions they grant. -/
def roles : List (String × List String) :=
  [("Viewer", ["r"]), ("Developer", ["r", "w", "n"]), ("Maintainer", ["r", "w", "n", "d"]),
    ("Admin", ["m", "r", "w", "n", "d"])]

/-- The actions that a role grants. -/
def roleActions (role : String) : Except Error (List String) :=
  match roles.find? fun r => r.1 == role with
  | some (_, actions) => .ok actions
  | none => .error (.configuration ("unknown Artifactory role '" ++ role ++ "'"))

/-- Actions in increasing order. -/
def sortActions (actions : List String) : List String :=
  actions.mergeSort fun a b => decide (a ≤ b)

/-- **The role of a set of actions**; one that is not known is shown by its actions. -/
def roleOf (actions : List String) : String :=
  let sorted := sortActions actions
  ((roles.find? fun r => sortActions r.2 == sorted).map (·.1)).getD (",".intercalate sorted)

/-- Refuses members that are not users. -/
def requireUser (member : Member) : Except Error Unit :=
  if member.type = .user then .ok ()
  else .error (.recoverable ("Artifactory supports only User members, '" ++ member.name ++ "' is a "
    ++ member.type.label))

/-! ## Paths -/

/-- The docker repository of a registry. -/
def dockerRepository (c : Connection) : String :=
  (c.registry.annotations.get? Options.dockerRepositoryKey).getD "docker"

/-- Where a folder of the docker repository is. -/
def folderPath (c : Connection) (name : String) : String :=
  "/artifactory/" ++ dockerRepository c ++ "/" ++ name

/-- Where the listing of the docker repository, or of a project in it, is. -/
def storagePath (c : Connection) (project : Option String) : String :=
  "/artifactory/api/storage/" ++ dockerRepository c ++ project.elim "" ("/" ++ ·)

/-- The permission target of a project. -/
def permissionName (c : Connection) (project : String) : String :=
  dockerRepository c ++ "_" ++ project

/-- Where a permission target is. -/
def permissionPath (name : String) : String := "/artifactory/api/security/permissions/" ++ name

/-- What calls about a permission target are about. -/
def aboutPermission (name : String) : Subject := ⟨"permission target", name⟩

/-! ## Calls -/

/-- The folders of the docker repository, or of a project in it. -/
def folders (c : Connection) (project : Option String) : Exchanges (List String) := do
  let subject : Subject := ⟨"project", project.getD (dockerRepository c)⟩
  return folderNames (← c.getDocument subject (storagePath c project) [] readFolder [])

/-- The projects. -/
def projects (c : Connection) : Exchanges (List Project) := do
  return Repository.projectsOf (← folders c none)

/-- The repositories of a project. -/
def repositories (c : Connection) (project : Project) : Exchanges (List Repository) := do
  let names ← folders c (some project.name)
  return names.map fun name => ⟨project.name, project.name ++ "/" ++ name⟩

/-- Deletes a repository. -/
def deleteRepository (c : Connection) (repository : Repository) : Exchanges Unit :=
  c.delete ⟨"repository", repository.name⟩ (folderPath c repository.name)

/-- The failure for a permission target that was to be deleted and is not there. -/
def permissionMissing (name : String) : Error → Error
  | .notFound .. => .recoverable ("permission target " ++ name ++ " does not exist")
  | e => e

/-- Removes the folder of a project, then its permission target. -/
def removeProject (c : Connection) (project : Project) : Exchanges Unit := do
  let permission := permissionName c project.name
  c.delete ⟨"project", project.name⟩ (folderPath c project.name)
  (c.delete (aboutPermission permission) (permissionPath permission)).mapError
    (permissionMissing permission)

/-- The permission target of a project. -/
def permission (c : Connection) (project : String) : Exchanges Permission := do
  let name := permissionName c project
  match ← c.getDocument (aboutPermission name) (permissionPath name) [] (.optional Permission.read)
      none with
  | some p => return p
  | none => .fail (.notFound "permission target" name)

/-- Puts a permission target in place. -/
def putPermission (c : Connection) (p : Permission) : Exchanges Unit :=
  c.put (aboutPermission p.name) (permissionPath p.name) (some p.data)

/-- The permission target of a new project, without members. -/
def newPermission (c : Connection) (project : String) : Permission :=
  ⟨permissionName c project, project ++ "/**", [dockerRepository c], .empty⟩

/-- Creates the folder of a project, then its permission target. -/
def createProject (c : Connection) (name : String) : Exchanges Project := do
  c.put ⟨"project", name⟩ (folderPath c name ++ "/") none
  putPermission c (newPermission c name)
  return .named name

/-- The members of a permission target, by name. -/
def Permission.members (p : Permission) : List Member :=
  p.users.entries.map fun (user, actions) => ⟨user, .user, roleOf actions⟩

/-- The members of a project. -/
def members (c : Connection) (project : Project) : Exchanges (List Member) := do
  return (← permission c project.name).members

/-- Binds a user, in place of an earlier binding. -/
def assign (c : Connection) (project : Project) (member : Member) :
    Exchanges (Option Credentials) := do
  .ofExcept (requireUser member)
  let actions ← .ofExcept (roleActions member.role)
  let p ← permission c project.name
  putPermission c { p with users := p.users.insert member.name actions }
  return none

/-- Unbinds a user. -/
def unassign (c : Connection) (project : Project) (member : Member) : Exchanges Unit := do
  .ofExcept (requireUser member)
  let p ← permission c project.name
  if p.users.contains member.name then
    putPermission c { p with users := p.users.erase member.name }
  else .fail (.notFound "member" member.name)

end RegistryFleet.Artifactory
