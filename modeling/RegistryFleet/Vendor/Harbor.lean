import RegistryFleet.Fleet.Project
import RegistryFleet.Text.Cut
import RegistryFleet.Web.Connection

/-!
# Vendor/Harbor — registries with projects, members and robots of their own

Users and groups are members of a project by an entry with a numbered role. A robot is an account of
the project whose role follows from what it may do with the repositories; its secret is generated
when it is created.
-/

namespace RegistryFleet.Harbor

open Json (Typed)
open Web (Connection Exchanges Subject)

/-! ## What the interface speaks of -/

/-- A project. -/
structure ProjectItem where
  id : Nat
  name : String
  deriving DecidableEq, Repr

/-- An entry for a user or a group. -/
structure MemberItem where
  id : Nat
  name : String
  /-- What kind of account it is, in a letter. -/
  type : String
  role : Nat
  deriving DecidableEq, Repr

/-- One thing that a robot may do. -/
structure Access where
  resource : String
  action : String
  deriving DecidableEq, Repr

/-- A robot. -/
structure RobotItem where
  id : Nat
  name : String
  access : List Access
  deriving DecidableEq, Repr

/-- What is known of a robot that was just created. -/
structure NewRobot where
  name : String
  secret : String
  deriving DecidableEq, Repr

/-- A number of 64 bits. -/
def readId : Typed Nat := fun n =>
  (Typed.int 0 (Nat.pow 2 64 - 1 : Nat) "a number of 64 bits" n).map Int.toNat

/-- A number of 32 bits. -/
def readRoleId : Typed Nat := fun n =>
  (Typed.int 0 (Nat.pow 2 32 - 1 : Nat) "a number of 32 bits" n).map Int.toNat

/-- A project. -/
def readProject : Typed ProjectItem :=
  .record "a project" [("project_id", false), ("name", false)]
    ((none, none) : Option Nat × Option String)
    (fun s field =>
      match field with
      | "project_id" => some (.once s.1 "project_id" readId fun v => (some v, s.2))
      | "name" => some (.once s.2 "name" .text fun v => (s.1, some v))
      | _ => none)
    fun s => do return ⟨← Typed.required s.1 "project_id", ← Typed.required s.2 "name"⟩

/-- A repository, of which only the name is told. -/
def readRepository : Typed String :=
  .record "a repository" [("name", false)] (none : Option String)
    (fun s field =>
      match field with
      | "name" => some (.once s "name" .text some)
      | _ => none)
    fun s => Typed.required s "name"

/-- What is known of an entry while it is read. -/
structure MemberFields where
  id : Option Nat
  name : Option String
  type : Option String
  role : Option Nat

/-- An entry for a user or a group. -/
def readMember : Typed MemberItem :=
  .record "a member"
    [("id", false), ("entity_name", false), ("entity_type", false), ("role_id", false)]
    (⟨none, none, none, none⟩ : MemberFields)
    (fun s field =>
      match field with
      | "id" => some (.once s.id "id" readId fun v => { s with id := some v })
      | "entity_name" => some (.once s.name "entity_name" .text fun v => { s with name := some v })
      | "entity_type" => some (.once s.type "entity_type" .text fun v => { s with type := some v })
      | "role_id" => some (.once s.role "role_id" readRoleId fun v => { s with role := some v })
      | _ => none)
    fun s => do
      return ⟨← Typed.required s.id "id", ← Typed.required s.name "entity_name",
        ← Typed.required s.type "entity_type", ← Typed.required s.role "role_id"⟩

/-- One thing that a robot may do. -/
def readAccess : Typed Access :=
  .record "an access" [("resource", false), ("action", false)]
    ((none, none) : Option String × Option String)
    (fun s field =>
      match field with
      | "resource" => some (.once s.1 "resource" .text fun v => (some v, s.2))
      | "action" => some (.once s.2 "action" .text fun v => (s.1, some v))
      | _ => none)
    fun s => do return ⟨← Typed.required s.1 "resource", ← Typed.required s.2 "action"⟩

/-- What is known of a robot while it is read. -/
structure RobotFields where
  id : Option Nat
  name : Option String
  access : Option (List Access)

/-- A robot. -/
def readRobot : Typed RobotItem :=
  .record "a robot" [("id", false), ("name", false), ("access", true)]
    (⟨none, none, none⟩ : RobotFields)
    (fun s field =>
      match field with
      | "id" => some (.once s.id "id" readId fun v => { s with id := some v })
      | "name" => some (.once s.name "name" .text fun v => { s with name := some v })
      | "access" =>
        some (.once s.access "access" (.list readAccess) fun v => { s with access := some v })
      | _ => none)
    fun s => do
      return ⟨← Typed.required s.id "id", ← Typed.required s.name "name", s.access.getD []⟩

/-- A robot that was just created; its secret goes by two names. -/
def readNewRobot : Typed NewRobot :=
  .record "a new robot" [("name", true), ("secret", true)]
    ((none, none) : Option String × Option String)
    (fun s field =>
      match field with
      | "name" => some (.once s.1 "name" .text fun v => (some v, s.2))
      | "secret" | "token" => some (.once s.2 "secret" .text fun v => (s.1, some v))
      | _ => none)
    fun s => .ok ⟨s.1.getD "", s.2.getD ""⟩

/-! ## Roles -/

/-- The roles of users and groups with their numbers. -/
def roles : List (String × Nat) :=
  [("ProjectAdmin", 1), ("Developer", 2), ("Guest", 3), ("Maintainer", 4), ("LimitedGuest", 5)]

/-- The number of a role. -/
def roleId (role : String) : Except Error Nat :=
  match roles.find? fun r => r.1 == role with
  | some (_, id) => .ok id
  | none => .error (.configuration ("unknown Harbor project role '" ++ role ++ "'"))

/-- The role of a number; one that is not known is shown by its number. -/
def roleName (id : Nat) : String :=
  ((roles.find? fun r => r.2 == id).map (·.1)).getD ("role-" ++ toString id)

/-- What a robot may do in a role. -/
def robotActions (role : String) : Except Error (List String) :=
  match role with
  | "PullOnly" => .ok ["pull"]
  | "PushOnly" => .ok ["push"]
  | "PullAndPush" => .ok ["pull", "push"]
  | other => .error (.configuration ("unknown Harbor robot role '" ++ other ++ "'"))

/-- The role of a robot by what it may do. -/
def robotRole (access : List Access) : String :=
  let may (action : String) : Bool := access.any fun a => a.action == action
  match may "pull", may "push" with
  | true, true => "PullAndPush"
  | false, true => "PushOnly"
  | _, _ => "PullOnly"

/-- What stands in front of a robot's name. -/
def robotMark : String := "robot$"

/-- The member that a robot of a project is: its name without its marks. -/
def robotMemberName (name project : String) : String :=
  let name := (Text.stripMark? robotMark name).getD name
  ((Text.stripMark? project name).bind fun rest => Text.stripMark? "+" rest).getD name

/-! ## Paths -/

/-- Where the projects are. -/
def projectsPath : String := "/api/v2.0/projects"

/-- Where a project is. -/
def projectPath (name : String) : String := projectsPath ++ "/" ++ name

/-- Where the repositories of a project are. -/
def repositoriesPath (project : String) : String := projectPath project ++ "/repositories"

/-- Where the members of a project are. -/
def membersPath (project : String) : String := projectPath project ++ "/members"

/-- Where the robots of a project are. -/
def robotsPath (project : String) : String := projectPath project ++ "/robots"

/-- Where a repository is; slashes inside its name are escaped twice. -/
def repositoryPath (repository : Repository) : String :=
  let short := (Text.stripMark? (repository.project ++ "/") repository.name).getD repository.name
  let escaped := Text.replaceChar '/' "%252F".toList short.toList
  repositoriesPath repository.project ++ "/" ++ String.ofList escaped

/-! ## Calls -/

/-- What calls about a project are about. -/
def aboutProject (name : String) : Subject := ⟨"project", name⟩

/-- A project with its number. -/
def ProjectItem.project (p : ProjectItem) : Project := ⟨p.name, some (toString p.id)⟩

/-- The projects. -/
def projects (c : Connection) : Exchanges (List Project) := do
  let items ← c.listing ⟨"registry", c.registry.name⟩ projectsPath readProject
  return items.map ProjectItem.project

/-- A project by its name. -/
def project (c : Connection) (name : String) : Exchanges Project := do
  match ← c.getDocument (aboutProject name) (projectPath name) [] (.optional readProject) none with
  | some item => return item.project
  | none => .fail (.notFound "project" name)

/-- The repositories of a project. -/
def repositories (c : Connection) (project : Project) : Exchanges (List Repository) := do
  let names ← c.listing (aboutProject project.name) (repositoriesPath project.name) readRepository
  return names.map fun name => ⟨project.name, name⟩

/-- Deletes a repository. -/
def deleteRepository (c : Connection) (repository : Repository) : Exchanges Unit :=
  c.delete ⟨"repository", repository.name⟩ (repositoryPath repository)

/-- Removes a project. -/
def removeProject (c : Connection) (project : Project) : Exchanges Unit :=
  c.delete (aboutProject project.name) (projectPath project.name)

/-- Creates a project that is not public. -/
def createProject (c : Connection) (name : String) : Exchanges Project := do
  c.post (aboutProject name) projectsPath
    (.record [("metadata", .record [("public", .text "false")]), ("project_name", .text name)])
  project c name

/-- The entries for users and groups. -/
def memberItems (c : Connection) (project : Project) : Exchanges (List MemberItem) :=
  c.listing (aboutProject project.name) (membersPath project.name) readMember

/-- The robots. -/
def robotItems (c : Connection) (project : Project) : Exchanges (List RobotItem) :=
  c.listing (aboutProject project.name) (robotsPath project.name) readRobot

/-- The member of an entry; other kinds of accounts are passed over. -/
def MemberItem.member? (m : MemberItem) : Option Member :=
  match m.type with
  | "u" => some ⟨m.name, .user, roleName m.role⟩
  | "g" => some ⟨m.name, .group, roleName m.role⟩
  | _ => none

/-- The member that a robot is. -/
def RobotItem.member (r : RobotItem) (project : String) : Member :=
  ⟨robotMemberName r.name project, .robot, robotRole r.access⟩

/-- The members of a project, in the order of listings. -/
def members (c : Connection) (project : Project) : Exchanges (List Member) := do
  let entries ← memberItems c project
  let robots ← robotItems c project
  return Member.sort (entries.filterMap MemberItem.member?
    ++ robots.map fun r => r.member project.name)

/-- What is sent to bind a user or a group. -/
def bindingBody (role : Nat) (member : Member) : Data :=
  let account : String × Data :=
    if member.type = .user then ("member_user", .record [("username", .text member.name)])
    else ("member_group", .record [("group_name", .text member.name)])
  .record [account, ("role_id", .int role)]

/-- What a robot with these actions may do with the repositories of a project. -/
def accessOf (project : Project) (actions : List String) : List Access :=
  actions.map fun action => ⟨"/project/" ++ project.id.getD project.name ++ "/repository", action⟩

/-- What is sent to create a robot. -/
def robotBody (member : Member) (access : List Access) : Data :=
  .record
    [("access", .list (access.map fun a =>
        .record [("action", .text a.action), ("resource", .text a.resource)])),
      ("description", .text ("managed by regfleet (" ++ member.role ++ ")")),
      ("name", .text member.name)]

/-- Creates a robot. -/
def createRobot (c : Connection) (project : Project) (member : Member) :
    Exchanges Credentials := do
  let actions ← .ofExcept (robotActions member.role)
  let created ← c.postDocument (aboutProject project.name) (robotsPath project.name)
    (robotBody member (accessOf project actions)) readNewRobot ⟨"", ""⟩
  if created.secret = "" then
    .fail (.recoverable ("Harbor returned no secret for robot '" ++ member.name ++ "'"))
  else
    let username := if created.name = "" then robotMark ++ member.name else created.name
    return ⟨username, created.secret⟩

/-- Binds a member; a robot is created for it. -/
def assign (c : Connection) (project : Project) (member : Member) :
    Exchanges (Option Credentials) := do
  match member.type with
  | .robot => return some (← createRobot c project member)
  | _ =>
    let role ← .ofExcept (roleId member.role)
    c.post (aboutProject project.name) (membersPath project.name) (bindingBody role member)
    return none

/-- The letter for a kind of account. -/
def accountLetter (type : MemberType) : String := if type = .user then "u" else "g"

/-- Where the first entry or robot of a member is. -/
def bindingPath (c : Connection) (project : Project) (member : Member) : Exchanges String := do
  match member.type with
  | .robot =>
    let robots ← robotItems c project
    match robots.find? fun r => robotMemberName r.name project.name == member.name with
    | some r => return robotsPath project.name ++ "/" ++ toString r.id
    | none => .fail (.notFound "robot" member.name)
  | type =>
    let entries ← memberItems c project
    match entries.find? fun m => m.name == member.name && m.type == accountLetter type with
    | some m => return membersPath project.name ++ "/" ++ toString m.id
    | none => .fail (.notFound "member" member.name)

/-- Unbinds a member. -/
def unassign (c : Connection) (project : Project) (member : Member) : Exchanges Unit := do
  c.delete ⟨"member", member.name⟩ (← bindingPath c project member)

end RegistryFleet.Harbor
