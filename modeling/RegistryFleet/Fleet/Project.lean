import RegistryFleet.Keyed

/-!
# Fleet/Project — projects, their members and their repositories

What is expected of a project (`ProjectSpec`) and what is observed of it on a backend (`Project`,
`Member`, `Repository`).
-/

namespace RegistryFleet

/-- What kind of account a member is. -/
inductive MemberType
  | user
  | robot
  | group
  deriving DecidableEq, Repr

namespace MemberType

/-- The name of a member type. -/
def label : MemberType → String
  | user => "User"
  | robot => "Robot"
  | group => "Group"

/-- The place of a member type in the order of listings. -/
def rank : MemberType → Nat
  | user => 0
  | robot => 1
  | group => 2

end MemberType

/-- A member bound to a project, in a role whose names depend on the vendor. -/
structure Member where
  name : String
  type : MemberType
  role : String
  deriving DecidableEq, Repr

namespace Member

/-- The text of a member: its name, type and role. -/
def text (m : Member) : String :=
  m.name ++ " (" ++ m.type.label ++ ", " ++ m.role ++ ")"

/-- **Order of listings** — by name, then type, then role. -/
def le (a b : Member) : Bool :=
  if a.name = b.name then
    if a.type = b.type then decide (a.role ≤ b.role) else a.type.rank ≤ b.type.rank
  else decide (a.name ≤ b.name)

/-- The members in the order of listings. -/
def sort (ms : List Member) : List Member := ms.mergeSort le

end Member

/-- Where a project is expected. -/
inductive Scope
  /-- On every registry. -/
  | everywhere
  /-- On the registries it lists. -/
  | listed
  deriving DecidableEq, Repr

/-- The name of a scope. -/
def Scope.label : Scope → String
  | .everywhere => "Global"
  | .listed => "Local"

/-- **What is expected of a project.** -/
structure ProjectSpec where
  name : String
  scope : Scope
  /-- The registries of a listed project. -/
  registries : List String
  members : List Member
  /-- The declared replication trigger. -/
  trigger : Option String
  deriving DecidableEq, Repr

/-- Is the project expected on the registry of that name? -/
def ProjectSpec.expectedOn (p : ProjectSpec) (registry : String) : Bool :=
  match p.scope with
  | .everywhere => true
  | .listed => p.registries.contains registry

/-- A project observed on a backend; some vendors give it an identifier. -/
structure Project where
  name : String
  id : Option String
  deriving DecidableEq, Repr

/-- A project without identifier. -/
def Project.named (name : String) : Project := ⟨name, none⟩

/-- An image repository of a project, under the name its backend reports. -/
structure Repository where
  project : String
  name : String
  deriving DecidableEq, Repr

namespace Repository

/-- The first path segment of a repository name. -/
def firstSegment (name : String) : String :=
  String.ofList (name.toList.takeWhile (· != '/'))

/-- **The projects of a flat listing** — the first segments that are not empty, each once, in
increasing order. -/
def projectsOf (names : List String) : List Project :=
  let segments := (names.map firstSegment).filter (· != "")
  (Keyed.ofList (segments.map fun s => (s, ()))).keys.map Project.named

end Repository

end RegistryFleet
