import RegistryFleet.Fleet.Snapshot
import RegistryFleet.Storage.Files
import RegistryFleet.Yaml.Typed

/-!
# Fleet/Declaration — snapshots as documents

A declared fleet is written as a document with a list of registries and a list of projects. Fields
that are not known are passed over, a field that is left out has its default where it has one.
-/

namespace RegistryFleet

open Yaml

/-! ## Parts of a snapshot -/

/-- The vendors by name. -/
def Vendor.names : List (String × Vendor) :=
  [Vendor.harbor, .acr, .artifactory].map fun v => (v.label, v)

/-- The roles by name. -/
def Role.names : List (String × Role) := [Role.globalHub, .leaf].map fun r => (r.label, r)

/-- The kinds of members by name. -/
def MemberType.names : List (String × MemberType) :=
  [MemberType.user, .robot, .group].map fun t => (t.label, t)

/-- The scopes by name. -/
def Scope.names : List (String × Scope) :=
  [Scope.everywhere, .listed].map fun s => (s.label, s)

/-- The fields of a registry as far as they are read. -/
structure RegistryFields where
  name : Option String
  vendor : Option Vendor
  endpoint : Option String
  username : Option String
  password : Option String
  role : Option Role
  annotations : Option (Keyed String)

namespace RegistryFields

/-- No field yet. -/
def blank : RegistryFields := ⟨none, none, none, none, none, none, none⟩

/-- How a field is read. -/
def field (s : RegistryFields) (name : String) : Option (Typed RegistryFields) :=
  match name with
  | "name" => some (.once s.name name .text fun v => { s with name := some v })
  | "provider" =>
    some (.once s.vendor name (.variant Vendor.names) fun v => { s with vendor := some v })
  | "apiEndpoint" => some (.once s.endpoint name .text fun v => { s with endpoint := some v })
  | "username" => some (.once s.username name .text fun v => { s with username := some v })
  | "password" => some (.once s.password name .text fun v => { s with password := some v })
  | "role" => some (.once s.role name (.variant Role.names) fun v => { s with role := some v })
  | "annotations" =>
    some (.once s.annotations name (.map .text) fun v => { s with annotations := some v })
  | _ => none

/-- The registry, if nothing is missing. -/
def finish (s : RegistryFields) : Except Fault RegistrySpec := do
  return {
    name := ← Typed.required s.name "name"
    vendor := ← Typed.required s.vendor "provider"
    endpoint := ← Typed.required s.endpoint "apiEndpoint"
    credentials := {
      username := ← Typed.required s.username "username"
      password := ← Typed.required s.password "password" }
    role := s.role.getD .leaf
    annotations := s.annotations.getD Keyed.empty }

end RegistryFields

/-- A registry. -/
def RegistrySpec.typed : Typed RegistrySpec :=
  .record "struct RegistrySpec" RegistryFields.blank RegistryFields.field RegistryFields.finish

/-- The fields of a member as far as they are read. -/
structure MemberFields where
  name : Option String
  type : Option MemberType
  role : Option String

namespace MemberFields

/-- How a field is read. -/
def field (s : MemberFields) (name : String) : Option (Typed MemberFields) :=
  match name with
  | "name" => some (.once s.name name .text fun v => { s with name := some v })
  | "type" =>
    some (.once s.type name (.variant MemberType.names) fun v => { s with type := some v })
  | "role" => some (.once s.role name .text fun v => { s with role := some v })
  | _ => none

/-- The member, if nothing is missing. -/
def finish (s : MemberFields) : Except Fault Member := do
  return {
    name := ← Typed.required s.name "name"
    type := ← Typed.required s.type "type"
    role := ← Typed.required s.role "role" }

end MemberFields

/-- A member. -/
def Member.typed : Typed Member :=
  .record "struct Member" (⟨none, none, none⟩ : MemberFields) MemberFields.field
    MemberFields.finish

/-- The fields of a project as far as they are read. -/
structure ProjectFields where
  name : Option String
  scope : Option Scope
  registries : Option (List String)
  members : Option (List Member)
  trigger : Option (Option String)

namespace ProjectFields

/-- No field yet. -/
def blank : ProjectFields := ⟨none, none, none, none, none⟩

/-- How a field is read. -/
def field (s : ProjectFields) (name : String) : Option (Typed ProjectFields) :=
  match name with
  | "name" => some (.once s.name name .text fun v => { s with name := some v })
  | "kind" => some (.once s.scope name (.variant Scope.names) fun v => { s with scope := some v })
  | "localRegistries" =>
    some (.once s.registries name (.list .text) fun v => { s with registries := some v })
  | "members" =>
    some (.once s.members name (.list Member.typed) fun v => { s with members := some v })
  | "trigger" =>
    some (.once s.trigger name (.optional .text) fun v => { s with trigger := some v })
  | _ => none

/-- The project, if nothing is missing. -/
def finish (s : ProjectFields) : Except Fault ProjectSpec := do
  return {
    name := ← Typed.required s.name "name"
    scope := s.scope.getD .everywhere
    registries := s.registries.getD []
    members := s.members.getD []
    trigger := s.trigger.getD none }

end ProjectFields

/-- A project. -/
def ProjectSpec.typed : Typed ProjectSpec :=
  .record "struct ProjectSpec" ProjectFields.blank ProjectFields.field ProjectFields.finish

/-! ## Snapshots -/

/-- The fields of a snapshot as far as they are read. -/
structure SnapshotFields where
  registries : Option (List RegistrySpec)
  projects : Option (List ProjectSpec)

namespace SnapshotFields

/-- How a field is read. -/
def field (s : SnapshotFields) (name : String) : Option (Typed SnapshotFields) :=
  match name with
  | "registries" =>
    some (.once s.registries name (.list RegistrySpec.typed) fun v =>
      { s with registries := some v })
  | "projects" =>
    some (.once s.projects name (.list ProjectSpec.typed) fun v => { s with projects := some v })
  | _ => none

/-- The snapshot; a list that is left out is empty. -/
def finish (s : SnapshotFields) : Except Fault Snapshot :=
  .ok ⟨s.registries.getD [], s.projects.getD []⟩

end SnapshotFields

namespace Snapshot

/-- A snapshot. -/
def typed : Typed Snapshot :=
  .record "struct FleetConfig" (⟨none, none⟩ : SnapshotFields) SnapshotFields.field
    SnapshotFields.finish

/-- **A snapshot read from a text**, checked. -/
def ofText (text : String) : Except Error Snapshot := do
  let s ← (typed.read text).mapError fun f =>
    Error.configuration ("failed to parse fleet snapshot: " ++ f.message)
  s.check
  return s

/-- **A snapshot read from a file**, checked. -/
def ofFile (files : Files) (path : String) : Except Error Snapshot := do
  let text ← (files.read path).mapError fun e =>
    Error.configuration ("failed to read " ++ path ++ ": " ++ e.message)
  ofText text

end Snapshot

end RegistryFleet
