import RegistryFleet.Backend.Call
import RegistryFleet.Vendor.Acr
import RegistryFleet.Vendor.Artifactory
import RegistryFleet.Vendor.Harbor

/-!
# Vendor/Adapter — a vendor's interface as a backend

Each call to a backend is a tree of exchanges in the terms of the vendor.
-/

namespace RegistryFleet

open Web (Connection Exchanges)

namespace Vendor

/-- Can projects be created? -/
def creates : Vendor → Bool
  | harbor | artifactory => true
  | acr => false

/-- Is there a member model? -/
def hasMembers : Vendor → Bool
  | harbor | artifactory => true
  | acr => false

end Vendor

namespace Web.Connection

/-- What is known of the backend without calling it. -/
def profile (c : Connection) : Profile :=
  ⟨c.registry, c.registry.vendor.creates, c.registry.vendor.hasMembers⟩

/-- The project of a name in a listing. -/
def findIn (name : String) (listed : List Project) : Except Error Project :=
  match listed.find? fun p => p.name == name with
  | some p => .ok p
  | none => .error (.notFound "project" name)

/-- **A call in the terms of the vendor.** Calls that the vendor lacks fail without an exchange. -/
def exchanges (c : Connection) : (call : Call) → Exchanges call.Result
  | .listProjects =>
    match c.registry.vendor with
    | .harbor => Harbor.projects c
    | .acr => Acr.projects c
    | .artifactory => Artifactory.projects c
  | .findProject name =>
    match c.registry.vendor with
    | .harbor => Harbor.project c name
    | .acr => do .ofExcept (findIn name (← Acr.projects c))
    | .artifactory => do .ofExcept (findIn name (← Artifactory.projects c))
  | .listRepositories project =>
    match c.registry.vendor with
    | .harbor => Harbor.repositories c project
    | .acr => Acr.repositories c project
    | .artifactory => Artifactory.repositories c project
  | .deleteRepository repository =>
    match c.registry.vendor with
    | .harbor => Harbor.deleteRepository c repository
    | .acr => Acr.deleteRepository c repository
    | .artifactory => Artifactory.deleteRepository c repository
  | .removeProject project =>
    match c.registry.vendor with
    | .harbor => Harbor.removeProject c project
    | .acr => .done ()
    | .artifactory => Artifactory.removeProject c project
  | .createProject name =>
    match c.registry.vendor with
    | .harbor => Harbor.createProject c name
    | .acr => .fail (c.profile.gap "project creation")
    | .artifactory => Artifactory.createProject c name
  | .members project =>
    match c.registry.vendor with
    | .harbor => Harbor.members c project
    | .acr => .fail (c.profile.gap "member management")
    | .artifactory => Artifactory.members c project
  | .assign project member =>
    match c.registry.vendor with
    | .harbor => Harbor.assign c project member
    | .acr => .fail (c.profile.gap "member management")
    | .artifactory => Artifactory.assign c project member
  | .unassign project member =>
    match c.registry.vendor with
    | .harbor => Harbor.unassign c project member
    | .acr => .fail (c.profile.gap "member management")
    | .artifactory => Artifactory.unassign c project member

/-- **The connection as a backend** in front of whatever replies. -/
def serve {σ : Type} (c : Connection) (replier : Exchanges.Replier σ) : Calls.Server σ :=
  fun call s => (c.exchanges call).run replier s

end Web.Connection

end RegistryFleet
