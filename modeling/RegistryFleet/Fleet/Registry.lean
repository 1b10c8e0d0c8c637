import RegistryFleet.Fleet.Options
import RegistryFleet.Text.Cut
import RegistryFleet.Text.Quoted

/-!
# Fleet/Registry — the registries of a fleet

A registry is built once from its declaration and the defaults of the command line. Its endpoint
is kept without trailing slashes; its host, which image references begin with, is what stands
between the scheme and the next slash.
-/

namespace RegistryFleet

/-- The vendor of a registry backend. -/
inductive Vendor
  | harbor
  | acr
  | artifactory
  deriving DecidableEq, Repr

/-- The name of a vendor. -/
def Vendor.label : Vendor → String
  | .harbor => "harbor"
  | .acr => "acr"
  | .artifactory => "artifactory"

/-- The place of a registry in the topology. -/
inductive Role
  /-- The hub that every leaf replicates with. -/
  | globalHub
  /-- A leaf. -/
  | leaf
  deriving DecidableEq, Repr

/-- The name of a role. -/
def Role.label : Role → String
  | .globalHub => "GlobalHub"
  | .leaf => "Local"

/-- A user name and its password. -/
structure Credentials where
  username : String
  password : String
  deriving DecidableEq, Repr

namespace Credentials

/-- User name and password, joined by a colon. -/
def pair (c : Credentials) : String := c.username ++ ":" ++ c.password

/-- The form shown in diagnostics, without the password. -/
def redacted (c : Credentials) : String :=
  "Credentials \x7b username: " ++ Text.quoted c.username ++ ", password: \"<redacted>\" \x7d"

end Credentials

/-- A registry as declared. -/
structure RegistrySpec where
  name : String
  vendor : Vendor
  endpoint : String
  credentials : Credentials
  role : Role
  annotations : Keyed String
  deriving DecidableEq

/-- **A registry with its merged options.** -/
structure Registry where
  name : String
  /-- The address of the API, without trailing slashes. -/
  endpoint : String
  credentials : Credentials
  vendor : Vendor
  role : Role
  options : Options
  annotations : Keyed String
  deriving DecidableEq

namespace Registry

/-- The endpoint without trailing slashes. -/
def trimEndpoint (endpoint : String) : String :=
  String.ofList (Text.dropEndWhile (· == '/') endpoint.toList)

/-- The registry of a declaration, under the defaults of the command line. -/
def ofSpec (defaults : Defaults) (spec : RegistrySpec) : Registry where
  name := spec.name
  endpoint := trimEndpoint spec.endpoint
  credentials := spec.credentials
  vendor := spec.vendor
  role := spec.role
  options := Options.resolve defaults spec.annotations
  annotations := spec.annotations

/-- **The host of an endpoint** — what follows the scheme, up to the next slash. -/
def hostOf (endpoint : String) : String :=
  let cs := endpoint.toList
  let rest := match Text.cutAtMark? [':', '/', '/'] cs with
    | some (_, back) => back
    | none => cs
  String.ofList (Text.before '/' rest)

/-- The host that image references name. -/
def host (r : Registry) : String := hostOf r.endpoint

/-- Is the registry the hub of its fleet? -/
def isHub (r : Registry) : Bool := r.role == .globalHub

end Registry

end RegistryFleet
