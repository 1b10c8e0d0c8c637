import RegistryFleet.Fleet.Registry

/-!
# Topology/Edge — which end of an edge replicates

Images always flow from the hub to a leaf. Whether the hub pushes or the leaf pulls depends on
what each backend can do by itself; the hub has precedence.
-/

namespace RegistryFleet

/-- What a backend can replicate by itself. -/
structure Capabilities where
  /-- It can push images to another registry. -/
  push : Bool
  /-- It can pull images from another registry. -/
  pull : Bool
  deriving DecidableEq, Repr

/-- The replication features of a vendor. -/
def Vendor.capabilities : Vendor → Capabilities
  | .harbor => ⟨true, true⟩
  | .acr => ⟨false, false⟩
  | .artifactory => ⟨false, true⟩

/-- What the topology needs to know of a registry. -/
structure Node where
  hub : Bool
  capabilities : Capabilities
  deriving DecidableEq, Repr

/-- The node of a registry. -/
def Registry.node (r : Registry) : Node := ⟨r.isHub, r.vendor.capabilities⟩

/-- The direction of a rule, seen from the registry it is configured on. -/
inductive Direction
  /-- Images flow from the local registry to the remote one. -/
  | push
  /-- Images flow from the remote registry to the local one. -/
  | pull
  deriving DecidableEq, Repr

/-- The name of a direction. -/
def Direction.label : Direction → String
  | .push => "Push"
  | .pull => "Pull"

/-- **The direction of the rule that `here` needs towards `there`**, if it needs one. Two hubs are
a configuration error. -/
def replication (here there : Node) : Except Error (Option Direction) :=
  if here.hub && there.hub then
    .error (.configuration "both local and remote registries are global hubs")
  else if !here.hub && !there.hub then .ok none
  else if there.hub && there.capabilities.push then .ok none
  else if here.hub && here.capabilities.push then .ok (some .push)
  else if !here.hub && here.capabilities.pull then .ok (some .pull)
  else .ok none

/-- The registries that claim to be the hub. -/
def hubs (registries : List Registry) : List Registry :=
  registries.filter Registry.isHub

/-- Refuses a fleet with more than one hub. -/
def checkHubs (registries : List Registry) : Except Error Unit :=
  if (hubs registries).length > 1 then
    .error (.configuration ("a fleet must have exactly one global hub, found: "
      ++ ", ".intercalate ((hubs registries).map Registry.name)))
  else .ok ()

end RegistryFleet
