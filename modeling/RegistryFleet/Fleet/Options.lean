import RegistryFleet.Fleet.Error
import RegistryFleet.Keyed
import RegistryFleet.Text.Blank

/-!
# Fleet/Options — the effective options of a registry

A registry's annotations override what the command line says. A value that cannot be understood is
replaced by the safe choice: no forced deletion, no declared transport.
-/

namespace RegistryFleet

/-- How images move along a replication edge. -/
inductive Transport
  /-- The registry's own replication feature. -/
  | native
  /-- A scheduled job around the copy tool. -/
  | copyTool
  deriving DecidableEq, Repr

namespace Transport

/-- The name of a transport. -/
def label : Transport → String
  | native => "registry"
  | copyTool => "copy-tool"

/-- The transport of a name; the copy tool also goes by its own. -/
def read (s : String) : Except Error Transport :=
  match s with
  | "registry" => .ok native
  | "copy-tool" => .ok copyTool
  | "skopeo" => .ok copyTool
  | other => .error (.configuration
      ("unknown replication type '" ++ other ++ "', expected \"registry\" or \"copy-tool\""))

end Transport

/-- What the command line asks of every registry. -/
structure Defaults where
  /-- Delete projects even when they still own repositories. -/
  forceDelete : Bool
  deriving DecidableEq, Repr

/-- The effective options of one registry. -/
structure Options where
  /-- Delete projects together with their repositories. -/
  forceDelete : Bool
  /-- The declared transport of cron-triggered rules, if there is one. -/
  replication : Option Transport
  deriving DecidableEq, Repr

namespace Options

/-- The annotation that overrides forced deletion. -/
def forceDeleteKey : String := "regfleet.io/force-delete"

/-- The annotation that declares the transport. -/
def replicationKey : String := "regfleet.io/replication"

/-- The annotation that names the docker repository of a folder-based registry. -/
def dockerRepositoryKey : String := "regfleet.io/docker-repository"

/-- Forced deletion: an annotation wins over the default, and only `true` says yes. -/
def resolveForceDelete (defaults : Defaults) (annotations : Keyed String) : Bool :=
  match annotations.get? forceDeleteKey with
  | some value => Text.trim value == "true"
  | none => defaults.forceDelete

/-- The declared transport, when the annotation is there and understood. -/
def resolveReplication (annotations : Keyed String) : Option Transport :=
  (annotations.get? replicationKey).bind fun value => (Transport.read (Text.trim value)).toOption

/-- **The merge of defaults and annotations.** -/
def resolve (defaults : Defaults) (annotations : Keyed String) : Options where
  forceDelete := resolveForceDelete defaults annotations
  replication := resolveReplication annotations

end Options

end RegistryFleet
