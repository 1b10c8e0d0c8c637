import RegistryFleet.Fleet.Error
import RegistryFleet.Storage.Files

/-!
# Reconcile/Failure — what ends an operation of the engine

Failures of single actions are reported, not raised. What ends an operation is a failure of the
fleet, an invalid setting, a registry outside the fleet, or trouble with the place where cluster
objects are kept.
-/

namespace RegistryFleet

/-- **Why an operation of the engine ended.** -/
inductive Failure
  /-- A failure of the fleet. -/
  | fleet (error : Error)
  /-- A setting or a rule that cannot be carried out. -/
  | invalid (reason : String)
  /-- A registry that is not part of the fleet. -/
  | unknownRegistry (name : String)
  /-- A file could not be accessed. -/
  | file (path : String) (error : FileError)
  /-- The cluster refused a request about an object. -/
  | cluster (object : String)
  deriving DecidableEq, Repr

namespace Failure

/-- The name of the kind of a failure. -/
def label : Failure → String
  | fleet e => e.kind.label
  | invalid _ => "invalid_config"
  | unknownRegistry _ => "unknown_registry"
  | file .. => "io"
  | cluster _ => "kube"

/-- The text shown for a failure. -/
def message : Failure → String
  | fleet e => e.message
  | invalid reason => "invalid configuration: " ++ reason
  | unknownRegistry name => "registry '" ++ name ++ "' is not part of the fleet"
  | file path e => "failed to access " ++ path ++ ": " ++ e.message
  | cluster object => "kubernetes request for " ++ object ++ " failed"

end Failure

end RegistryFleet
