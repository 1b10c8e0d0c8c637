/-!
# Fleet/Error — why an operation on a registry failed

Four kinds of failure are told apart, because the engine treats them differently: what does not
exist or cannot be done now may be tried again, a capability that a vendor lacks is skipped, and a
wrong configuration stops the unit of work.
-/

namespace RegistryFleet

/-- Coarse classification of a failure. -/
inductive ErrorKind
  /-- The entity does not exist. -/
  | notFound
  /-- Not possible now; the run goes on. -/
  | recoverable
  /-- The backend lacks the capability. -/
  | notImplemented
  /-- Invalid configuration; ends the unit of work. -/
  | configuration
  deriving DecidableEq, Repr

/-- The name of a kind in answers. -/
def ErrorKind.label : ErrorKind → String
  | .notFound => "not_found"
  | .recoverable => "recoverable"
  | .notImplemented => "not_implemented"
  | .configuration => "configuration"

/-- **A failure of an operation on a registry or a fleet.** -/
inductive Error
  /-- There is no such entity of that name. -/
  | notFound (entity name : String)
  /-- The operation cannot complete under the present conditions. -/
  | recoverable (reason : String)
  /-- The vendor does not have the capability. -/
  | notImplemented (provider capability : String)
  /-- Invalid configuration or missing context. -/
  | configuration (reason : String)
  deriving DecidableEq, Repr

namespace Error

/-- The kind of a failure. -/
def kind : Error → ErrorKind
  | notFound .. => .notFound
  | recoverable .. => .recoverable
  | notImplemented .. => .notImplemented
  | configuration .. => .configuration

/-- The text shown for a failure. -/
def message : Error → String
  | notFound entity name => entity ++ " '" ++ name ++ "' not found"
  | recoverable reason => reason
  | notImplemented provider capability =>
    capability ++ " is not implemented by the " ++ provider ++ " provider"
  | configuration reason => "invalid configuration: " ++ reason

/-- May a later run succeed? -/
def isRecoverable : Error → Bool
  | recoverable .. | notFound .. => true
  | _ => false

/-- Is it a missing capability rather than a failure? -/
def isCapabilityGap : Error → Bool
  | notImplemented .. => true
  | _ => false

/-- Does it end the unit of work? -/
def isFatal : Error → Bool
  | configuration .. => true
  | _ => false

end Error

end RegistryFleet
