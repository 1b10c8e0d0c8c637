import RegistryFleet.Reconcile.Failure

/-!
# Reconcile/Settings — how a run is carried out
-/

namespace RegistryFleet

/-- How a run is carried out. -/
structure RunSettings where
  /-- The most units in flight. -/
  concurrent : Nat
  /-- The time the run may take, in milliseconds. -/
  deadline : Nat
  /-- Work the actions out, but do not perform them. -/
  dry : Bool
  deriving DecidableEq, Repr

namespace RunSettings

/-- The settings without options. -/
def standard : RunSettings := ⟨4, 300000, false⟩

/-- Refuses a run that could not start anything. -/
def check (s : RunSettings) : Except Failure Unit :=
  if s.concurrent = 0 then .error (.invalid "max_concurrent must be at least 1")
  else if s.deadline = 0 then .error (.invalid "deadline must be positive")
  else .ok ()

end RunSettings

end RegistryFleet
