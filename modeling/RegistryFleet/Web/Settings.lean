/-!
# Web/Settings — how vendors' interfaces are spoken to
-/

namespace RegistryFleet

/-- How requests are made. -/
structure ClientSettings where
  /-- The time a request may take, in milliseconds. -/
  timeout : Nat
  userAgent : String
  /-- How many items a page of a listing has. -/
  pageSize : Nat
  deriving DecidableEq, Repr

namespace ClientSettings

/-- The version of the program. -/
def version : String := "0.1.0"

/-- The settings without options. -/
def standard : ClientSettings := ⟨30000, "regfleet/" ++ version, 100⟩

/-- The settings with another page size, which is at least one. -/
def withPageSize (s : ClientSettings) (size : Nat) : ClientSettings :=
  { s with pageSize := max size 1 }

end ClientSettings

end RegistryFleet
