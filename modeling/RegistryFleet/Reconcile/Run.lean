import RegistryFleet.Reconcile.Schedule
import RegistryFleet.Reconcile.Settings
import RegistryFleet.Reconcile.Unit

/-!
# Reconcile/Run — a whole run over a fleet

A run has two phases: first the project set of every registry, then the members of every project on
every registry that it is expected on. Units are reported by label, whatever the order in which
they ended.
-/

namespace RegistryFleet

/-- Numbers the elements of a list. -/
def numbered {α : Type} (xs : List α) : List (Nat × α) := (List.range xs.length).zip xs

/-- **The units of the first phase**: one for each registry. -/
def projectJobs (profiles : List Profile) (projects : List ProjectSpec) (dry : Bool) :
    List (Job UnitResult) :=
  (numbered profiles).map fun (i, p) => ⟨i, projectUnit p projects dry⟩

/-- **The units of the second phase**: one for each project on each registry. -/
def memberJobs (profiles : List Profile) (projects : List ProjectSpec) (dry : Bool) :
    List (Job UnitResult) :=
  (numbered profiles).flatMap fun (i, p) =>
    (expectedOn p.registry.name projects).map fun spec => ⟨i, memberUnit p spec dry⟩

/-- A fleet with what its units work on. -/
structure Fleet (ω : Type) where
  profiles : List Profile
  machine : Machine ω

/-- **A run**: the report, and the world after it. It may be cancelled at an instant, and stays
cancelled from then on (`Signals`). -/
def Fleet.reconcile {ω : Type} (fleet : Fleet ω) (settings : RunSettings) (cancel : Option Nat)
    (projects : List ProjectSpec) (world : ω) : Report × ω :=
  let signals : Signals := ⟨settings.deadline, cancel⟩
  let first := Schedule.phase fleet.machine signals settings.concurrent 0
    (projectJobs fleet.profiles projects settings.dry) world
  let second := Schedule.phase fleet.machine signals settings.concurrent first.now
    (memberJobs fleet.profiles projects settings.dry) first.world
  let units := UnitResult.sortByLabel first.values ++ UnitResult.sortByLabel second.values
  (⟨settings.dry, units⟩, second.world)

end RegistryFleet
