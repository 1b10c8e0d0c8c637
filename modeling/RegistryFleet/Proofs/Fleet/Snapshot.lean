import RegistryFleet.Proofs.Fleet.WellFormed
import RegistryFleet.Reconcile.Unit

/-!
# Proofs/Fleet/Snapshot — what the check of a snapshot guarantees

The registries and the projects of a checked snapshot have names of their own; those of the projects
are single path segments.
-/

namespace RegistryFleet

namespace Snapshot

variable {registries : List RegistrySpec} {projects : List ProjectSpec}

/-- **No two registries of a checked snapshot have one name.** -/
theorem nodup_registries (h : (Snapshot.mk registries projects).check = .ok ()) :
    (registries.map RegistrySpec.name).Nodup :=
  (check_eq_ok_iff.1 h).registries_distinct

/-- The projects of a checked snapshot are single path segments. -/
theorem no_slash_projects (h : (Snapshot.mk registries projects).check = .ok ()) :
    ∀ p ∈ projects, '/' ∉ p.name.toList := fun p hp =>
  ((check_eq_ok_iff.1 h).project_names p hp).2

/-- **No two projects expected on a registry have one name.** -/
theorem nodup_expectedOn (h : (Snapshot.mk registries projects).check = .ok ())
    (registry : String) : ((expectedOn registry projects).map ProjectSpec.name).Nodup :=
  (check_eq_ok_iff.1 h).projects_distinct.sublist (List.filter_sublist.map _)

end Snapshot

end RegistryFleet
