import RegistryFleet.Backend.Call

/-!
# Backend/Deletion — deleting a project

A project is deleted after its repositories, and its repositories only under forced deletion. The
calls are made one by one; the first that fails ends the deletion.
-/

namespace RegistryFleet

/-- Deletes the repositories in order, until one deletion fails. -/
def deleteRepositories : List Repository → Calls (Except Error Unit)
  | [] => .done (.ok ())
  | r :: rest => (Calls.one (.deleteRepository r)).andThen fun _ => deleteRepositories rest

/-- The failure of a deletion that repositories stand in the way of. -/
def repositoriesPresent (project : Project) : Error :=
  .recoverable (project.name
    ++ ": repositories are present, please delete them before deleting the project")

/-- **Deletion of a project** — the listing comes first, the removal last. -/
def Profile.delete (p : Profile) (project : Project) : Calls (Except Error Unit) :=
  (Calls.one (.listRepositories project)).andThen fun repositories =>
    if !repositories.isEmpty && !p.registry.options.forceDelete then
      .done (.error (repositoriesPresent project))
    else (deleteRepositories repositories).andThen fun _ => .one (.removeProject project)

end RegistryFleet
