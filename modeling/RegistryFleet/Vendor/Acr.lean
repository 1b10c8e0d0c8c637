import RegistryFleet.Fleet.Project
import RegistryFleet.Web.Connection

/-!
# Vendor/Acr — registries with a flat catalog

There are only repositories. A project is the first segment of their names; it cannot be created, it
is gone with its last repository, and it has no members.
-/

namespace RegistryFleet.Acr

open Json (Typed)
open Web (Connection Exchanges)

/-- The names in a catalog. -/
def readCatalog : Typed (List String) :=
  .record "a catalog" [("repositories", true)] (none : Option (List String))
    (fun s field =>
      match field with
      | "repositories" => some (.once s "repositories" (.list .text) some)
      | _ => none)
    fun s => .ok (s.getD [])

/-- Where the catalog is. -/
def catalogPath : String := "/acr/v1/_catalog"

/-- Where a repository is. -/
def repositoryPath (name : String) : String := "/acr/v1/" ++ name

/-- The names of all repositories. -/
def catalog (c : Connection) : Exchanges (List String) :=
  c.getDocument ⟨"registry", c.registry.name⟩ catalogPath [] readCatalog []

/-- The repositories of a project among names. -/
def repositoriesOf (project : String) (names : List String) : List Repository :=
  (names.filter fun name => Repository.firstSegment name == project).map fun name =>
    ⟨project, name⟩

/-- The projects. -/
def projects (c : Connection) : Exchanges (List Project) := do
  return Repository.projectsOf (← catalog c)

/-- The repositories of a project. -/
def repositories (c : Connection) (project : Project) : Exchanges (List Repository) := do
  return repositoriesOf project.name (← catalog c)

/-- Deletes a repository. -/
def deleteRepository (c : Connection) (repository : Repository) : Exchanges Unit :=
  c.delete ⟨"repository", repository.name⟩ (repositoryPath repository.name)

end RegistryFleet.Acr
