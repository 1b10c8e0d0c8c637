import RegistryFleet.Cluster.Store
import RegistryFleet.Yaml.Writer

/-!
# Cluster/Manifests — cluster objects as files

A directory of manifests keeps every object in a file of its own, named after its kind and name.
-/

namespace RegistryFleet

/-- **A directory of manifests**, given by its path. -/
structure ManifestDirectory where
  path : String
  deriving DecidableEq, Repr

namespace ManifestDirectory

/-- Opens a directory, making it if it is not there. -/
def openAt (files : Files) (path : String) : Except Failure (ManifestDirectory × Files) :=
  match files.makeDirectory path with
  | .ok files => .ok (⟨path⟩, files)
  | .error e => .error (.file path e)

/-- The file of an object with a name. -/
def fileName (o : ClusterObject) (name : String) : String :=
  String.ofList (o.kind.toList.map Char.toLower) ++ "_" ++ name ++ ".yaml"

/-- Where an object is kept. -/
def pathOf (d : ManifestDirectory) (o : ClusterObject) : Except Failure String :=
  o.requireName.map fun name => Files.join d.path (fileName o name)

/-- Writes an object. -/
def write (d : ManifestDirectory) (o : ClusterObject) (files : Files) : Except Failure Files := do
  let path ← d.pathOf o
  match files.write path (Yaml.document o.data) with
  | .ok files => return files
  | .error e => throw (.file path e)

/-- Removes an object; one that is not there is removed already. -/
def remove (d : ManifestDirectory) (o : ClusterObject) (files : Files) : Except Failure Files := do
  let path ← d.pathOf o
  match files.remove path with
  | .ok files => return files
  | .error .absent => return files
  | .error e => throw (.file path e)

/-- A change of the files, which a failure leaves as they are. -/
def commit (act : Files → Except Failure Files) (files : Files) : Except Failure Unit × Files :=
  match act files with
  | .ok files => (.ok (), files)
  | .error e => (.error e, files)

/-- **The directory as a place for cluster objects.** -/
def store (d : ManifestDirectory) : ObjectStore Files where
  write o := commit (d.write o)
  remove o := commit (d.remove o)

end ManifestDirectory

end RegistryFleet
