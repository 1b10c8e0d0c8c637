import RegistryFleet.Credential.Secret
import RegistryFleet.Fleet.Error
import RegistryFleet.Storage.Files
import RegistryFleet.Yaml.Writer

/-!
# Credential/Directory — carrying out effects on a directory of credentials

Every credential has a file of its own, so storing and removing the credential of one member leaves
those of all others alone.
-/

namespace RegistryFleet

/-- How secrets are written. -/
inductive SecretFormat
  | yaml
  | json
  deriving DecidableEq, Repr

namespace SecretFormat

/-- The name of a format in answers. -/
def label : SecretFormat → String
  | yaml => "Yaml"
  | json => "Json"

/-- The format of a name. -/
def read (s : String) : Except Error SecretFormat :=
  match s with
  | "yaml" => .ok yaml
  | "json" => .ok json
  | other => .error (.configuration
      ("unknown secret format '" ++ other ++ "', expected 'yaml' or 'json'"))

/-- A secret as text. -/
def write (format : SecretFormat) (secret : Secret) : String :=
  let data := (ClusterObject.secret secret).data
  match format with
  | yaml => Yaml.document data
  | json => Json.pretty data

end SecretFormat

/-- **A directory of credentials.** -/
structure CredentialDirectory where
  path : String
  format : SecretFormat
  deriving DecidableEq, Repr

namespace CredentialDirectory

/-- Opens a directory, making it if it is not there. -/
def openAt (files : Files) (path : String) (format : SecretFormat) :
    Except Error (CredentialDirectory × Files) :=
  match files.makeDirectory path with
  | .ok files => .ok (⟨path, format⟩, files)
  | .error e => .error (.configuration
      ("credential directory " ++ path ++ " is unusable: " ++ e.message))

/-- Where a credential is stored. -/
def pathOf (d : CredentialDirectory) (key : CredentialKey) : String :=
  Files.join d.path key.fileName

/-- Stores a credential. -/
def persist (d : CredentialDirectory) (key : CredentialKey) (endpoint : String)
    (credentials : Credentials) (files : Files) : Except Error Files :=
  match files.write (d.pathOf key) (d.format.write (key.secret endpoint credentials)) with
  | .ok files => .ok files
  | .error e => .error (.recoverable
      ("failed to write " ++ d.pathOf key ++ ": " ++ e.message))

/-- Removes a credential. -/
def remove (d : CredentialDirectory) (key : CredentialKey) (files : Files) : Except Error Files :=
  match files.remove (d.pathOf key) with
  | .ok files => .ok files
  | .error .absent => .error (.recoverable
      ("credential file " ++ d.pathOf key ++ " does not exist"))
  | .error e => .error (.recoverable ("failed to remove " ++ d.pathOf key ++ ": " ++ e.message))

end CredentialDirectory

/-- The failure of an effect that has no place to be carried out. -/
def noCredentialDirectory : Error :=
  .configuration "no credential persistence directory is configured"

/-- **Carries out an effect.** Only an effect that there is needs a directory. -/
def Effect.settle (directory : Option CredentialDirectory) (files : Files) :
    Effect → Except Error Files
  | .none => .ok files
  | .persist key endpoint credentials =>
    directory.elim (.error noCredentialDirectory) fun d => d.persist key endpoint credentials files
  | .remove key =>
    directory.elim (.error noCredentialDirectory) fun d => d.remove key files

end RegistryFleet
