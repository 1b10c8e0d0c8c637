import RegistryFleet.Cluster.Object
import RegistryFleet.Credential.Key
import RegistryFleet.Json.Writer

/-!
# Credential/Secret — a credential as a cluster secret

A stored credential is a secret that holds the configuration of a container client: for the
endpoint, user name and password joined by a colon, in base 64.
-/

namespace RegistryFleet

namespace DockerConfig

/-- The type of the secrets that hold such a configuration. -/
def secretType : String := "kubernetes.io/dockerconfigjson"

/-- The entry of the secret that holds the configuration. -/
def entryKey : String := ".dockerconfigjson"

/-- The configuration for one endpoint. -/
def data (endpoint : String) (credentials : Credentials) : Data :=
  .record [("auths",
    .record [(endpoint, .record [("auth", .text (Text.Base64.encode credentials.pair))])])]

/-- **The text of the configuration** for one endpoint. -/
def write (endpoint : String) (credentials : Credentials) : String :=
  Json.compact (data endpoint credentials)

end DockerConfig

/-- The annotation that names the project of a credential. -/
def projectNameKey : String := "regfleet.io/project-name"

/-- The annotation that names the registry of a credential. -/
def registryNameKey : String := "regfleet.io/registry-name"

/-- **The secret of a credential.** -/
def CredentialKey.secret (key : CredentialKey) (endpoint : String) (credentials : Credentials) :
    Secret where
  metadata :=
    { annotations := some (.ofList
        [(projectNameKey, key.project), (registryNameKey, key.registry)])
      name := some key.member }
  stringData := some (.ofList [(DockerConfig.entryKey, DockerConfig.write endpoint credentials)])
  type := some DockerConfig.secretType

end RegistryFleet
