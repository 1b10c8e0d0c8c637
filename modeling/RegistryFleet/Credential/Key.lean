import RegistryFleet.Fleet.Registry

/-!
# Credential/Key — which credential, and what is to happen to it

A generated credential belongs to one member of one project on one registry, and is stored in a
file named after the three. Binding a robot calls for its credential to be stored, unbinding a
robot for its removal.
-/

namespace RegistryFleet

/-- The identity of a stored credential. -/
structure CredentialKey where
  registry : String
  project : String
  member : String
  deriving DecidableEq, Repr

namespace CredentialKey

/-- The file that the credential is stored in. -/
def fileName (k : CredentialKey) : String :=
  k.registry ++ "_" ++ k.project ++ "_" ++ k.member ++ "_creds.yaml"

/-- The text of a key. -/
def text (k : CredentialKey) : String :=
  k.registry ++ "/" ++ k.project ++ "/" ++ k.member

end CredentialKey

/-- **What an action calls for beside the backend.** -/
inductive Effect
  | none
  /-- Store generated credentials for an endpoint. -/
  | persist (key : CredentialKey) (endpoint : String) (credentials : Credentials)
  /-- Remove stored credentials. -/
  | remove (key : CredentialKey)
  deriving DecidableEq, Repr

namespace Effect

/-- Is there nothing to do? -/
def isNone : Effect → Bool
  | none => true
  | _ => false

/-- The text of an effect. -/
def text : Effect → String
  | none => "none"
  | persist key _ _ => "persist credentials " ++ key.fileName
  | remove key => "remove credentials " ++ key.fileName

end Effect

end RegistryFleet
