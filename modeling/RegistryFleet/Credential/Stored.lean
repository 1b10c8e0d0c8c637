import RegistryFleet.Credential.Secret
import RegistryFleet.Fleet.Error
import RegistryFleet.Json.Typed
import RegistryFleet.Storage.Files
import RegistryFleet.Text.Utf8
import RegistryFleet.Yaml.Typed

/-!
# Credential/Stored — stored credentials read back

A credential file holds a secret; the secret holds the configuration of a container client; its
first entry holds user name and password. Each layer can be other than expected, and the outermost
fault is the one reported.
-/

namespace RegistryFleet

/-! ## The secret -/

/-- The fields of an object's metadata that are texts. -/
def Metadata.textFields : List String :=
  ["creationTimestamp", "deletionTimestamp", "generateName", "name", "namespace",
    "resourceVersion", "selfLink", "uid"]

/-- How a field of an object's metadata is read; only its form matters. -/
def Metadata.field (seen : Unit) (name : String) : Option (Yaml.Typed Unit) :=
  let form {α : Type} (read : Yaml.Typed α) : Option (Yaml.Typed Unit) :=
    some fun d path n => (Yaml.Typed.optional read d path n).map fun _ => seen
  if textFields.contains name then form Yaml.Typed.text
  else if name == "annotations" || name == "labels" then form (Yaml.Typed.map Yaml.Typed.text)
  else if name == "deletionGracePeriodSeconds" || name == "generation" then form Yaml.Typed.int64
  else if name == "finalizers" then form (Yaml.Typed.list Yaml.Typed.text)
  else none

/-- An object's metadata. -/
def Metadata.typed : Yaml.Typed Unit := .record "ObjectMeta" () Metadata.field .ok

/-- Octets in base 64. -/
def octetsTyped : Yaml.Typed (List UInt8) := fun d path n =>
  match d.follow n with
  | .scalar _ _ s =>
    match Text.Base64.decode? s with
    | some octets => .ok octets
    | none => .error .malformed
  | n => Yaml.Typed.placed path (Yaml.Typed.refusal n "a base64-encoded string")

/-- What is read of a secret. -/
structure SecretFields where
  data : Option (Keyed (List UInt8))
  stringData : Option (Keyed String)
  type : Option String

namespace SecretFields

/-- A field that must hold one particular text. -/
def fixed (wanted : String) (s : SecretFields) : Yaml.Typed SecretFields := fun d path n => do
  let got ← Yaml.Typed.text d path n
  if got = wanted then return s else Yaml.Typed.refuse (.wrongValue (.text got) wanted)

/-- How a field is read; of several with one name, the last counts. -/
def field (s : SecretFields) (name : String) : Option (Yaml.Typed SecretFields) :=
  let put {α : Type} (read : Yaml.Typed α) (set : Option α → SecretFields) :
      Option (Yaml.Typed SecretFields) :=
    some fun d path n => (Yaml.Typed.optional read d path n).map set
  match name with
  | "apiVersion" => some (fixed "v1" s)
  | "kind" => some (fixed "Secret" s)
  | "data" => put (.map octetsTyped) fun v => { s with data := v }
  | "immutable" => put .bool fun _ => s
  | "metadata" => put Metadata.typed fun _ => s
  | "stringData" => put (.map .text) fun v => { s with stringData := v }
  | "type" => put .text fun v => { s with type := v }
  | _ => none

/-- A secret. -/
def typed : Yaml.Typed SecretFields := .record "Secret" ⟨none, none, none⟩ field .ok

end SecretFields

/-! ## The configuration -/

namespace DockerConfig

/-- An entry of the configuration: user name and password, encoded. -/
def entryTyped : Json.Typed String :=
  .record "struct DockerAuth" [("auth", false)] (none : Option String)
    (fun seen name =>
      match name with
      | "auth" => some (.once seen name .text some)
      | _ => none)
    fun seen => Json.Typed.required seen "auth"

/-- **The configuration**: an entry for every endpoint. -/
def typed : Json.Typed (Keyed String) :=
  .record "struct DockerConfig" [("auths", false)] (none : Option (Keyed String))
    (fun seen name =>
      match name with
      | "auths" => some (.once seen name (.map entryTyped) some)
      | _ => none)
    fun seen => Json.Typed.required seen "auths"

end DockerConfig

/-! ## The credentials -/

/-- **Credentials read back**, and the endpoint they are for. -/
structure StoredCredentials where
  endpoint : String
  credentials : Credentials
  deriving DecidableEq, Repr

/-- Why a file holds no credentials. -/
inductive StoredFault
  | notASecret (f : Yaml.Fault)
  | unexpectedType
  | noEntry
  | badConfig (f : Json.Fault)
  | noEndpoint
  | notBase64
  | notText
  | notAPair

/-- The wording. -/
def StoredFault.message : StoredFault → String
  | .notASecret f => "not a secret: " ++ f.message
  | .unexpectedType => "unexpected secret type"
  | .noEntry => "no docker config entry"
  | .badConfig f => "bad docker config: " ++ f.message
  | .noEndpoint => "empty auths map"
  | .notBase64 => "auth is not base64"
  | .notText => "auth is not UTF-8"
  | .notAPair => "auth is not user:password"

namespace StoredCredentials

/-- The credentials of an entry: what stands in front of its first colon, and behind it. -/
def ofAuth (auth : String) : Except StoredFault Credentials :=
  match Text.Base64.decode? auth with
  | none => .error .notBase64
  | some octets =>
    match Text.Utf8.decode? octets with
    | none => .error .notText
    | some pair =>
      match Text.cutAt? ':' pair.toList with
      | some (username, password) => .ok ⟨String.ofList username, String.ofList password⟩
      | none => .error .notAPair

/-- **The credentials of a configuration**: those for the first endpoint. -/
def ofConfig (text : String) : Except StoredFault StoredCredentials :=
  match DockerConfig.typed.read text with
  | .error f => .error (.badConfig f)
  | .ok auths =>
    match auths.entries with
    | [] => .error .noEndpoint
    | (endpoint, auth) :: _ => (ofAuth auth).map fun c => ⟨endpoint, c⟩

/-- The configuration that a secret holds; plain entries come before encoded ones. -/
def configOf (s : SecretFields) : Except StoredFault String :=
  if s.type ≠ some DockerConfig.secretType then .error .unexpectedType
  else
    match s.stringData.bind fun m => m.get? DockerConfig.entryKey with
    | some text => .ok text
    | none =>
      match s.data.bind fun m => m.get? DockerConfig.entryKey with
      | some octets => .ok (Text.Utf8.decodeLenient octets)
      | none => .error .noEntry

/-- **The credentials of a secret**, as YAML or as JSON. -/
def ofText (text : String) : Except StoredFault StoredCredentials :=
  match SecretFields.typed.read text with
  | .error f => .error (.notASecret f)
  | .ok s => do ofConfig (← configOf s)

/-- **The credentials of a file.** -/
def ofFile (files : Files) (path : String) : Except Error StoredCredentials :=
  match files.read path with
  | .error e => .error (.recoverable
      ("cannot read credential file " ++ path ++ ": " ++ e.message))
  | .ok text => (ofText text).mapError fun f => .configuration (path ++ ": " ++ f.message)

end StoredCredentials

end RegistryFleet
