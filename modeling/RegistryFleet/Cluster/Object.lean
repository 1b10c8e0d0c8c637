import RegistryFleet.Data
import RegistryFleet.Text.Base64

/-!
# Cluster/Object — the cluster objects that the fleet manages

Config maps, cron jobs and secrets, with the fields that the fleet uses. Written out, an object
begins with its interface version and kind; the other fields follow in alphabetical order, those
that are absent left out.
-/

namespace RegistryFleet

/-- What identifies and marks an object. -/
structure Metadata where
  annotations : Option (Keyed String) := none
  labels : Option (Keyed String) := none
  name : Option String := none
  namespaceName : Option String := none
  deriving DecidableEq

/-- The metadata as data. -/
def Metadata.data (m : Metadata) : Data :=
  Data.fields
    [ ("annotations", m.annotations.map .ofTexts),
      ("labels", m.labels.map .ofTexts),
      ("name", m.name.map .text),
      ("namespace", m.namespaceName.map .text) ]

/-- Named octets, written in base 64. -/
abbrev Octets : Type := Keyed (List UInt8)

/-- Named octets as data. -/
def Octets.data (m : Octets) : Data :=
  .ofTexts (m.map fun octets => String.ofList (Text.Base64.encodeList octets))

/-- Settings for the containers of the cluster. -/
structure ConfigMap where
  binaryData : Option Octets := none
  data : Option (Keyed String) := none
  immutable : Option Bool := none
  metadata : Metadata
  deriving DecidableEq

/-- Credentials for the containers of the cluster. -/
structure Secret where
  data : Option Octets := none
  immutable : Option Bool := none
  metadata : Metadata
  stringData : Option (Keyed String) := none
  type : Option String := none
  deriving DecidableEq

/-- A container that reads its settings from config maps. -/
structure Container where
  args : Option (List String) := none
  command : Option (List String) := none
  /-- Names of the config maps. -/
  settings : Option (List String) := none
  image : Option String := none
  imagePullPolicy : Option String := none
  name : String
  deriving DecidableEq

/-- The container as data. -/
def Container.data (c : Container) : Data :=
  Data.fields
    [ ("args", c.args.map .texts),
      ("command", c.command.map .texts),
      ("envFrom", c.settings.map fun names =>
        .list (names.map fun name =>
          .record [("configMapRef", .record [("name", .text name)])])),
      ("image", c.image.map .text),
      ("imagePullPolicy", c.imagePullPolicy.map .text),
      ("name", some (.text c.name)) ]

/-- What a cron job runs, and when. -/
structure CronSchedule where
  concurrencyPolicy : Option String := none
  backoffLimit : Option Int := none
  containers : List Container
  restartPolicy : Option String := none
  schedule : String
  startingDeadlineSeconds : Option Int := none
  deriving DecidableEq

/-- The schedule as data. -/
def CronSchedule.data (s : CronSchedule) : Data :=
  let pod := Data.fields
    [ ("containers", some (.list (s.containers.map Container.data))),
      ("restartPolicy", s.restartPolicy.map .text) ]
  let job := Data.fields
    [ ("backoffLimit", s.backoffLimit.map .int),
      ("template", some (.record [("spec", pod)])) ]
  Data.fields
    [ ("concurrencyPolicy", s.concurrencyPolicy.map .text),
      ("jobTemplate", some (.record [("spec", job)])),
      ("schedule", some (.text s.schedule)),
      ("startingDeadlineSeconds", s.startingDeadlineSeconds.map .int) ]

/-- A job that runs on a schedule. -/
structure CronJob where
  metadata : Metadata
  spec : Option CronSchedule := none
  deriving DecidableEq

/-- **A cluster object.** -/
inductive ClusterObject
  | configMap (object : ConfigMap)
  | cronJob (object : CronJob)
  | secret (object : Secret)
  deriving DecidableEq

namespace ClusterObject

/-- The kind of an object. -/
def kind : ClusterObject → String
  | configMap _ => "ConfigMap"
  | cronJob _ => "CronJob"
  | secret _ => "Secret"

/-- The version of the interface that an object belongs to. -/
def version : ClusterObject → String
  | configMap _ | secret _ => "v1"
  | cronJob _ => "batch/v1"

/-- The metadata of an object. -/
def metadata : ClusterObject → Metadata
  | configMap o => o.metadata
  | cronJob o => o.metadata
  | secret o => o.metadata

/-- The name of an object, empty if it has none. -/
def name (o : ClusterObject) : String := o.metadata.name.getD ""

/-- The namespace of an object, if it is fixed. -/
def namespace? (o : ClusterObject) : Option String := o.metadata.namespaceName

/-- The text of an object: its kind and name. -/
def text (o : ClusterObject) : String := o.kind ++ " " ++ o.name

/-- The fields behind version and kind. -/
def body : ClusterObject → List (String × Option Data)
  | configMap o =>
    [ ("binaryData", o.binaryData.map Octets.data),
      ("data", o.data.map .ofTexts),
      ("immutable", o.immutable.map .bool),
      ("metadata", some o.metadata.data) ]
  | cronJob o =>
    [ ("metadata", some o.metadata.data),
      ("spec", o.spec.map CronSchedule.data) ]
  | secret o =>
    [ ("data", o.data.map Octets.data),
      ("immutable", o.immutable.map .bool),
      ("metadata", some o.metadata.data),
      ("stringData", o.stringData.map .ofTexts),
      ("type", o.type.map .text) ]

/-- **The object as data.** -/
def data (o : ClusterObject) : Data :=
  Data.fields (("apiVersion", some (.text o.version)) :: ("kind", some (.text o.kind)) :: o.body)

end ClusterObject

end RegistryFleet
