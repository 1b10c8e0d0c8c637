import RegistryFleet.Cluster.Object
import RegistryFleet.Json.Node

/-!
# Cluster/Form — the forms that messages of a cluster must have

What a cluster answers is only checked for its form: an object of the expected kind whose known
fields hold values of the right kind, or a status. Every field may be left out or null.
-/

namespace RegistryFleet

/-- **The form of a value.** -/
inductive Form
  | any
  | text
  | bool
  | int
  /-- Octets in base 64. -/
  | octets
  /-- One of these texts. -/
  | oneOf (texts : List String)
  | list (item : Form)
  | map (value : Form)
  /-- A record whose known fields have these forms. -/
  | record (fields : List (String × Form))

namespace Form

open Json

/-- Is the value null? -/
def isNull : Node → Bool
  | .null => true
  | _ => false

/-- Does the value have the form? The count bounds how deep the form is followed. -/
def holdsWithin : (depth : Nat) → Form → Node → Bool
  | 0, _, _ => false
  | depth + 1, form, n =>
    match form, n with
    | .any, n => !n.hasHole
    | .text, .text _ => true
    | .bool, .bool _ => true
    | .int, .int _ => true
    | .octets, .text s => (Text.Base64.decode? s).isSome
    | .oneOf texts, .text s => texts.contains s
    | .list item, .list ns => ns.all fun n => holdsWithin depth item n
    | .map value, .record fs false => fs.all fun f => holdsWithin depth value f.2
    | .record fields, .record fs false =>
      fs.all fun (name, n) =>
        match fields.find? fun f => f.1 == name with
        | some (_, form) => isNull n || holdsWithin depth form n
        | none => !n.hasHole
    | _, _ => false

/-- Forms are nested less deep than this. -/
def deepest : Nat := 16

/-- Is the text one value of the form? -/
def holds (form : Form) (text : String) : Bool :=
  let (n, complete) := Json.ofText text
  complete && form.holdsWithin deepest n

/-- The form of an object's metadata. -/
def metadata : Form :=
  .record
    [ ("annotations", .map .text), ("creationTimestamp", .text),
      ("deletionGracePeriodSeconds", .int), ("deletionTimestamp", .text),
      ("finalizers", .list .text), ("generateName", .text), ("generation", .int),
      ("labels", .map .text), ("name", .text), ("namespace", .text), ("resourceVersion", .text),
      ("selfLink", .text), ("uid", .text) ]

/-- The form of a cron job's specification, as far as the fleet uses it. -/
def cronSchedule : Form :=
  .record
    [ ("concurrencyPolicy", .text), ("failedJobsHistoryLimit", .int),
      ("jobTemplate", .record [("metadata", metadata), ("spec", .record [])]),
      ("schedule", .text), ("startingDeadlineSeconds", .int),
      ("successfulJobsHistoryLimit", .int), ("suspend", .bool), ("timeZone", .text) ]

/-- **The form of objects** like a given one. -/
def objectLike (o : ClusterObject) : Form :=
  let own : List (String × Form) := match o with
    | .configMap _ =>
      [("binaryData", .map .octets), ("data", .map .text), ("immutable", .bool)]
    | .cronJob _ => [("spec", cronSchedule), ("status", .record [])]
    | .secret _ =>
      [("data", .map .octets), ("immutable", .bool), ("stringData", .map .text), ("type", .text)]
  .record (("apiVersion", .oneOf [o.version]) :: ("kind", .oneOf [o.kind])
    :: ("metadata", metadata) :: own)

/-- The form of the status that follows a removal. -/
def status : Form :=
  .record
    [ ("code", .int), ("details", .record []), ("message", .text), ("metadata", .record []),
      ("reason", .text), ("status", .oneOf ["Success", "Failure"]) ]

end Form

end RegistryFleet
