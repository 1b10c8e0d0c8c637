import RegistryFleet.Cluster.Form
import RegistryFleet.Cluster.Store
import RegistryFleet.Json.Typed

/-!
# Cluster/Api — cluster objects in a running cluster

A write is applied by the server under a fixed manager, a removal asks the server to delete. An
object without namespace goes to a default one. What the server answers must have the right form;
the refusal of a removal as not found counts as done.
-/

namespace RegistryFleet

/-- A request to a cluster. -/
structure ClusterRequest where
  method : String
  path : String
  /-- The parameters of the query, sorted. -/
  query : List String
  contentType : String
  body : Data

/-- The response to a request. -/
structure ClusterResponse where
  status : Nat
  body : String
  deriving DecidableEq, Repr

/-- **A cluster that answers as foretold**: each response once, and then that nothing is found. -/
structure ScriptedCluster where
  responses : List ClusterResponse
  /-- The requests so far, in order. -/
  requests : List ClusterRequest

/-- The response to a request. -/
def ScriptedCluster.serve (request : ClusterRequest) (c : ScriptedCluster) :
    ClusterResponse × ScriptedCluster :=
  let log := c.requests ++ [request]
  match c.responses with
  | r :: rest => (r, ⟨rest, log⟩)
  | [] => (⟨404, ""⟩, ⟨[], log⟩)

/-- **An interface to a cluster.** -/
structure ClusterApi where
  /-- Where objects without namespace go. -/
  defaultNamespace : String
  deriving DecidableEq, Repr

namespace ClusterApi

/-- The manager that writes are done under. -/
def manager : String := "regfleet"

/-- The collection that an object belongs to, in a namespace. -/
def collection (o : ClusterObject) (space : String) : String :=
  match o with
  | .configMap _ => "/api/v1/namespaces/" ++ space ++ "/configmaps"
  | .cronJob _ => "/apis/batch/v1/namespaces/" ++ space ++ "/cronjobs"
  | .secret _ => "/api/v1/namespaces/" ++ space ++ "/secrets"

/-- Where an object is addressed. -/
def target (api : ClusterApi) (o : ClusterObject) (name : String) : String :=
  collection o (o.namespace?.getD api.defaultNamespace) ++ "/" ++ name

/-- May the character stand in a path? -/
def isPathChar (c : Char) : Bool :=
  let n := c.toNat
  n == 0x21 || n == 0x22 || (0x24 ≤ n && n ≤ 0x3B) || n == 0x3D || (0x40 ≤ n && n ≤ 0x5F)
    || (0x61 ≤ n && n ≤ 0x7E) || 0x7F ≤ n

/-- May the character stand in a query? -/
def isQueryChar (c : Char) : Bool :=
  let n := c.toNat
  n == 0x21 || (0x24 ≤ n && n ≤ 0x3B) || n == 0x3D || 0x3F ≤ n

/-- Path and query of a target with parameters; none if a character is not allowed. -/
def split? (target parameters : String) : Option (String × List String) :=
  let whole := Text.before '#' (target ++ "?" ++ parameters).toList
  let (path, query) := (Text.cutAt? '?' whole).getD (whole, [])
  if path.all isPathChar && query.all isQueryChar then
    let parts := (query.splitOn '&').map String.ofList
    some (String.ofList path, (parts.filter (· != "")).mergeSort fun a b => decide (a ≤ b))
  else none

/-- The request that applies an object. -/
def applyRequest? (api : ClusterApi) (o : ClusterObject) (name : String) :
    Option ClusterRequest := do
  let (path, query) ← split? (api.target o name) ("&force=true&fieldManager=" ++ manager)
  return ⟨"PATCH", path, query, "application/apply-patch+yaml", o.data⟩

/-- The request that deletes an object. -/
def deleteRequest? (api : ClusterApi) (o : ClusterObject) (name : String) :
    Option ClusterRequest := do
  let (path, query) ← split? (api.target o name) ""
  return ⟨"DELETE", path, query, "application/json", .record []⟩

/-- The code that the refusal in a body gives, if it is one. -/
def refusalCode? (body : String) : Option Int :=
  let read : Json.Typed (Option String × Option Int) :=
    .record "struct ErrorResponse"
      [("status", false), ("message", true), ("reason", true), ("code", false)]
      (none, none)
      (fun (status, code) name =>
        match name with
        | "status" => some (.once status name .text fun s => (some s, code))
        | "code" => some (.once code name (.int 0 65535 "u16") fun c => (status, some c))
        | "message" | "reason" => some fun n => (Json.Typed.text n).map fun _ => (status, code)
        | _ => none)
      .ok
  match read.read body with
  | .ok (some _, some code) => some code
  | _ => none

/-- The code of a response that is a refusal: its body's, or else its own. -/
def refused? (r : ClusterResponse) : Option Int :=
  if 400 ≤ r.status ∧ r.status < 600 then some ((refusalCode? r.body).getD r.status) else none

/-- Was the object written? -/
def wrote (o : ClusterObject) (r : ClusterResponse) : Bool :=
  (refused? r).isNone && (Form.objectLike o).holds r.body

/-- The kind that a body says it is of; the last of several counts. -/
def kindOf? (body : String) : Option String :=
  match Json.ofText body with
  | (.record fs false, true) =>
    match fs.reverse.find? fun f => f.1 == "kind" with
    | some (_, .text kind) => some kind
    | _ => none
  | _ => none

/-- Was the object removed, or is it not there? -/
def removed (o : ClusterObject) (r : ClusterResponse) : Bool :=
  match refused? r with
  | some code => code == 404
  | none =>
    let form := if kindOf? r.body == some "Status" then Form.status else Form.objectLike o
    form.holds r.body

/-- Makes a request about an object and judges the response. -/
def exchange (o : ClusterObject) (request : Option ClusterRequest)
    (accepts : ClusterResponse → Bool) (cluster : ScriptedCluster) :
    Except Failure Unit × ScriptedCluster :=
  match request with
  | none => (.error (.cluster o.text), cluster)
  | some request =>
    let (r, cluster) := cluster.serve request
    (if accepts r then .ok () else .error (.cluster o.text), cluster)

/-- Makes a request about an object that must have a name. -/
def withName (o : ClusterObject)
    (act : String → ScriptedCluster → Except Failure Unit × ScriptedCluster)
    (cluster : ScriptedCluster) : Except Failure Unit × ScriptedCluster :=
  match o.requireName with
  | .ok name => act name cluster
  | .error e => (.error e, cluster)

/-- **The cluster as a place for cluster objects.** -/
def store (api : ClusterApi) : ObjectStore ScriptedCluster where
  write o := withName o fun name => exchange o (api.applyRequest? o name) (wrote o)
  remove o := withName o fun name => exchange o (api.deleteRequest? o name) (removed o)

end ClusterApi

end RegistryFleet
