import RegistryFleet.Backend.Call
import RegistryFleet.Cluster.Store
import RegistryFleet.Copy.Job
import RegistryFleet.Reconcile.Report

/-!
# Copy/Sync — keeping the jobs of replication rules

A rule that the copy tool carries out has its job written; a rule that the registries carry out
themselves has any job of an earlier configuration removed. Every rule has one result, and a rule
that fails does not keep the others from being dealt with.
-/

namespace RegistryFleet

/-- A backend that answers calls, as part of a larger world. -/
structure Served (ω : Type) where
  registry : Registry
  serve : Calls.Server ω

namespace CopyJob

/-- A rule in words. -/
def describe (rule : Rule) : String :=
  rule.direction.label ++ " replication of " ++ rule.project ++ " between " ++ rule.here ++ " and "
    ++ rule.there ++ " (" ++ rule.trigger.text ++ ", " ++ rule.transport.label ++ ")"

/-- The repositories of a project by name; one that is not there has none. -/
def repositoriesOf (project : String) : Calls (Except Error (List Repository)) :=
  (Calls.one (.findProject project)).bind fun
    | .ok found => .one (.listRepositories found)
    | .error (.notFound ..) => .done (.ok [])
    | .error e => .done (.error e)

variable {ω σ : Type}

/-- The backend of a registry by name. -/
def backendFor (backends : List (Served ω)) (name : String) : Except Failure (Served ω) :=
  match backends.find? fun b => b.registry.name == name with
  | some b => .ok b
  | none => .error (.unknownRegistry name)

/-- The two ends of a rule among the backends. -/
def endsOf (backends : List (Served ω)) (rule : Rule) : Except Failure (Served ω × Served ω) := do
  let here ← backendFor backends rule.here
  let there ← backendFor backends rule.there
  return ends rule here there

/-- The job of a rule, for the repositories that its source lists. -/
def prepare (backends : List (Served ω)) (settings : JobSettings) (rule : Rule) (world : ω) :
    Except Failure CopyJob × ω :=
  match endsOf backends rule with
  | .error e => (.error e, world)
  | .ok (source, destination) =>
    match (repositoriesOf rule.project).run source.serve world with
    | (.error e, world) => (.error (.fleet e), world)
    | (.ok repositories, world) =>
      (build settings rule source.registry destination.registry repositories, world)

/-- Writes the job of a rule. -/
def writeFor (backends : List (Served ω)) (store : ObjectStore σ) (settings : JobSettings)
    (rule : Rule) (world : ω) (s : σ) : Except Failure Unit × ω × σ :=
  match prepare backends settings rule world with
  | (.error e, world) => (.error e, world, s)
  | (.ok job, world) =>
    let (result, s) := store.writeAll job.objects s
    (result, world, s)

/-- **What is done for one rule**, and what became of it. -/
def syncRule (backends : List (Served ω)) (store : ObjectStore σ) (settings : JobSettings)
    (rule : Rule) (world : ω) (s : σ) : ActionResult × ω × σ :=
  match rule.transport with
  | .copyTool =>
    match writeFor backends store settings rule world s with
    | (.ok (), world, s) => (.plain (describe rule) .succeeded, world, s)
    | (.error e, world, s) => (.plain (describe rule) (.failed e.message), world, s)
  | .native =>
    match store.removeAll (identity settings rule) s with
    | (.ok (), s) =>
      (.plain (describe rule) (.skipped "replicated natively by the registry"), world, s)
    | (.error e, s) => (.plain (describe rule) (.failed e.message), world, s)

/-- **Deals with the rules in order.** -/
def sync (backends : List (Served ω)) (store : ObjectStore σ) (settings : JobSettings) :
    List Rule → ω → σ → List ActionResult × ω × σ
  | [], world, s => ([], world, s)
  | rule :: rest, world, s =>
    let (r, world, s) := syncRule backends store settings rule world s
    let (rs, world, s) := sync backends store settings rest world s
    (r :: rs, world, s)

end CopyJob

end RegistryFleet
