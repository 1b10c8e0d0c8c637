import RegistryFleet.Data
import RegistryFleet.Json.Writer
import RegistryFleet.Reconcile.Report
import RegistryFleet.Topology.Plan

/-!
# Command/Display — results as they are shown

A report, the rules of replication and the results of their jobs, as text for readers or as JSON.
-/

namespace RegistryFleet

/-- The mark and the moments of a run. -/
structure Stamp where
  id : String
  started : String
  finished : String
  deriving DecidableEq, Repr

/-- A status with its reason. -/
def tagged (tag : String) (name : String) (detail : Option String) : Data :=
  .fields [("status", some (.text tag)), (name, detail.map .text)]

/-- What stands behind a dash, if anything. -/
def behindDash (reason : Option String) : String := reason.elim "" (" - " ++ ·)

namespace ActionStatus

/-- The status as data. -/
def data : ActionStatus → Data
  | planned => tagged "planned" "reason" none
  | succeeded => tagged "succeeded" "reason" none
  | failed reason => tagged "failed" "reason" (some reason)
  | skipped reason => tagged "skipped" "reason" (some reason)
  | notStarted => tagged "not_started" "reason" none

/-- The status in words. -/
def words : ActionStatus → String
  | planned => "planned"
  | succeeded => "done"
  | failed reason => "failed: " ++ reason
  | skipped reason => "skipped: " ++ reason
  | notStarted => "not started"

/-- The sign of a status. -/
def sign : ActionStatus → String
  | succeeded => "✅"
  | failed _ => "❌"
  | skipped _ => "⏭️"
  | planned | notStarted => "⏸️"

/-- The reason of a status. -/
def reason? : ActionStatus → Option String
  | failed reason | skipped reason => some reason
  | _ => none

end ActionStatus

/-- What became of an effect, as data. -/
def EffectStatus.data : EffectStatus → Data
  | .none => tagged "none" "detail" Option.none
  | .applied detail => tagged "applied" "detail" (some detail)
  | .failed detail => tagged "failed" "detail" (some detail)

/-- The result of an action as data. -/
def ActionResult.data (r : ActionResult) : Data :=
  .record [("description", .text r.description), ("status", r.status.data),
    ("side_effect", r.effect.data)]

namespace UnitStatus

/-- The status as data. -/
def data : UnitStatus → Data
  | reconciled => tagged "reconciled" "reason" none
  | failed reason => tagged "failed" "reason" (some reason)
  | skipped reason => tagged "skipped" "reason" (some reason)
  | notReconciled reason => tagged "not_reconciled" "reason" (some reason)

/-- The sign of a status. -/
def sign : UnitStatus → String
  | reconciled => "✅"
  | failed _ => "❌"
  | skipped _ => "⏭️"
  | notReconciled _ => "⏸️"

/-- The reason of a status. -/
def reason? : UnitStatus → Option String
  | reconciled => none
  | failed reason | skipped reason | notReconciled reason => some reason

end UnitStatus

namespace UnitResult

/-- The result of a unit as data. -/
def data (u : UnitResult) : Data :=
  .record [("registry", .text u.registry), ("project", u.project.elim .null .text),
    ("status", u.status.data), ("actions", .list (u.actions.map ActionResult.data))]

/-- The result of a unit with its actions, a line each. -/
def shown (u : UnitResult) : String :=
  "   " ++ u.status.sign ++ " " ++ u.label ++ behindDash u.status.reason? ++ "\n"
    ++ String.join (u.actions.map fun a =>
      "      - " ++ a.description ++ " (" ++ a.status.words ++ ")\n")

end UnitResult

namespace Report

/-- The report as data. -/
def data (r : Report) (stamp : Stamp) : Data :=
  .record [("run_id", .text stamp.id), ("started_at", .text stamp.started),
    ("finished_at", .text stamp.finished), ("dry_run", .bool r.dry),
    ("units", .list (r.units.map UnitResult.data))]

/-- The counts of the report, on a line. -/
def counts (r : Report) : String :=
  "   Reconciled: " ++ toString r.succeeded ++ "  Failed: " ++ toString r.failed ++ "  Skipped: "
    ++ toString r.skipped ++ "  Not reconciled: " ++ toString r.notReconciled ++ "\n"

/-- **The report for readers.** -/
def shown (r : Report) (stamp : Stamp) : String :=
  "\n📊 " ++ (if r.dry then "Plan" else "Reconciliation") ++ " " ++ stamp.id ++ ":\n"
    ++ String.join (r.units.map UnitResult.shown) ++ "\n" ++ r.counts

end Report

namespace Rule

/-- A rule as data. -/
def data (r : Rule) : Data :=
  .record [("project", .text r.project), ("local_registry", .text r.here),
    ("remote_registry", .text r.there), ("direction", .text r.direction.label),
    ("trigger", .text r.trigger.text), ("transport", .text r.transport.label)]

/-- A rule on a line. -/
def shown (r : Rule) : String :=
  "   " ++ r.project ++ " on " ++ r.here ++ ": " ++ r.direction.label ++ " " ++ r.there ++ " ("
    ++ r.trigger.text ++ ", " ++ r.transport.label ++ ")\n"

/-- **Rules for readers.** -/
def shownAll (rules : List Rule) : String :=
  "\n🔁 Replication rules (" ++ toString rules.length ++ "):\n" ++ String.join (rules.map shown)

end Rule

/-- **The results of jobs for readers.** -/
def shownJobs (results : List ActionResult) : String :=
  "\n🛠️  Replication jobs:\n" ++ String.join (results.map fun r =>
    "   " ++ r.status.sign ++ " " ++ r.description ++ behindDash r.status.reason? ++ "\n")

end RegistryFleet
