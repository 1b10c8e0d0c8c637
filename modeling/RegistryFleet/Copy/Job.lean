import RegistryFleet.Cluster.Object
import RegistryFleet.Copy.Tool
import RegistryFleet.Reconcile.Failure
import RegistryFleet.Topology.Plan

/-!
# Copy/Job — the cluster objects of a copy-tool rule

A rule that the copy tool carries out becomes a config map, which lists the repositories to copy,
and a cron job, which runs the copy script over them. Both are named after the project and the
registry at the other end.

* `CopyJob.build` — the objects of a rule, and `CopyJob.of_build` what they are made of.
-/

namespace RegistryFleet

/-- Settings of the jobs. -/
structure JobSettings where
  image : String
  /-- The namespace of the objects, if it is fixed. -/
  namespaceName : Option String
  startingDeadlineSeconds : Int
  backoffLimit : Int
  deriving DecidableEq, Repr

/-- The settings without options. -/
def JobSettings.standard : JobSettings := ⟨CopyTool.standardImage, none, 200, 1⟩

/-- The objects of a copy-tool rule. -/
structure CopyJob where
  configMap : ConfigMap
  cronJob : CronJob
  deriving DecidableEq

namespace CopyJob

/-- The longest name of a cron job. -/
def longestName : Nat := 52

/-- A character of a name: lower case letters, digits and dashes stand, all else becomes a dash. -/
def labelChar (c : Char) : Char :=
  let c := c.toLower
  if c.isAlphanum || c == '-' then c else '-'

/-- Drops dashes from the end. -/
def dropDashes (cs : List Char) : List Char := Text.dropEndWhile (· == '-') cs

/-- **A name made of a text** — mapped, without dashes at either end, and at most `longest`
characters long. -/
def dnsLabel (text : String) (longest : Nat) : String :=
  let mapped := text.toList.map labelChar
  let trimmed := dropDashes (mapped.dropWhile (· == '-'))
  String.ofList (dropDashes (trimmed.take longest))

/-- The common beginning of the names of a rule's objects. -/
def baseName (rule : Rule) : String :=
  dnsLabel (rule.project ++ "-" ++ rule.there) (longestName - "-job".length)

/-- The name of the cron job of a rule. -/
def jobName (rule : Rule) : String := baseName rule ++ "-job"

/-- The name of the config map of a rule. -/
def configMapName (rule : Rule) : String := baseName rule ++ "-cm"

/-- The labels of a rule's objects. -/
def labels (rule : Rule) : Keyed String :=
  .ofList [("generator", "regfleet-copy-tool"), ("project", rule.project),
    ("remote-registry", rule.there)]

/-- The metadata of an object without labels. -/
def bareMetadata (settings : JobSettings) (name : String) : Metadata :=
  { name := some name, namespaceName := settings.namespaceName }

/-- The metadata of an object of a rule. -/
def metadataOf (settings : JobSettings) (rule : Rule) (name : String) : Metadata :=
  { bareMetadata settings name with labels := some (labels rule) }

/-- The objects in the order in which they are written. -/
def objects (job : CopyJob) : List ClusterObject :=
  [.configMap job.configMap, .cronJob job.cronJob]

/-- The objects of a rule by name alone, in the order in which they are removed. -/
def identity (settings : JobSettings) (rule : Rule) : List ClusterObject :=
  [ .cronJob { metadata := bareMetadata settings (jobName rule) },
    .configMap { metadata := bareMetadata settings (configMapName rule) } ]

/-- The registries that images come from and go to. -/
def ends {α : Type} (rule : Rule) (here there : α) : α × α :=
  match rule.direction with
  | .push => (here, there)
  | .pull => (there, here)

/-- The references of the repositories to copy. -/
def sources (source : Registry) (repositories : List Repository) : List String :=
  repositories.map fun r => source.host ++ "/" ++ r.name

/-- Where a project is copied to. -/
def destinationOf (destination : Registry) (rule : Rule) : String :=
  destination.host ++ "/" ++ rule.project

/-- The config map that lists the repositories. -/
def configMapFor (settings : JobSettings) (rule : Rule) (source : Registry)
    (repositories : List Repository) : ConfigMap where
  metadata := metadataOf settings rule (configMapName rule)
  data := some (.ofList
    [(CopyTool.repositoriesVariable, " ".intercalate (sources source repositories))])

/-- The cron job that runs a script on a schedule. -/
def cronJobFor (settings : JobSettings) (rule : Rule) (schedule script : String) : CronJob where
  metadata := metadataOf settings rule (jobName rule)
  spec := some
    { concurrencyPolicy := some "Forbid"
      backoffLimit := some settings.backoffLimit
      containers :=
        [{ args := some ["-c", script]
           command := some ["/bin/bash"]
           settings := some [configMapName rule]
           image := some settings.image
           imagePullPolicy := some "Always"
           name := jobName rule }]
      restartPolicy := some "Never"
      schedule := schedule
      startingDeadlineSeconds := some settings.startingDeadlineSeconds }

/-- The failure of a rule that the registries carry out themselves. -/
def notCopied (rule : Rule) : Failure :=
  .invalid ("rule for " ++ rule.project ++ " on " ++ rule.here
    ++ " uses native replication, not the copy tool")

/-- The failure of a rule without a schedule. -/
def noSchedule (rule : Rule) : Failure :=
  .invalid ("trigger '" ++ rule.trigger.text ++ "' of " ++ rule.project ++ " has no cron schedule")

/-- The failure of a script with a word that cannot be quoted. -/
def unquotable : Failure :=
  .invalid "cannot quote copy-tool argument: cannot shell-quote string containing nul byte"

/-- The script of a rule. -/
def scriptFor (rule : Rule) (source destination : Registry) : Except Failure String :=
  match CopyTool.script? source.credentials (destinationOf destination rule)
      destination.credentials with
  | some script => .ok script
  | none => .error unquotable

/-- **The job of a rule** between two registries, for the repositories of the source. -/
def build (settings : JobSettings) (rule : Rule) (source destination : Registry)
    (repositories : List Repository) : Except Failure CopyJob := do
  if rule.transport ≠ .copyTool then throw (notCopied rule)
  match rule.trigger.schedule with
  | none => throw (noSchedule rule)
  | some schedule =>
    let script ← scriptFor rule source destination
    return ⟨configMapFor settings rule source repositories,
      cronJobFor settings rule schedule script⟩

/-- A job has the schedule and the script of its rule. -/
theorem of_build {settings : JobSettings} {rule : Rule} {source destination : Registry}
    {repositories : List Repository} {job : CopyJob}
    (h : build settings rule source destination repositories = .ok job) :
    ∃ schedule script, rule.trigger.schedule = some schedule
      ∧ CopyTool.script? source.credentials (destinationOf destination rule)
          destination.credentials = some script
      ∧ job = ⟨configMapFor settings rule source repositories,
          cronJobFor settings rule schedule script⟩ := by
  unfold build at h
  by_cases htransport : rule.transport = .copyTool
  · rw [if_neg (not_not_intro htransport)] at h
    cases hschedule : rule.trigger.schedule with
    | none => rw [hschedule] at h; cases h
    | some schedule =>
      rw [hschedule, scriptFor] at h
      cases hscript : CopyTool.script? source.credentials (destinationOf destination rule)
          destination.credentials with
      | none => rw [hscript] at h; cases h
      | some script =>
        rw [hscript] at h
        exact ⟨schedule, script, rfl, rfl, (Except.ok.inj h).symm⟩
  · rw [if_pos htransport] at h
    cases h

end CopyJob

end RegistryFleet
