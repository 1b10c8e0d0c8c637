import RegistryFleet.Cluster.Manifests
import RegistryFleet.Command.Complaint
import RegistryFleet.Command.Display
import RegistryFleet.Command.Invocation
import RegistryFleet.Fleet.Declaration
import RegistryFleet.Reconcile.World

/-!
# Command/Execution — carrying a command out

A command prints as it goes, and works on the files and the peer that are there. It ends with
success, or with a complaint; what was printed and changed up to then stays.
-/

namespace RegistryFleet.Command

open Web (Connection Peer)

/-- **What a command works on**: what it has printed, the files and the peer. -/
structure Desk where
  printed : String
  files : Files
  peer : Peer

/-- Steps that print and change things, and may end in a complaint. -/
abbrev Steps (α : Type) : Type := ExceptT Complaint (StateM Desk) α

namespace Steps

/-- Prints a text. -/
def print (text : String) : Steps Unit :=
  modify fun d => { d with printed := d.printed ++ text }

/-- Ends in a complaint. -/
def complain {α : Type} (c : Complaint) : Steps α := throw c

/-- Takes the value, or complains about the failure. -/
def orComplain {α ε : Type} (r : Except ε α) (complaint : ε → Complaint) : Steps α :=
  match r with
  | .ok a => pure a
  | .error e => complain (complaint e)

end Steps

open Steps

/-- A fleet as it was declared. -/
structure LoadedFleet where
  snapshot : Snapshot
  registries : List Registry

/-- Loads the snapshot of a fleet. -/
def loadFleet (c : FleetChoice) : Steps LoadedFleet := do
  let d ← get
  let snapshot ← orComplain (Snapshot.ofFile d.files c.config)
    (.ofError ("Failed to load fleet snapshot " ++ c.config))
  let registries ← orComplain (snapshot.fleet c.defaults) (.ofError "Invalid registry topology")
  return ⟨snapshot, registries⟩

/-- Connects to the registries in order. -/
def connectAll (c : FleetChoice) : List Registry → Steps (List Backend)
  | [] => return []
  | r :: rest => do
    let connection ← orComplain (Connection.ofRegistry r c.client)
      (.ofError ("Failed to connect to registry " ++ r.name))
    return .remote connection :: (← connectAll c rest)

/-- Carries out a run over the backends. -/
def runOver (backends : List Backend) (directory : Option CredentialDirectory)
    (settings : RunSettings) (projects : List ProjectSpec) : Steps Report := do
  let d ← get
  let (report, w) := World.reconcile ⟨backends, d.peer, d.files⟩ directory settings none projects
  set { d with files := w.files, peer := w.peer }
  return report

/-- Prints a report. -/
def printReport (r : Report) (stamp : Stamp) : Output → Steps Unit
  | .json => print (Json.pretty (r.data stamp) ++ "\n")
  | .text => print (r.shown stamp)

/-- Prints the rules of replication. -/
def printRules (rules : List Rule) : Output → Steps Unit
  | .json => print (Json.pretty (.list (rules.map Rule.data)) ++ "\n")
  | .text => print (Rule.shownAll rules)

/-- Opens the place for generated objects, if there is one. No cluster can be reached. -/
def openTarget : Target → Steps (Option ManifestDirectory)
  | .nowhere => return none
  | .manifests path => do
    let d ← get
    let (directory, files) ← orComplain (ManifestDirectory.openAt d.files path)
      (.ofFailure ("Failed to open manifest directory " ++ path))
    set { d with files := files }
    return some directory
  | .cluster => complain (.plain "Failed to create Kubernetes client")

/-- Deals with the jobs of rules and prints what became of them. -/
def syncJobs (backends : List Backend) (directory : ManifestDirectory) (settings : JobSettings)
    (rules : List Rule) : Steps (List ActionResult) := do
  let d ← get
  let w : World := ⟨backends, d.peer, d.files⟩
  let (results, w, files) := CopyJob.sync w.served directory.store settings rules w d.files
  set { d with files := files, peer := w.peer }
  print (shownJobs results)
  return results

/-- The rules of a fleet. -/
def planRules (fleet : LoadedFleet) (jobs : JobChoice) : Steps (List Rule) :=
  orComplain (planFleet jobs.topology fleet.registries fleet.snapshot.projects)
    (.ofError "Failed to plan replication")

/-- Checks the settings of a run. -/
def checkRun (settings : RunSettings) : Steps Unit :=
  orComplain settings.check (.ofFailure "Invalid executor configuration")

/-- **Shows what a run would do.** -/
def plan (stamp : Stamp) (fleet : FleetChoice) (run : RunChoice) : Steps Unit := do
  let loaded ← loadFleet fleet
  let backends ← connectAll fleet loaded.registries
  checkRun (run.settings true)
  let report ← runOver backends none (run.settings true) loaded.snapshot.projects
  printReport report stamp fleet.output
  if report.failed > 0 then
    complain (.plain (toString report.failed ++ " units could not be observed"))

/-- Opens the directory for credentials, if one is asked for. -/
def openCredentials (c : CredentialChoice) : Steps (Option CredentialDirectory) :=
  match c.directory with
  | none => return none
  | some path => do
    let d ← get
    let (directory, files) ← orComplain (CredentialDirectory.openAt d.files path c.format)
      (.ofError ("Failed to prepare output directory " ++ path))
    set { d with files := files }
    return some directory

/-- **Carries a run out**, then the jobs of replication. -/
def apply (stamp : Stamp) (fleet : FleetChoice) (run : RunChoice) (credentials : CredentialChoice)
    (jobs : JobChoice) : Steps Unit := do
  let loaded ← loadFleet fleet
  let backends ← connectAll fleet loaded.registries
  checkRun (run.settings false)
  let directory ← openCredentials credentials
  let report ← runOver backends directory (run.settings false) loaded.snapshot.projects
  printReport report stamp fleet.output
  let failedJobs ← match ← openTarget jobs.target with
    | none => pure 0
    | some manifests => do
      let rules ← planRules loaded jobs
      let results ← syncJobs backends manifests jobs.settings rules
      pure (results.countP ActionResult.isFailed)
  if !report.fullySuccessful || failedJobs > 0 then
    complain (.plain ("reconciliation incomplete: " ++ toString report.failed ++ " units failed, "
      ++ toString report.notReconciled ++ " not reconciled, " ++ toString failedJobs
      ++ " replication jobs failed"))

/-- **Plans replication and writes its jobs.** -/
def replication (fleet : FleetChoice) (jobs : JobChoice) : Steps Unit := do
  let loaded ← loadFleet fleet
  let rules ← planRules loaded jobs
  printRules rules fleet.output
  match ← openTarget jobs.target with
  | none => return
  | some manifests =>
    let backends ← connectAll fleet loaded.registries
    let results ← syncJobs backends manifests jobs.settings rules
    let failed := results.countP ActionResult.isFailed
    if failed > 0 then
      complain (.plain (toString failed ++ " of " ++ toString results.length
        ++ " replication jobs failed"))

/-- The steps of an invocation. -/
def Invocation.steps (stamp : Stamp) : Invocation → Steps Unit
  | .plan fleet run => Command.plan stamp fleet run
  | .apply fleet run credentials jobs => Command.apply stamp fleet run credentials jobs
  | .replication fleet jobs => Command.replication fleet jobs
  | .version => print Ask.versionText

/-- **How a command line ended.** -/
structure Ending where
  /-- The number that the program ends with. -/
  code : Nat
  /-- The complaint; without one, a code other than zero means misuse. -/
  complaint : Option Complaint
  desk : Desk

/-- **Carries a command line out.** -/
def execute (environment : String → Option String) (stamp : Stamp) (words : List String)
    (files : Files) (peer : Peer) : Ending :=
  let desk : Desk := ⟨"", files, peer⟩
  match Ask.ofWords environment words with
  | .misuse => ⟨2, none, desk⟩
  | .showText text => ⟨0, none, { desk with printed := text }⟩
  | .carryOut invocation =>
    match ((invocation.steps stamp).run.run desk) with
    | (.ok (), desk) => ⟨0, none, desk⟩
    | (.error c, desk) => ⟨1, some c, desk⟩

end RegistryFleet.Command
