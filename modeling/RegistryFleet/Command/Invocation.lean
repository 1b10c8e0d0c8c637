import RegistryFleet.Command.Manual
import RegistryFleet.Command.Words
import RegistryFleet.Credential.Directory
import RegistryFleet.Reconcile.Settings
import RegistryFleet.Web.Settings

/-!
# Command/Invocation — what a command line asks for

A command line asks for a command to be carried out, or for a text to be shown, or makes no sense.
-/

namespace RegistryFleet.Command

/-- How results are shown. -/
inductive Output
  | text
  | json
  deriving DecidableEq, Repr

/-- The fleet that a command is about. -/
structure FleetChoice where
  /-- The file of the snapshot. -/
  config : String
  forceDelete : Bool
  timeoutSeconds : Nat
  output : Output
  deriving DecidableEq, Repr

/-- How long a run may take, and how many units it may have in flight. -/
structure RunChoice where
  concurrent : Nat
  deadlineSeconds : Nat
  deriving DecidableEq, Repr

/-- Where credentials go. -/
structure CredentialChoice where
  directory : Option String
  format : SecretFormat
  deriving DecidableEq, Repr

/-- Where generated objects go. -/
inductive Target
  | nowhere
  | manifests (path : String)
  | cluster
  deriving DecidableEq, Repr

/-- What is generated, and where it goes. -/
structure JobChoice where
  target : Target
  namespaceName : Option String
  image : String
  fallbackPullTrigger : String
  deriving DecidableEq, Repr

/-- **A command with its settings.** -/
inductive Invocation
  | plan (fleet : FleetChoice) (run : RunChoice)
  | apply (fleet : FleetChoice) (run : RunChoice) (credentials : CredentialChoice) (jobs : JobChoice)
  | replication (fleet : FleetChoice) (jobs : JobChoice)
  | version
  deriving DecidableEq, Repr

namespace Given

/-- A value that was given or filled in. -/
def textOf (given : Given) (name : String) : String := (given.get? name).getD ""

/-- A count that was given or filled in. -/
def countOf (given : Given) (name : String) : Nat := (readCount? (textOf given name)).getD 0

/-- The fleet that is asked for. -/
def fleetChoice (given : Given) : FleetChoice where
  config := textOf given "config"
  forceDelete := given.contains "force-delete"
  timeoutSeconds := countOf given "timeout-secs"
  output := if textOf given "output" = "json" then .json else .text

/-- The run that is asked for. -/
def runChoice (given : Given) : RunChoice where
  concurrent := countOf given "max-concurrent"
  deadlineSeconds := countOf given "deadline-secs"

/-- Where credentials are to go. -/
def credentialChoice (given : Given) : CredentialChoice where
  directory := given.get? "output-dir"
  format := if textOf given "credential-format" = "json" then .json else .yaml

/-- The objects that are asked for. -/
def jobChoice (given : Given) : JobChoice where
  target :=
    match given.get? "manifest-dir" with
    | some path => .manifests path
    | none => if given.contains "kube" then .cluster else .nowhere
  namespaceName := given.get? "namespace"
  image := textOf given "image"
  fallbackPullTrigger := textOf given "fallback-pull-trigger"

end Given

namespace FleetChoice

/-- What the command line asks of every registry. -/
def defaults (c : FleetChoice) : Defaults := ⟨c.forceDelete⟩

/-- How requests are made. -/
def client (c : FleetChoice) : ClientSettings :=
  { ClientSettings.standard with timeout := c.timeoutSeconds * 1000 }

end FleetChoice

/-- How a run is carried out. -/
def RunChoice.settings (c : RunChoice) (dry : Bool) : RunSettings :=
  ⟨c.concurrent, c.deadlineSeconds * 1000, dry⟩

namespace JobChoice

/-- The settings of replication. -/
def topology (c : JobChoice) : TopologySettings := ⟨c.fallbackPullTrigger⟩

/-- The settings of jobs. -/
def settings (c : JobChoice) : JobSettings :=
  { JobSettings.standard with image := c.image, namespaceName := c.namespaceName }

end JobChoice

/-- **What a command line asks for.** -/
inductive Ask
  | carryOut (invocation : Invocation)
  | showText (text : String)
  /-- The command line is not a use of the program. -/
  | misuse
  deriving DecidableEq, Repr

namespace Ask

/-- The text that shows the version. -/
def versionText : String := program ++ " " ++ ClientSettings.version ++ "\n"

/-- The invocation of a command with its values. -/
def invocation (given : Given) : Verb → Invocation
  | .plan => .plan given.fleetChoice given.runChoice
  | .apply => .apply given.fleetChoice given.runChoice given.credentialChoice given.jobChoice
  | .replication => .replication given.fleetChoice given.jobChoice
  | .version => .version

/-- The words behind a command. -/
def ofVerb (environment : String → Option String) (v : Verb) (words : List String) : Ask :=
  match v.form.read environment words with
  | .ok given => carryOut (invocation given v)
  | .error (.help atLength) => showText (v.form.manual environment atLength)
  | .error .misuse => misuse

/-- The words behind the help command: the command that help is wanted for. -/
def ofHelp (environment : String → Option String) : List String → Ask
  | [] => showText programManual
  | ["help"] => showText helpManual
  | [name] => (Verb.named? name).elim misuse fun v => showText (v.form.manual environment true)
  | _ => misuse

/-- **What the words of a command line ask for.** -/
def ofWords (environment : String → Option String) : List String → Ask
  | [] => misuse
  | w :: rest =>
    match Word.ofText w with
    | .plain =>
      if w = "help" then ofHelp environment rest
      else (Verb.named? w).elim misuse fun v => ofVerb environment v rest
    | .long "help" none | .short ('h' :: _) => showText programManual
    | .long "version" none | .short ('V' :: _) => showText versionText
    | _ => misuse

end Ask

end RegistryFleet.Command
