import RegistryFleet.Copy.Job
import RegistryFleet.Text.Digits
import RegistryFleet.Topology.Trigger

/-!
# Command/Form — the commands and what they take

Each command has a form: the parameters it takes, in the order in which they are shown. Reading the
words of a command line and showing the manual both go by the form.
-/

namespace RegistryFleet.Command

/-- What stands behind the name of a parameter. -/
inductive ValueKind
  /-- Nothing: the parameter is a switch. -/
  | switch
  | path
  | text
  /-- A number of 64 bits. -/
  | count
  /-- One of several words, each with what it means. -/
  | choice (options : List (String × String))
  deriving DecidableEq, Repr

/-- The number of a count. -/
def readCount? (value : String) : Option Nat := do
  let digits := match value.toList with
    | '+' :: rest => rest
    | cs => cs
  if !digits.all Char.isDigit then none
  let n ← Text.readNat? 10 digits
  if n < Nat.pow 2 64 then some n else none

/-- Can the value stand behind the name? -/
def ValueKind.accepts (kind : ValueKind) (value : String) : Bool :=
  match kind with
  | switch => false
  | path => value != ""
  | text => true
  | count => (readCount? value).isSome
  | choice options => options.any fun o => o.1 == value

/-- **A parameter.** -/
structure Parameter where
  name : String
  /-- A short name beside the long one. -/
  letter : Option Char
  kind : ValueKind
  about : String
  /-- The value if none is given. -/
  fallback : Option String
  /-- The variable of the environment that may give the value. -/
  fromVariable : Option String
  required : Bool
  deriving DecidableEq, Repr

/-- A parameter that may be left out. -/
def Parameter.optional (name : String) (kind : ValueKind) (about : String) : Parameter :=
  ⟨name, none, kind, about, none, none, false⟩

/-- A parameter with a value if none is given. -/
def Parameter.withFallback (name : String) (kind : ValueKind) (value about : String) : Parameter :=
  ⟨name, none, kind, about, some value, none, false⟩

/-- **The form of a command.** -/
structure Form where
  name : String
  about : String
  parameters : List Parameter
  /-- Parameters that cannot be given together. -/
  exclusive : List (String × String)
  deriving DecidableEq, Repr

namespace Form

/-- How results are shown. -/
def outputs : List (String × String) :=
  [("text", "Human readable summary"), ("json", "Pretty-printed JSON")]

/-- How credentials are written. -/
def credentialFormats : List (String × String) :=
  [("yaml", "YAML secret manifests"), ("json", "JSON secret manifests")]

/-- What every command about a fleet takes. -/
def fleet : List Parameter :=
  [⟨"config", some 'c', .path, "Fleet snapshot listing registries and expected projects", none,
      some "REGFLEET_CONFIG", true⟩,
    .optional "force-delete" .switch
      "Delete projects together with their repositories unless a registry annotation says otherwise",
    .withFallback "timeout-secs" .count "30" "Timeout of each registry API call in seconds",
    .withFallback "output" (.choice outputs) "text" "Output format: text, json"]

/-- What every run takes. -/
def run (verb : String) : List Parameter :=
  [.withFallback "max-concurrent" .count "4" ("Maximum number of units " ++ verb ++ " concurrently"),
    .withFallback "deadline-secs" .count "300" "Deadline of the whole run in seconds"]

/-- Where generated credentials go. -/
def credentials : List Parameter :=
  [⟨"output-dir", none, .path, "Directory receiving generated robot credentials", none,
      some "REGFLEET_OUTPUT_DIR", false⟩,
    .withFallback "credential-format" (.choice credentialFormats) "yaml"
      "Serialization of credential files"]

/-- Where generated objects go. -/
def target : List Parameter :=
  [.optional "manifest-dir" .path "Write generated objects as YAML files into this directory",
    .optional "kube" .switch "Apply generated objects to the current Kubernetes context",
    .optional "namespace" .text "Namespace of generated objects"]

/-- How generated jobs look. -/
def jobs : List Parameter :=
  [.withFallback "image" .text CopyTool.standardImage "Container image providing the copy tool",
    .withFallback "fallback-pull-trigger" .text TopologySettings.standard.fallbackPullTrigger
      "Trigger of pull rules without a cron or manual declaration"]

/-- Objects go to files or to the cluster. -/
def targetExclusive : List (String × String) := [("manifest-dir", "kube")]

/-- The form of the command that shows what a run would do. -/
def plan : Form :=
  ⟨"plan", "Show the actions a reconciliation would perform", fleet ++ run "observed", []⟩

/-- The form of the command that carries a run out. -/
def apply : Form :=
  ⟨"apply", "Reconcile projects and members on every registry",
    fleet ++ credentials ++ run "reconciled" ++ target ++ jobs, targetExclusive⟩

/-- The form of the command about replication. -/
def replication : Form :=
  ⟨"replication", "Compute replication rules and write copy-tool jobs", fleet ++ target ++ jobs,
    targetExclusive⟩

/-- The form of the command that shows the version. -/
def version : Form := ⟨"version", "Print version information", [], []⟩

end Form

/-- **The commands.** -/
inductive Verb
  /-- Show what a run would do. -/
  | plan
  /-- Carry a run out. -/
  | apply
  /-- Plan replication and write its jobs. -/
  | replication
  | version
  deriving DecidableEq, Repr

namespace Verb

/-- All commands, in the order in which they are shown. -/
def all : List Verb := [plan, apply, replication, version]

/-- The form of a command. -/
def form : Verb → Form
  | plan => .plan
  | apply => .apply
  | replication => .replication
  | version => .version

/-- The command of a name. -/
def named? (name : String) : Option Verb := all.find? fun v => v.form.name == name

end Verb

end RegistryFleet.Command
